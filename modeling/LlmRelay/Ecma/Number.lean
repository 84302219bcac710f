import Mathlib.Algebra.Order.Field.Rat
import Mathlib.Data.Rat.Cast.Order
import Mathlib.Tactic.Linarith

/-!
# ECMAScript numbers

A number is a finite rational, one of the two infinities, or not-a-number.
Arithmetic on finite values is exact: binary rounding and the sign of zero are
not represented, and every comparison with `nan` is false.

## Main definitions

* `Number`: the values;
* `Number.add`, `Number.sub`, `Number.min`, `Number.max`: arithmetic with the
  absorbing behaviour of `nan`;
* `Number.lt`, `Number.le`: the comparison operators, as Booleans;
* `maxSafeInteger`, `isSafeNat`: the safe-integer range.
-/

namespace Ecma

/-- A number value. -/
inductive Number where
  | nan
  | negInf
  | fin (q : ℚ)
  | posInf
  deriving DecidableEq

namespace Number

instance (n : Nat) : OfNat Number n := ⟨fin n⟩

/-- `Number.isFinite`. -/
def isFinite : Number → Bool
  | fin _ => true
  | _ => false

/-- The operator `<`. -/
def lt : Number → Number → Bool
  | nan, _ => false
  | _, nan => false
  | _, negInf => false
  | negInf, _ => true
  | posInf, _ => false
  | fin _, posInf => true
  | fin p, fin q => decide (p < q)

/-- The operator `<=`. -/
def le : Number → Number → Bool
  | nan, _ => false
  | _, nan => false
  | negInf, _ => true
  | _, negInf => false
  | _, posInf => true
  | posInf, _ => false
  | fin p, fin q => decide (p ≤ q)

/-- The operator `+`. -/
def add : Number → Number → Number
  | nan, _ => nan
  | _, nan => nan
  | negInf, posInf => nan
  | posInf, negInf => nan
  | negInf, _ => negInf
  | _, negInf => negInf
  | posInf, _ => posInf
  | _, posInf => posInf
  | fin p, fin q => fin (p + q)

/-- Unary minus. -/
def neg : Number → Number
  | nan => nan
  | negInf => posInf
  | posInf => negInf
  | fin p => fin (-p)

/-- The operator `-`. -/
def sub (a b : Number) : Number :=
  a.add b.neg

/-- The value of a finite number. -/
def rat? : Number → Option ℚ
  | fin q => some q
  | _ => none

/-- `Math.min` of two numbers. -/
def min (a b : Number) : Number :=
  if a = nan ∨ b = nan then nan else if a.le b then a else b

/-- `Math.max` of two numbers. -/
def max (a b : Number) : Number :=
  if a = nan ∨ b = nan then nan else if a.le b then b else a

/-! ## Finite values -/

@[simp] theorem isFinite_fin (q : ℚ) : (fin q).isFinite = true := rfl

variable (p q : ℚ)

@[simp] theorem lt_fin : (fin p).lt (fin q) = decide (p < q) := rfl

@[simp] theorem le_fin : (fin p).le (fin q) = decide (p ≤ q) := rfl

@[simp] theorem add_fin : (fin p).add (fin q) = fin (p + q) := rfl

@[simp] theorem sub_fin : (fin p).sub (fin q) = fin (p - q) :=
  congrArg fin (sub_eq_add_neg p q).symm

variable (a : Number)

@[simp] theorem nan_lt : nan.lt a = false := rfl

@[simp] theorem lt_nan : a.lt nan = false := by cases a <;> rfl

@[simp] theorem nan_le : nan.le a = false := rfl

@[simp] theorem le_nan : a.le nan = false := by cases a <;> rfl

variable {a b c : Number}

theorem le_total (ha : a ≠ nan) (hb : b ≠ nan) : a.le b = true ∨ b.le a = true := by
  cases a <;> cases b <;> simp_all [le, Rat.le_total]

theorem le_trans (hab : a.le b = true) (hbc : b.le c = true) : a.le c = true := by
  cases a <;> cases b <;> cases c <;> simp_all [le]
  exact Rat.le_trans hab hbc

theorem not_le_of_lt (h : a.lt b = true) : ¬ b.le a = true := by
  cases a <;> cases b <;> simp_all [lt, le]

theorem le_of_lt (h : a.lt b = true) : a.le b = true := by
  cases a <;> cases b <;> simp_all [lt, le]
  exact Rat.le_of_lt h

theorem lt_of_lt_of_le (hab : a.lt b = true) (hbc : b.le c = true) : a.lt c = true := by
  cases a <;> cases b <;> cases c <;> simp_all [lt, le]
  exact hab.trans_le hbc

theorem not_le_iff (ha : a ≠ nan) (hb : b ≠ nan) : ¬ a.le b = true ↔ b.lt a = true := by
  cases a <;> cases b <;> simp_all [lt, le]

/-- A difference is at most zero, or undefined, exactly when the first number is
not above the second. -/
theorem sub_le_zero_or_nan (ha : a ≠ nan) (hb : b ≠ nan) :
    (a.sub b = nan ∨ (a.sub b).le 0 = true) ↔ a.le b = true := by
  cases a <;> cases b <;> simp_all [sub, neg, add, le]

theorem isFinite_iff : a.isFinite = true ↔ ∃ q, a = fin q := by
  cases a <;> simp [isFinite]

theorem isFinite_min (ha : a.isFinite = true) (hb : b.isFinite = true) :
    (a.min b).isFinite = true := by
  obtain ⟨p, rfl⟩ := isFinite_iff.mp ha
  obtain ⟨q, rfl⟩ := isFinite_iff.mp hb
  unfold min
  simp only [reduceCtorEq, or_self, if_false]
  split <;> rfl

theorem min_eq_left_iff (ha : a.isFinite = true) : a.min b = a ↔ a.le b = true := by
  obtain ⟨p, rfl⟩ := isFinite_iff.mp ha
  unfold min
  by_cases hb : b = nan
  · subst hb
    simp
  · rw [if_neg (by simp [hb])]
    split
    · simp_all
    · rename_i hle
      refine ⟨fun heq => ?_, fun h => absurd h hle⟩
      rw [heq, le_fin, decide_eq_true_eq] at hle
      exact absurd le_rfl hle

theorem min_le_right (ha : a ≠ nan) (hb : b ≠ nan) : (a.min b).le b = true := by
  unfold min
  rw [if_neg (by simp [ha, hb])]
  split
  · assumption
  · cases b with
    | nan => exact absurd rfl hb
    | negInf | posInf => rfl
    | fin q => exact decide_eq_true le_rfl

theorem ne_nan_of_isFinite_min (h : (a.min b).isFinite = true) : a ≠ nan ∧ b ≠ nan := by
  rw [← not_or]
  intro hnan
  rw [min, if_pos hnan] at h
  cases h

theorem min_le_left (ha : a ≠ nan) (hb : b ≠ nan) : (a.min b).le a = true := by
  unfold min
  rw [if_neg (by simp [ha, hb])]
  split
  · cases a with
    | nan => exact absurd rfl ha
    | negInf | posInf => rfl
    | fin q => exact decide_eq_true le_rfl
  · rename_i hle
    exact (le_total ha hb).resolve_left hle

theorem add_le_add {d : Number} (h : a.le b = true) (hc : c.isFinite = true)
    (hd : d.isFinite = true) (h' : c.le d = true) : (a.add c).le (b.add d) = true := by
  obtain ⟨p, rfl⟩ := isFinite_iff.mp hc
  obtain ⟨q, rfl⟩ := isFinite_iff.mp hd
  cases a <;> cases b <;> simp_all [le, add]
  linarith

theorem isFinite_max (ha : a.isFinite = true) (hb : b.isFinite = true) :
    (a.max b).isFinite = true := by
  obtain ⟨p, rfl⟩ := isFinite_iff.mp ha
  obtain ⟨q, rfl⟩ := isFinite_iff.mp hb
  unfold max
  simp only [reduceCtorEq, or_self, if_false]
  split <;> rfl

theorem isFinite_add (ha : a.isFinite = true) (hb : b.isFinite = true) :
    (a.add b).isFinite = true := by
  obtain ⟨p, rfl⟩ := isFinite_iff.mp ha
  obtain ⟨q, rfl⟩ := isFinite_iff.mp hb
  rfl

/-- A finite number that is not negative. -/
def IsTime (x : Number) : Prop :=
  x.isFinite = true ∧ x.lt 0 = false

theorem isTime_zero : IsTime 0 :=
  ⟨rfl, by decide⟩

/-- A time and a later one. -/
theorem IsTime.add {x : Number} (h : IsTime x) (n : Nat) : IsTime (x.add (fin n)) := by
  obtain ⟨q, rfl⟩ := isFinite_iff.mp h.1
  have hq : (0 : ℚ) ≤ q := by simpa [OfNat.ofNat] using h.2
  have hn : (0 : ℚ) ≤ n := Nat.cast_nonneg n
  refine ⟨rfl, ?_⟩
  simpa [OfNat.ofNat] using add_nonneg hq hn

end Number

/-! ## Safe integers -/

/-- `Number.MAX_SAFE_INTEGER`. -/
def maxSafeInteger : Nat := 2 ^ 53 - 1

/-- `Number.isSafeInteger` on a natural number. -/
def isSafeNat (n : Nat) : Bool :=
  decide (n ≤ maxSafeInteger)

end Ecma
