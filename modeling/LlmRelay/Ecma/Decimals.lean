import LlmRelay.Ecma.Json
import Mathlib.Data.List.TakeWhile
import Mathlib.Data.Nat.Digits.Lemmas
import Mathlib.Tactic.FieldSimp
import Mathlib.Tactic.Ring

/-!
# Printed numbers read back

The text of a binary64 value denotes that value. The shortest decimal denotes it by its choice,
and every layout of a decimal reads back as that decimal.

## Main results

* `Decimal.value_ofScaled`: trailing zeros do not count;
* `magnitude?_layout`: a layout reads back;
* `Number.roundMagnitude_shortest`: the shortest decimal denotes the value;
* `numberLiteral?_toText`: the text of a binary64 value reads back;
* `isDouble_natCast`: the safe integers are binary64 values.
-/

namespace Ecma

/-! ## Powers -/

theorem pow10_eq_zpow (e : ℤ) : pow10 e = 10 ^ e := by
  cases e with
  | ofNat n => simp [pow10]
  | negSucc n => simp [pow10]

theorem pow2_eq_zpow (e : ℤ) : pow2 e = 2 ^ e := by
  cases e with
  | ofNat n => simp [pow2]
  | negSucc n => simp [pow2]

/-! ## Digits -/

theorem ofDigits_eq (ds : List Nat) : ofDigits ds = Nat.ofDigits 10 ds.reverse := by
  induction ds using List.reverseRecOn with
  | nil => rfl
  | append_singleton ds d ih =>
    rw [List.reverse_append, List.reverse_singleton, List.singleton_append, Nat.ofDigits_cons,
      ← ih, ofDigits, List.foldl_append]
    simp only [List.foldl_cons, List.foldl_nil, ofDigits]
    omega

theorem ofDigits_append (a b : List Nat) :
    ofDigits (a ++ b) = ofDigits a * 10 ^ b.length + ofDigits b := by
  rw [ofDigits_eq, ofDigits_eq, ofDigits_eq, List.reverse_append, Nat.ofDigits_append,
    List.length_reverse]
  ring

theorem ofDigits_replicate_zero (k : Nat) : ofDigits (List.replicate k 0) = 0 := by
  induction k with
  | zero => rfl
  | succ k ih => rw [List.replicate_succ', ofDigits_append, ih]; rfl

theorem ofDigits_digitsOf (n : Nat) : ofDigits (digitsOf n) = n := by
  rw [ofDigits_eq, digitsOf, List.reverse_reverse, Nat.ofDigits_digits]

theorem lt_of_mem_digitsOf {n d : Nat} (h : d ∈ digitsOf n) : d < 10 := by
  rw [digitsOf, List.mem_reverse] at h
  exact Nat.digits_lt_base (by decide) h

theorem digitsOf_eq_cons {n : Nat} (h : n ≠ 0) : ∃ d rest, digitsOf n = d :: rest ∧ d ≠ 0 := by
  have hne : Nat.digits 10 n ≠ [] := Nat.digits_ne_nil_iff_ne_zero.mpr h
  refine ⟨(Nat.digits 10 n).getLast hne, (Nat.digits 10 n).dropLast.reverse, ?_,
    Nat.getLast_digit_ne_zero 10 h⟩
  have hsplit := List.dropLast_append_getLast hne
  rw [digitsOf]
  conv_lhs => rw [← hsplit]
  rw [List.reverse_append, List.reverse_singleton, List.singleton_append]

/-! ## Decimals -/

/-- Digits that start with one that is not zero. -/
structure Decimal.Proper (d : Decimal) : Prop where
  digits : ∀ x ∈ d.digits, x < 10
  head : ∃ x rest, d.digits = x :: rest ∧ x ≠ 0

theorem Decimal.value_eq (d : Decimal) :
    d.value = ofDigits d.digits * (10 : ℚ) ^ (d.point - d.digits.length) := by
  rw [Decimal.value, pow10_eq_zpow]

theorem trimmed_append (ds : List Nat) : ∃ k,
    ds = (ds.reverse.dropWhile (· == 0)).reverse ++ List.replicate k 0 := by
  have hsplit := List.takeWhile_append_dropWhile (p := (· == 0)) (l := ds.reverse)
  refine ⟨(ds.reverse.takeWhile (· == 0)).length, ?_⟩
  have hzeros : ds.reverse.takeWhile (· == 0)
      = List.replicate (ds.reverse.takeWhile (· == 0)).length 0 := by
    refine List.eq_replicate_of_mem fun x hx => ?_
    have hzero := @List.mem_takeWhile_imp _ (fun y : Nat => y == 0) _ _ hx
    exact beq_iff_eq.mp hzero
  have hds := congrArg List.reverse hsplit
  rw [List.reverse_append, List.reverse_reverse] at hds
  conv_lhs => rw [← hds]
  rw [hzeros]
  simp

/-- **Trailing zeros** do not count. -/
theorem Decimal.value_ofScaled (s : Nat) (e : ℤ) :
    (Decimal.ofScaled s e).value = s * (10 : ℚ) ^ e := by
  obtain ⟨k, hk⟩ := trimmed_append (digitsOf s)
  have hdigits := ofDigits_digitsOf s
  have hlength := congrArg List.length hk
  rw [List.length_append, List.length_replicate] at hlength
  rw [hk, ofDigits_append, ofDigits_replicate_zero, List.length_replicate, Nat.add_zero] at hdigits
  rw [Decimal.value_eq, Decimal.ofScaled]
  generalize ((digitsOf s).reverse.dropWhile (· == 0)).reverse = trimmed at hdigits hlength
  rw [hlength, ← hdigits]
  push_cast
  rw [mul_assoc, ← zpow_natCast, ← zpow_add₀ (by norm_num)]
  congr 2
  ring

theorem Decimal.proper_ofScaled {s : Nat} (h : s ≠ 0) (e : ℤ) : (Decimal.ofScaled s e).Proper := by
  obtain ⟨k, hk⟩ := trimmed_append (digitsOf s)
  obtain ⟨d, rest, hd, hne⟩ := digitsOf_eq_cons h
  refine ⟨?_, ?_⟩
  · intro x hx
    refine lt_of_mem_digitsOf (n := s) ?_
    rw [hk]
    exact List.mem_append_left _ hx
  · show ∃ x rest, ((digitsOf s).reverse.dropWhile (· == 0)).reverse = x :: rest ∧ x ≠ 0
    cases htrimmed : ((digitsOf s).reverse.dropWhile (· == 0)).reverse with
    | nil =>
      rw [htrimmed, List.nil_append, hd] at hk
      have hzero : d ∈ List.replicate k 0 := hk ▸ List.mem_cons_self
      exact absurd (List.eq_of_mem_replicate hzero) hne
    | cons x rest' =>
      rw [htrimmed, hd] at hk
      injection hk with hhead
      exact ⟨x, rest', rfl, hhead ▸ hne⟩

/-! ## Layouts -/

variable {x : Nat} {t : Text}

theorem isDigit_digitUnit (h : x < 10) : isDigit (Number.digitUnit x) = true := by
  revert h x
  decide

theorem digitValue_digitUnit (h : x < 10) : digitValue (Number.digitUnit x) = x := by
  revert h x
  decide

theorem digitUnit_ne_zero (h : x < 10) (hne : x ≠ 0) : Number.digitUnit x ≠ 0x30 := by
  revert h x
  decide

/-- A text that does not go on with a digit, a point or an exponent. -/
def EndsNumber (t : Text) : Prop :=
  ∀ c, t.head? = some c → isDigit c = false ∧ c ≠ 0x2E ∧ c ≠ 0x65 ∧ c ≠ 0x45

theorem spanDigits_digitText {ds : List Nat} (hds : ∀ x ∈ ds, x < 10)
    (ht : ∀ c, t.head? = some c → isDigit c = false) :
    spanDigits (Number.digitText ds ++ t) = (ds, t) := by
  have htake : t.takeWhile isDigit = [] := by
    cases t with
    | nil => rfl
    | cons c rest => rw [List.takeWhile_cons, ht c rfl]; rfl
  have hdrop : t.dropWhile isDigit = t := by
    cases t with
    | nil => rfl
    | cons c rest => rw [List.dropWhile_cons, ht c rfl]; rfl
  have hall : ∀ c ∈ Number.digitText ds, isDigit c = true := by
    intro c hc
    obtain ⟨x, hx, rfl⟩ := List.mem_map.mp hc
    exact isDigit_digitUnit (hds x hx)
  rw [spanDigits, List.takeWhile_append_of_pos hall, List.dropWhile_append_of_pos hall, htake,
    hdrop, List.append_nil, Number.digitText, List.map_map]
  have hvalue : ds.map (digitValue ∘ Number.digitUnit) = ds :=
    List.map_congr_left (fun x hx => digitValue_digitUnit (hds x hx)) |>.trans ds.map_id
  rw [hvalue]

theorem integerPart?_digitText {rest : List Nat} (hds : ∀ y ∈ x :: rest, y < 10) (hne : x ≠ 0)
    (ht : ∀ c, t.head? = some c → isDigit c = false) :
    Json.integerPart? (Number.digitText (x :: rest) ++ t) = some (x :: rest, t) := by
  have hx := hds x List.mem_cons_self
  have hspan := spanDigits_digitText hds ht
  simp only [Number.digitText, List.map_cons, List.cons_append] at hspan ⊢
  rw [Json.integerPart?, if_neg (digitUnit_ne_zero hx hne), if_pos (isDigit_digitUnit hx), hspan]

theorem fractionPart?_none (ht : ∀ c, t.head? = some c → c ≠ 0x2E) :
    Json.fractionPart? t = some ([], t) := by
  cases t with
  | nil => rfl
  | cons c rest => rw [Json.fractionPart?, if_neg (ht c rfl)]

theorem fractionPart?_digitText {ds : List Nat} (hds : ∀ x ∈ ds, x < 10) (hne : ds ≠ [])
    (ht : ∀ c, t.head? = some c → isDigit c = false) :
    Json.fractionPart? (text "." ++ Number.digitText ds ++ t) = some (ds, t) := by
  have hspan := spanDigits_digitText hds ht
  have hpoint : text "." ++ Number.digitText ds ++ t = 0x2E :: (Number.digitText ds ++ t) := by
    rfl
  rw [hpoint, Json.fractionPart?, if_pos rfl, hspan, if_neg hne]

theorem exponentPart?_none (ht : ∀ c, t.head? = some c → c ≠ 0x65 ∧ c ≠ 0x45) :
    exponentPart? t = some (0, t) := by
  cases t with
  | nil => rfl
  | cons c rest =>
    rw [exponentPart?, if_neg]
    exact not_or.mpr (ht c rfl)

theorem digitText_replicate_zero (k : Nat) :
    List.replicate k (Number.digitUnit 0) = Number.digitText (List.replicate k 0) := by
  rw [Number.digitText, List.map_replicate]

theorem magnitude?_eq {t₁ t₂ t₃ : Text} {int frac : List Nat} {e : ℤ}
    (hint : Json.integerPart? t = some (int, t₁)) (hfrac : Json.fractionPart? t₁ = some (frac, t₂))
    (hexp : exponentPart? t₂ = some (e, t₃)) :
    Json.magnitude? t
      = some (ofDigits (int ++ frac) * (10 : ℚ) ^ (e - frac.length), t₃) := by
  rw [Json.magnitude?, hint]
  simp only [hfrac, hexp]
  rw [Decimal.value_eq, List.length_append]
  congr 4
  push_cast
  ring

theorem exponentPart?_layout {e : ℤ} (ht : ∀ c, t.head? = some c → isDigit c = false) :
    exponentPart? (text "e" ++ (if 0 ≤ e then text "+" else text "-")
      ++ Number.natText e.natAbs ++ t) = some (e, t) := by
  -- the digits of the exponent
  have hdigits : spanDigits (Number.natText e.natAbs ++ t)
      = (if e.natAbs = 0 then [0] else digitsOf e.natAbs, t) := by
    rw [Number.natText]
    split
    · have hzero : ∀ x ∈ [0], x < 10 := by decide
      exact spanDigits_digitText hzero ht
    · exact spanDigits_digitText (fun x hx => lt_of_mem_digitsOf hx) ht
  have hne : (if e.natAbs = 0 then [0] else digitsOf e.natAbs) ≠ [] := by
    split
    · exact List.cons_ne_nil _ _
    · rename_i h
      obtain ⟨d, rest, hd, -⟩ := digitsOf_eq_cons h
      rw [hd]
      exact List.cons_ne_nil _ _
  have hvalue : ofDigits (if e.natAbs = 0 then [0] else digitsOf e.natAbs) = e.natAbs := by
    split
    · rename_i h
      rw [h]
      rfl
    · exact ofDigits_digitsOf _
  by_cases he : 0 ≤ e
  · rw [if_pos he]
    have htext : text "e" ++ text "+" ++ Number.natText e.natAbs ++ t
        = 0x65 :: 0x2B :: (Number.natText e.natAbs ++ t) := by
      rfl
    have hminus : (some (0x2B : CodeUnit) == some 0x2D) = false := by decide
    have hplus : (some (0x2B : CodeUnit) == some 0x2B) = true := by decide
    rw [htext, exponentPart?, if_pos (.inl rfl)]
    simp only [List.head?_cons, List.tail_cons, hminus, hplus, Bool.true_or, if_true, hdigits,
      hne, if_false, hvalue, Bool.false_eq_true]
    rw [Int.natAbs_of_nonneg he]
  · rw [if_neg he]
    have htext : text "e" ++ text "-" ++ Number.natText e.natAbs ++ t
        = 0x65 :: 0x2D :: (Number.natText e.natAbs ++ t) := by
      rfl
    have hminus : (some (0x2D : CodeUnit) == some 0x2D) = true := by decide
    rw [htext, exponentPart?, if_pos (.inl rfl)]
    simp only [List.head?_cons, List.tail_cons, hminus, Bool.or_true, if_true, hdigits, hne,
      if_false, hvalue]
    rw [Int.ofNat_natAbs_of_nonpos (by omega), neg_neg]

section Layout

variable {digits : List Nat} (hlt : ∀ y ∈ digits, y < 10) {x : Nat} {rest : List Nat}
  (hcons : digits = x :: rest) (hne : x ≠ 0) {point : ℤ} {t : Text} (ht : EndsNumber t)
include hlt hcons hne ht

theorem magnitude?_integer (h : (digits.length : ℤ) ≤ point) :
    Json.magnitude? (Number.digitText digits
        ++ List.replicate (point - digits.length).toNat (Number.digitUnit 0) ++ t)
      = some (ofDigits digits * (10 : ℚ) ^ (point - digits.length), t) := by
  have hdigits : digits ++ List.replicate (point - digits.length).toNat 0
      = x :: (rest ++ List.replicate (point - digits.length).toNat 0) := by
    rw [hcons, List.cons_append]
  have hall : ∀ y ∈ x :: (rest ++ List.replicate (point - digits.length).toNat 0), y < 10 := by
    intro y hy
    rw [← hdigits, List.mem_append] at hy
    rcases hy with hy | hy
    · exact hlt y hy
    · rw [List.eq_of_mem_replicate hy]
      decide
  have hint := integerPart?_digitText hall hne fun c hc => (ht c hc).1
  rw [← hdigits, Number.digitText, List.map_append, ← Number.digitText, ← Number.digitText,
    ← digitText_replicate_zero] at hint
  rw [magnitude?_eq hint (fractionPart?_none fun c hc => (ht c hc).2.1)
      (exponentPart?_none fun c hc => (ht c hc).2.2),
    List.append_nil, ofDigits_append, ofDigits_replicate_zero, List.length_replicate]
  congr 2
  push_cast
  rw [← zpow_natCast, Int.toNat_of_nonneg (by omega)]
  simp

theorem magnitude?_point (h : 0 < point) (hlength : point < digits.length) :
    Json.magnitude? (Number.digitText (digits.take point.toNat) ++ text "."
        ++ Number.digitText (digits.drop point.toNat) ++ t)
      = some (ofDigits digits * (10 : ℚ) ^ (point - digits.length), t) := by
  have htake : digits.take point.toNat = x :: rest.take (point.toNat - 1) := by
    rw [hcons, List.take_cons (by omega)]
  have hall : ∀ y ∈ x :: rest.take (point.toNat - 1), y < 10 := by
    intro y hy
    rw [← htake] at hy
    exact hlt y (List.mem_of_mem_take hy)
  have hfrac := fractionPart?_digitText
    (fun y hy => hlt y (List.mem_of_mem_drop hy) : ∀ y ∈ digits.drop point.toNat, y < 10)
    (List.drop_eq_nil_iff.not.mpr (by omega)) fun c hc => (ht c hc).1
  have hint := integerPart?_digitText hall hne
    (fun c hc => by cases hc; decide : ∀ c,
      (text "." ++ Number.digitText (digits.drop point.toNat) ++ t).head? = some c →
        isDigit c = false)
  rw [← htake] at hint
  have hexponent : (0 : ℤ) - ((digits.length - point.toNat : Nat) : ℤ)
      = point - digits.length := by omega
  rw [List.append_assoc, List.append_assoc, ← List.append_assoc (text "."),
    magnitude?_eq hint hfrac (exponentPart?_none fun c hc => (ht c hc).2.2), List.take_append_drop,
    List.length_drop, hexponent]

omit hne in
theorem magnitude?_leading (h : point ≤ 0) :
    Json.magnitude? (text "0." ++ List.replicate (-point).toNat (Number.digitUnit 0)
        ++ Number.digitText digits ++ t)
      = some (ofDigits digits * (10 : ℚ) ^ (point - digits.length), t) := by
  have hall : ∀ y ∈ List.replicate (-point).toNat 0 ++ digits, y < 10 := by
    intro y hy
    rcases List.mem_append.mp hy with hy | hy
    · rw [List.eq_of_mem_replicate hy]
      decide
    · exact hlt y hy
  have hfrac := fractionPart?_digitText hall (by simp [hcons]) fun c hc => (ht c hc).1
  have hint : Json.integerPart? (text "0."
      ++ Number.digitText (List.replicate (-point).toNat 0 ++ digits) ++ t)
      = some ([0], text "."
        ++ Number.digitText (List.replicate (-point).toNat 0 ++ digits) ++ t) := rfl
  have hzero : ofDigits (0 :: (List.replicate (-point).toNat 0 ++ digits)) = ofDigits digits := by
    rw [← List.singleton_append, ofDigits_append, ofDigits_append, ofDigits_replicate_zero]
    simp [ofDigits]
  have hexponent : (0 : ℤ) - (((-point).toNat + digits.length : Nat) : ℤ)
      = point - digits.length := by omega
  rw [List.append_assoc (text "0."), digitText_replicate_zero, Number.digitText,
    Number.digitText, ← List.map_append, ← Number.digitText,
    magnitude?_eq hint hfrac (exponentPart?_none fun c hc => (ht c hc).2.2),
    List.singleton_append, List.length_append, List.length_replicate, hzero, hexponent]

theorem magnitude?_exponent :
    Json.magnitude? (Number.digitText (digits.take 1)
        ++ (if digits.length = 1 then [] else text "." ++ Number.digitText (digits.drop 1))
        ++ text "e" ++ (if 0 ≤ point - 1 then text "+" else text "-")
        ++ Number.natText (point - 1).natAbs ++ t)
      = some (ofDigits digits * (10 : ℚ) ^ (point - digits.length), t) := by
  have hhead : digits.take 1 = [x] := by rw [hcons]; rfl
  have hexp := exponentPart?_layout (e := point - 1) (t := t) fun c hc => (ht c hc).1
  have hall : ∀ y ∈ [x], y < 10 := by
    intro y hy
    rw [List.mem_singleton.mp hy]
    exact hlt x (hcons ▸ List.mem_cons_self)
  have hexponent : point - 1 - (rest.length : ℤ) = point - digits.length := by
    rw [hcons, List.length_cons]
    push_cast
    ring
  -- the digits after the first one
  have hfrac : Json.fractionPart? ((if digits.length = 1 then []
      else text "." ++ Number.digitText (digits.drop 1))
        ++ (text "e" ++ (if 0 ≤ point - 1 then text "+" else text "-")
          ++ Number.natText (point - 1).natAbs ++ t))
      = some (rest, text "e" ++ (if 0 ≤ point - 1 then text "+" else text "-")
          ++ Number.natText (point - 1).natAbs ++ t) := by
    have hstop : ∀ c, (text "e" ++ (if 0 ≤ point - 1 then text "+" else text "-")
        ++ Number.natText (point - 1).natAbs ++ t).head? = some c →
          isDigit c = false ∧ c ≠ 0x2E := by
      intro c hc
      cases hc
      decide
    by_cases hone : digits.length = 1
    · have hrest : rest = [] := by
        exact List.length_eq_zero_iff.mp (by omega)
      rw [if_pos hone, hrest]
      exact fractionPart?_none fun c hc => (hstop c hc).2
    · have hrest : digits.drop 1 = rest := by rw [hcons]; rfl
      have hsome : rest ≠ [] := by
        rintro rfl
        exact hone (hcons ▸ rfl)
      rw [if_neg hone, hrest]
      refine fractionPart?_digitText (fun y hy => ?_) hsome fun c hc => (hstop c hc).1
      exact hlt y (hcons ▸ List.mem_cons_of_mem x hy)
  have hint := integerPart?_digitText hall hne
    (fun c hc => by
      by_cases hone : digits.length = 1
      · rw [if_pos hone] at hc
        cases hc
        decide
      · rw [if_neg hone] at hc
        cases hc
        decide : ∀ c, ((if digits.length = 1 then []
      else text "." ++ Number.digitText (digits.drop 1))
        ++ (text "e" ++ (if 0 ≤ point - 1 then text "+" else text "-")
          ++ Number.natText (point - 1).natAbs ++ t)).head? = some c → isDigit c = false)
  rw [hhead]
  simp only [List.append_assoc] at hint hfrac hexp ⊢
  rw [magnitude?_eq hint hfrac hexp, List.singleton_append, ← hcons, hexponent]

end Layout

/-- **A layout** reads back. -/
theorem magnitude?_layout {d : Decimal} (hd : d.Proper) {t : Text} (ht : EndsNumber t) :
    Json.magnitude? (Number.layout d ++ t) = some (d.value, t) := by
  obtain ⟨digits, point⟩ := d
  obtain ⟨hlt, x, rest, hcons, hne⟩ := hd
  simp only at hlt hcons
  rw [Number.layout, Decimal.value_eq]
  simp only
  split
  · rename_i h
    exact magnitude?_integer hlt hcons hne ht h.1
  split
  · exact magnitude?_point hlt hcons hne ht (by omega) (by omega)
  split
  · exact magnitude?_leading hlt hcons ht (by omega)
  · exact magnitude?_exponent hlt hcons hne ht

/-! ## The shortest decimal -/

theorem roundHalfEven_intCast (z : ℤ) : roundHalfEven z = z := by
  have hhalf : (z : ℚ) - z < 1 / 2 := by
    norm_num
  rw [roundHalfEven, Int.floor_intCast, if_pos hhalf]

theorem eq_mul_of_roundMagnitude {a : ℚ} (h : roundMagnitude a = .fin a) (hne : a ≠ 0) :
    ∃ z : ℤ, ∃ e : ℤ, -1074 ≤ e ∧ a = z * (2 : ℚ) ^ e := by
  rw [roundMagnitude, if_neg hne] at h
  simp only at h
  split at h
  · cases h
  · refine ⟨roundHalfEven (a / pow2 (ulpExponent a)), ulpExponent a, le_max_right _ _, ?_⟩
    rw [← pow2_eq_zpow]
    exact (Number.fin.inj h).symm

theorem exists_eq_mul_pow10 {a : ℚ} (hpos : 0 < a) {z e : ℤ} {n : Nat} (he : -(n : ℤ) ≤ e)
    (ha : a = z * (2 : ℚ) ^ e) :
    ((a * (10 : ℚ) ^ (n : ℤ)).num.toNat : ℚ) * (10 : ℚ) ^ (-(n : ℤ)) = a := by
  have hint : a * (10 : ℚ) ^ (n : ℤ) = ((z * 2 ^ (e + n).toNat * 5 ^ n : ℤ) : ℚ) := by
    have hten : (10 : ℚ) ^ (n : ℤ) = 2 ^ (n : ℤ) * 5 ^ n := by
      rw [zpow_natCast, zpow_natCast, ← mul_pow]
      norm_num
    rw [ha, hten]
    push_cast
    rw [← zpow_natCast (2 : ℚ) (e + n).toNat, Int.toNat_of_nonneg (by omega),
      zpow_add₀ (by norm_num)]
    ring
  have hnonneg : 0 ≤ (a * (10 : ℚ) ^ (n : ℤ)).num := by
    rw [Rat.num_nonneg]
    exact (mul_pos hpos (zpow_pos (by norm_num) _)).le
  have hcast : ((a * (10 : ℚ) ^ (n : ℤ)).num.toNat : ℚ) = a * (10 : ℚ) ^ (n : ℤ) := by
    rw [← Int.cast_natCast, Int.toNat_of_nonneg hnonneg]
    rw [hint, Rat.num_intCast]
  rw [hcast, mul_assoc, ← zpow_add₀ (by norm_num), add_neg_cancel, zpow_zero, mul_one]

/-- **The shortest decimal** denotes the value. -/
theorem Number.shortest_spec {a : ℚ} (hpos : 0 < a) (h : roundMagnitude a = .fin a) :
    (Number.shortest a).Proper ∧ roundMagnitude (Number.shortest a).value = .fin a := by
  have hzero : roundMagnitude 0 = .fin 0 := if_pos rfl
  -- what denotes a positive value is not zero
  have hproper : ∀ s e, roundMagnitude (Decimal.ofScaled s e).value = .fin a →
      (Decimal.ofScaled s e).Proper := by
    intro s e hs
    refine Decimal.proper_ofScaled ?_ e
    rintro rfl
    rw [Decimal.value_ofScaled, Nat.cast_zero, zero_mul] at hs
    exact hpos.ne (Number.fin.inj hs)
  rw [Number.shortest]
  cases hfind : ((List.range 17).flatMap fun k => Number.candidates a (k + 1)).find?
      fun d => decide (roundMagnitude d.value = .fin a) with
  | some d =>
    have hfound := List.find?_some hfind
    have hd : roundMagnitude d.value = .fin a := decide_eq_true_eq.mp hfound
    obtain ⟨k, -, hmem⟩ := List.mem_flatMap.mp (List.mem_of_find?_eq_some hfind)
    refine ⟨?_, hd⟩
    simp only [Number.candidates, List.mem_cons, List.not_mem_nil, or_false] at hmem
    rcases hmem with rfl | rfl
    · exact hproper _ _ hd
    · exact hproper _ _ hd
  | none =>
    obtain ⟨z, e, he, ha⟩ := eq_mul_of_roundMagnitude h hpos.ne'
    have hvalue : (Decimal.ofScaled (a * pow10 1074).num.toNat (-1074)).value = a := by
      rw [Decimal.value_ofScaled, pow10_eq_zpow]
      exact exists_eq_mul_pow10 (n := 1074) hpos he ha
    have hd : roundMagnitude
        (Decimal.ofScaled (a * pow10 1074).num.toNat (-1074)).value = .fin a := by
      rw [hvalue]
      exact h
    exact ⟨hproper _ _ hd, hd⟩

/-! ## The text of a number -/

theorem Decimal.value_nonneg (d : Decimal) : 0 ≤ d.value := by
  rw [Decimal.value_eq]
  exact mul_nonneg (Nat.cast_nonneg _) (zpow_nonneg (by norm_num) _)

/-- **The text of a binary64 value** reads back. -/
theorem numberLiteral?_toText {q : ℚ} (h : IsDouble q) {t : Text} (ht : EndsNumber t) :
    Json.numberLiteral? ((Number.fin q).toText ++ t) = some (.fin q, t) := by
  have hzero : roundMagnitude 0 = .fin 0 := if_pos rfl
  rw [IsDouble, roundToDouble] at h
  rw [Number.toText]
  by_cases hq : q = 0
  · subst hq
    have hmagnitude : Json.magnitude? (text "0" ++ t) = some (0, t) := by
      have hint : Json.integerPart? (text "0" ++ t) = some ([0], t) := rfl
      rw [magnitude?_eq hint (fractionPart?_none fun c hc => (ht c hc).2.1)
        (exponentPart?_none fun c hc => (ht c hc).2.2)]
      simp [ofDigits]
    change (Json.magnitude? (text "0" ++ t)).map (fun p => (roundToDouble p.1, p.2)) = _
    rw [hmagnitude, Option.map_some, roundToDouble, if_neg (lt_irrefl 0), hzero]
  · rw [if_neg hq]
    by_cases hneg : q < 0
    · rw [if_pos hneg] at h ⊢
      have hround : roundMagnitude (-q) = .fin (-q) := by
        cases hr : roundMagnitude (-q) with
        | fin r =>
          rw [hr] at h
          rw [← Number.fin.inj h, neg_neg]
        | nan | posInf | negInf =>
          rw [hr] at h
          cases h
      obtain ⟨hproper, hshortest⟩ := Number.shortest_spec (neg_pos.mpr hneg) hround
      have hpositive : 0 < (Number.shortest (-q)).value := by
        refine lt_of_le_of_ne (Decimal.value_nonneg _) fun hv => ?_
        rw [← hv] at hshortest
        exact (neg_pos.mpr hneg).ne (Number.fin.inj hshortest)
      change (Json.magnitude? (Number.layout (Number.shortest (-q)) ++ t)).map
        (fun p => (roundToDouble (-p.1), p.2)) = _
      rw [magnitude?_layout hproper ht, Option.map_some, roundToDouble,
        if_pos (neg_neg_of_pos hpositive), neg_neg, hshortest]
      simp [Number.neg]
    · rw [if_neg hneg] at h ⊢
      have hpos : 0 < q := lt_of_le_of_ne (not_lt.mp hneg) (Ne.symm hq)
      obtain ⟨hproper, hshortest⟩ := Number.shortest_spec hpos h
      have hmagnitude := magnitude?_layout hproper ht
      have hliteral : Json.numberLiteral? (Number.layout (Number.shortest q) ++ t)
          = (Json.magnitude? (Number.layout (Number.shortest q) ++ t)).map
            fun p => (roundToDouble p.1, p.2) := by
        cases htext : Number.layout (Number.shortest q) ++ t with
        | nil => rfl
        | cons c rest =>
          have hminus : c ≠ 0x2D := by
            rintro rfl
            rw [htext] at hmagnitude
            cases hmagnitude
          rw [Json.numberLiteral?, if_neg hminus]
      rw [hliteral, hmagnitude, Option.map_some, roundToDouble,
        if_neg (not_lt.mpr (Decimal.value_nonneg _)), hshortest]

/-- **The safe integers** are binary64 values. -/
theorem isDouble_natCast {n : Nat} (h : n ≤ maxSafeInteger) : IsDouble n := by
  have hlt : n < 2 ^ 53 := by
    rw [maxSafeInteger] at h
    omega
  have hround : roundMagnitude n = .fin n := by
    rw [roundMagnitude]
    split
    · rename_i hzero
      rw [hzero]
    · rename_i hne
      have hne' : n ≠ 0 := fun h0 => hne (h0 ▸ Nat.cast_zero)
      -- the last bit is worth no more than one
      have hlog : log2Floor n ≤ 52 := by
        have hk : ((n : ℚ).num.natAbs.log2 : ℤ) - ((n : ℚ).den.log2 : ℤ) ≤ 52 := by
          have hlog2 : n.log2 < 53 := (Nat.log2_lt hne').mpr hlt
          rw [Rat.num_natCast, Int.natAbs_natCast]
          omega
        rw [log2Floor]
        split <;> omega
      have he : ulpExponent n ≤ 0 := by
        rw [ulpExponent]
        omega
      have hint : (n : ℚ) / pow2 (ulpExponent n)
          = ((n * 2 ^ (-ulpExponent n).toNat : ℤ) : ℚ) := by
        rw [pow2_eq_zpow, div_eq_mul_inv, ← zpow_neg]
        push_cast
        rw [← zpow_natCast, Int.toNat_of_nonneg (by omega)]
      have hvalue : (roundHalfEven ((n : ℚ) / pow2 (ulpExponent n)) : ℚ) * pow2 (ulpExponent n)
          = n := by
        rw [hint, roundHalfEven_intCast, ← hint, div_mul_cancel₀]
        rw [pow2_eq_zpow]
        exact (zpow_pos (by norm_num) _).ne'
      have hsmall : ¬ pow2 1024 ≤ (n : ℚ) := by
        rw [not_le, pow2_eq_zpow]
        calc (n : ℚ) < 2 ^ 53 := by exact_mod_cast hlt
          _ ≤ 2 ^ (1024 : ℤ) := by
            rw [← zpow_natCast]
            exact zpow_le_zpow_right₀ (by norm_num) (by decide)
      simp only [hvalue]
      rw [if_neg hsmall]
  rw [IsDouble, roundToDouble, if_neg (not_lt.mpr (Nat.cast_nonneg n)), hround]

end Ecma
