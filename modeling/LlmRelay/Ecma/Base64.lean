import LlmRelay.Ecma.Text

/-!
# Base64

The texts of `Buffer.prototype.toString('base64')`, and the bytes they are read back as.

## Main definitions

* `toBase64`, `fromBase64`: the text of bytes, and the bytes of a text;
* `decodeBase64`: the bytes of a text that is the one of its bytes.

## Main results

* `fromBase64_toBase64`: bytes are read back;
* `decodeBase64_eq_some_iff`: the accepted texts are those of bytes.
-/

namespace Ecma

/-- A digit of the alphabet. -/
def base64Digit (n : Nat) : CodeUnit :=
  if n < 26 then (0x41 + n).toUInt16
  else if n < 52 then (0x47 + n).toUInt16
  else if n < 62 then (n - 4).toUInt16
  else if n = 62 then 0x2B
  else 0x2F

/-- The six bits of a digit, of either alphabet. -/
def base64Value? (c : CodeUnit) : Option Nat :=
  if 0x41 ≤ c ∧ c ≤ 0x5A then some (c.toNat - 0x41)
  else if 0x61 ≤ c ∧ c ≤ 0x7A then some (c.toNat - 0x47)
  else if 0x30 ≤ c ∧ c ≤ 0x39 then some (c.toNat + 4)
  else if c = 0x2B ∨ c = 0x2D then some 62
  else if c = 0x2F ∨ c = 0x5F then some 63
  else none

/-- `bytes.toString("base64")`. -/
def toBase64 : List UInt8 → Text
  | [] => []
  | [a] => [base64Digit (a.toNat / 4), base64Digit (a.toNat % 4 * 16), 0x3D, 0x3D]
  | [a, b] =>
    [base64Digit (a.toNat / 4), base64Digit (a.toNat % 4 * 16 + b.toNat / 16),
      base64Digit (b.toNat % 16 * 4), 0x3D]
  | a :: b :: c :: rest =>
    base64Digit (a.toNat / 4) :: base64Digit (a.toNat % 4 * 16 + b.toNat / 16)
      :: base64Digit (b.toNat % 16 * 4 + c.toNat / 64) :: base64Digit (c.toNat % 64)
      :: toBase64 rest

/-- The bytes of a list of six bits each; bits that make no byte are dropped. -/
def ofSextets : List Nat → List UInt8
  | i :: j :: k :: l :: rest =>
    (i * 4 + j / 16).toUInt8 :: (j % 16 * 16 + k / 4).toUInt8 :: (k % 4 * 64 + l).toUInt8
      :: ofSextets rest
  | [i, j, k] => [(i * 4 + j / 16).toUInt8, (j % 16 * 16 + k / 4).toUInt8]
  | [i, j] => [(i * 4 + j / 16).toUInt8]
  | _ => []

/-- `Buffer.from(text, "base64")`: what is no digit is skipped. -/
def fromBase64 (t : Text) : List UInt8 :=
  ofSextets (t.filterMap base64Value?)

/-- The bytes of a text that is written as their text is, of the expected length if there is
one. -/
def decodeBase64 (value : Text) (expectedLength : Option Nat) : Option (List UInt8) :=
  let decoded := fromBase64 value
  if toBase64 decoded ≠ value then none
  else if expectedLength.any fun n => decoded.length ≠ n then none
  else some decoded

theorem base64Value?_base64Digit {n : Nat} (h : n < 64) : base64Value? (base64Digit n) = some n := by
  have hall : ∀ n < 64, base64Value? (base64Digit n) = some n := by decide
  exact hall n h

theorem toUInt8_eq {n : Nat} {b : UInt8} (h : n = b.toNat) : n.toUInt8 = b := by
  rw [h]
  exact UInt8.toNat_inj.mp (by simp)

/-- **Bytes** are read back. -/
theorem fromBase64_toBase64 (bytes : List UInt8) : fromBase64 (toBase64 bytes) = bytes := by
  have hpad : base64Value? 0x3D = none := by decide
  induction bytes using toBase64.induct with
  | case1 => rfl
  | case2 a =>
    have ha := a.toNat_lt
    rw [fromBase64, toBase64]
    simp only [List.filterMap_cons, List.filterMap_nil, hpad,
      base64Value?_base64Digit (n := a.toNat / 4) (by omega),
      base64Value?_base64Digit (n := a.toNat % 4 * 16) (by omega), ofSextets]
    rw [toUInt8_eq (b := a) (by omega)]
  | case3 a b =>
    have ha := a.toNat_lt
    have hb := b.toNat_lt
    rw [fromBase64, toBase64]
    simp only [List.filterMap_cons, List.filterMap_nil, hpad,
      base64Value?_base64Digit (n := a.toNat / 4) (by omega),
      base64Value?_base64Digit (n := a.toNat % 4 * 16 + b.toNat / 16) (by omega),
      base64Value?_base64Digit (n := b.toNat % 16 * 4) (by omega), ofSextets]
    rw [toUInt8_eq (b := a) (by omega), toUInt8_eq (b := b) (by omega)]
  | case4 a b c rest ih =>
    have ha := a.toNat_lt
    have hb := b.toNat_lt
    have hc := c.toNat_lt
    rw [fromBase64] at ih ⊢
    rw [toBase64]
    simp only [List.filterMap_cons, base64Value?_base64Digit (n := a.toNat / 4) (by omega),
      base64Value?_base64Digit (n := a.toNat % 4 * 16 + b.toNat / 16) (by omega),
      base64Value?_base64Digit (n := b.toNat % 16 * 4 + c.toNat / 64) (by omega),
      base64Value?_base64Digit (n := c.toNat % 64) (by omega), ofSextets, ih]
    rw [toUInt8_eq (b := a) (by omega), toUInt8_eq (b := b) (by omega),
      toUInt8_eq (b := c) (by omega)]

variable {expectedLength : Option Nat}

/-- **The accepted texts** are those of bytes of the expected length. -/
theorem decodeBase64_eq_some_iff {value : Text} {bytes : List UInt8} :
    decodeBase64 value expectedLength = some bytes ↔
      value = toBase64 bytes ∧ ∀ n ∈ expectedLength, bytes.length = n := by
  rw [decodeBase64]
  constructor
  · intro h
    split_ifs at h with hvalue hlength
    cases h
    refine ⟨(not_not.mp hvalue).symm, fun n hn => ?_⟩
    by_contra hne
    exact hlength ((Option.any_eq_true _ _).mpr ⟨n, hn, decide_eq_true hne⟩)
  · rintro ⟨rfl, hlength⟩
    rw [fromBase64_toBase64, if_neg (not_not.mpr rfl), if_neg]
    rw [Option.any_eq_true]
    rintro ⟨n, hn, hne⟩
    exact (of_decide_eq_true hne) (hlength n hn)

theorem decodeBase64_toBase64 {bytes : List UInt8} (h : ∀ n ∈ expectedLength, bytes.length = n) :
    decodeBase64 (toBase64 bytes) expectedLength = some bytes :=
  decodeBase64_eq_some_iff.mpr ⟨rfl, h⟩

example : toBase64 [0x4D, 0x61, 0x6E, 0x4D] = text "TWFuTQ==" := by decide

end Ecma
