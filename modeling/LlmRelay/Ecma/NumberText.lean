import LlmRelay.Ecma.Number
import LlmRelay.Ecma.Text
import Mathlib.Algebra.Order.Floor.Ring
import Mathlib.Data.Nat.Digits.Defs
import Mathlib.Data.Rat.Floor

/-!
# Number literals and their rounding

A decimal literal denotes the binary64 value nearest to it, ties to even, and a
finite value is printed with the fewest significant digits that denote it again.

## Main definitions

* `roundToDouble`: the binary64 value nearest to a rational;
* `Decimal`: significant digits and the position of the decimal point;
* `Number.ofText`: `Number(string)`;
* `Number.shortest`: the shortest decimal that denotes a value;
* `Number.toText`: `Number.prototype.toString`.
-/

namespace Ecma

/-! ## Rounding to binary64 -/

/-- A power of two. -/
def pow2 : ℤ → ℚ
  | .ofNat n => ((2 ^ n : Nat) : ℚ)
  | .negSucc n => 1 / ((2 ^ (n + 1) : Nat) : ℚ)

/-- A power of ten. -/
def pow10 : ℤ → ℚ
  | .ofNat n => ((10 ^ n : Nat) : ℚ)
  | .negSucc n => 1 / ((10 ^ (n + 1) : Nat) : ℚ)

/-- The nearest integer, ties to even. -/
def roundHalfEven (x : ℚ) : ℤ :=
  let f := ⌊x⌋
  if x - f < 1 / 2 then f
  else if 1 / 2 < x - f then f + 1
  else if f % 2 = 0 then f else f + 1

/-- The binary exponent of a positive rational. -/
def log2Floor (a : ℚ) : ℤ :=
  let k := (a.num.natAbs.log2 : ℤ) - (a.den.log2 : ℤ)
  if pow2 k ≤ a then k else k - 1

/-- The exponent of the last bit of the value nearest to a positive rational. -/
def ulpExponent (a : ℚ) : ℤ :=
  max (log2Floor a - 52) (-1074)

/-- The binary64 value nearest to a non-negative rational. -/
def roundMagnitude (a : ℚ) : Number :=
  if a = 0 then
    .fin 0
  else
    let e := ulpExponent a
    let r := roundHalfEven (a / pow2 e) * pow2 e
    if pow2 1024 ≤ r then .posInf else .fin r

/-- The binary64 value nearest to a rational. -/
def roundToDouble (q : ℚ) : Number :=
  if q < 0 then (roundMagnitude (-q)).neg else roundMagnitude q

/-- The rationals that are binary64 values. -/
def IsDouble (q : ℚ) : Prop :=
  roundToDouble q = .fin q

instance (q : ℚ) : Decidable (IsDouble q) :=
  inferInstanceAs (Decidable (_ = _))

/-! ## Decimals -/

/-- Decimal digits, most significant first, with the value `0.d₁d₂… × 10 ^ point`. -/
structure Decimal where
  digits : List Nat
  point : ℤ
  deriving DecidableEq, Repr

/-- The number a digit string denotes. -/
def ofDigits (ds : List Nat) : Nat :=
  ds.foldl (fun n d => 10 * n + d) 0

/-- The value of a decimal. -/
def Decimal.value (d : Decimal) : ℚ :=
  ofDigits d.digits * pow10 (d.point - d.digits.length)

/-- The decimal digits of a number, none for zero. -/
def digitsOf (n : Nat) : List Nat :=
  (Nat.digits 10 n).reverse

/-- The decimal of `s × 10 ^ e`, without trailing zeros. -/
def Decimal.ofScaled (s : Nat) (e : ℤ) : Decimal :=
  let ds := digitsOf s
  ⟨(ds.reverse.dropWhile (· == 0)).reverse, ds.length + e⟩

/-! ## Reading numbers -/

/-- A decimal digit. -/
def isDigit (c : CodeUnit) : Bool :=
  decide (0x30 ≤ c) && decide (c ≤ 0x39)

/-- The value of a decimal digit. -/
def digitValue (c : CodeUnit) : Nat :=
  c.toNat - 0x30

/-- The value of a hexadecimal digit. -/
def hexValue? (c : CodeUnit) : Option Nat :=
  if isDigit c then some (c.toNat - 0x30)
  else if 0x41 ≤ c ∧ c ≤ 0x46 then some (c.toNat - 0x37)
  else if 0x61 ≤ c ∧ c ≤ 0x66 then some (c.toNat - 0x57)
  else none

/-- The leading digits, and what follows them. -/
def spanDigits (t : Text) : List Nat × Text :=
  ((t.takeWhile isDigit).map digitValue, t.dropWhile isDigit)

/-- The fraction after a decimal point. -/
def fractionDigits (t : Text) : List Nat × Text :=
  if t.head? = some 0x2E then spanDigits t.tail else ([], t)

/-- The exponent, zero where there is none. -/
def exponentPart? (t : Text) : Option (ℤ × Text) :=
  match t with
  | [] => some (0, [])
  | c :: rest =>
    if c = 0x65 ∨ c = 0x45 then
      let negative := rest.head? == some 0x2D
      let digits := if rest.head? == some 0x2B || rest.head? == some 0x2D then rest.tail else rest
      if (spanDigits digits).1 = [] then none
      else
        let e : ℤ := ofDigits (spanDigits digits).1
        some (if negative then -e else e, (spanDigits digits).2)
    else some (0, t)

/-- A decimal literal without sign; leading zeros and a bare point are fine. -/
def unsignedDecimal? (t : Text) : Option ℚ :=
  let int := spanDigits t
  let frac := fractionDigits int.2
  if int.1 = [] ∧ frac.1 = [] then none
  else
    match exponentPart? frac.2 with
    | some (e, []) => some (Decimal.mk (int.1 ++ frac.1) (int.1.length + e)).value
    | _ => none

/-- The digits after a radix prefix. -/
def radixDigits? (radix : Nat) (t : Text) : Option ℚ :=
  if t = [] then none
  else
    (t.mapM fun c => (hexValue? c).filter fun d => decide (d < radix)).map fun ds =>
      ((ds.foldl (fun n d => radix * n + d) 0 : Nat) : ℚ)

/-- `Number(string)`. -/
def Number.ofText (s : Text) : Number :=
  let t := s.trim
  let decimal (sign : ℚ) (u : Text) : Number :=
    if u = text "Infinity" then (if sign < 0 then .negInf else .posInf)
    else (((unsignedDecimal? u).map fun q => roundToDouble (sign * q)).getD .nan)
  let radix (n : Nat) : Number := (((radixDigits? n (t.drop 2)).map roundToDouble).getD .nan)
  if t = [] then .fin 0
  else if t.take 2 = text "0x" ∨ t.take 2 = text "0X" then radix 16
  else if t.take 2 = text "0o" ∨ t.take 2 = text "0O" then radix 8
  else if t.take 2 = text "0b" ∨ t.take 2 = text "0B" then radix 2
  else if t.head? = some 0x2D then decimal (-1) t.tail
  else if t.head? = some 0x2B then decimal 1 t.tail
  else decimal 1 t

/-! ## Printing numbers -/

namespace Number

/-- The position of the decimal point of a positive rational. -/
def pointOf (a : ℚ) : ℤ :=
  let k := ((digitsOf a.num.natAbs).length : ℤ) - (digitsOf a.den).length
  if pow10 k ≤ a then k + 1 else k

/-- The decimals of `k` digits around a positive rational, the nearer first. -/
def candidates (a : ℚ) (k : Nat) : List Decimal :=
  let e := pointOf a - k
  let x := a / pow10 e
  let near := roundHalfEven x
  let far := if (near : ℚ) ≤ x then near + 1 else near - 1
  [.ofScaled near.toNat e, .ofScaled far.toNat e]

/-- The shortest decimal that denotes a positive value, with at most 17 digits;
beyond them stands the exact value. -/
def shortest (a : ℚ) : Decimal :=
  (((List.range 17).flatMap fun k => candidates a (k + 1)).find?
      fun d => decide (roundMagnitude d.value = .fin a)).getD
    (.ofScaled (a * pow10 1074).num.toNat (-1074))

/-- The code unit of a decimal digit. -/
def digitUnit (d : Nat) : CodeUnit :=
  (0x30 + d).toUInt16

/-- A digit string. -/
def digitText (ds : List Nat) : Text :=
  ds.map digitUnit

/-- A natural number in decimal. -/
def natText (n : Nat) : Text :=
  if n = 0 then text "0" else digitText (digitsOf n)

/-- The layouts of `Number::toString` for a positive value. -/
def layout (d : Decimal) : Text :=
  let k := d.digits.length
  let n := d.point
  if (k : ℤ) ≤ n ∧ n ≤ 21 then
    digitText d.digits ++ List.replicate (n - k).toNat (digitUnit 0)
  else if 0 < n ∧ n ≤ 21 then
    digitText (d.digits.take n.toNat) ++ text "." ++ digitText (d.digits.drop n.toNat)
  else if -6 < n ∧ n ≤ 0 then
    text "0." ++ List.replicate (-n).toNat (digitUnit 0) ++ digitText d.digits
  else
    let e := n - 1
    let sign := if 0 ≤ e then text "+" else text "-"
    let fraction := if k = 1 then [] else text "." ++ digitText (d.digits.drop 1)
    digitText (d.digits.take 1) ++ fraction ++ text "e" ++ sign ++ natText e.natAbs

/-- `Number.prototype.toString`. -/
def toText : Number → Text
  | nan => text "NaN"
  | posInf => text "Infinity"
  | negInf => text "-Infinity"
  | fin q =>
    if q = 0 then text "0"
    else if q < 0 then text "-" ++ layout (shortest (-q))
    else layout (shortest q)

end Number

end Ecma
