import LlmRelay.Ecma.NumberText
import LlmRelay.Ecma.OrderedMap
import LlmRelay.Ecma.Utf8

/-!
# JSON values and their texts

The values `JSON.parse` builds, the parser, and `JSON.stringify` on them. An
object lists its own properties in enumeration order, so array indices come
first, and a repeated key keeps the place of its first occurrence.

## Main definitions

* `Json`: the values;
* `Json.get?`, `Json.isRecord`, `setProperty`: property access;
* `Json.parse`: `JSON.parse`, absent where it throws;
* `Json.stringify`: `JSON.stringify` without a replacer.
-/

namespace Ecma

/-- A JSON value. -/
inductive Json where
  | null
  | bool (b : Bool)
  | num (x : Number)
  | str (s : Text)
  | arr (items : List Json)
  | obj (fields : List (Text × Json))
  deriving Inhabited

namespace Json

-- the deriving handler does not cover nested lists
mutual
/-- Structural equality. -/
def beq : Json → Json → Bool
  | null, null => true
  | bool a, bool b => a == b
  | num x, num y => decide (x = y)
  | str s, str t => decide (s = t)
  | arr a, arr b => beqItems a b
  | obj a, obj b => beqFields a b
  | _, _ => false

/-- Structural equality of elements. -/
def beqItems : List Json → List Json → Bool
  | [], [] => true
  | v :: a, w :: b => beq v w && beqItems a b
  | _, _ => false

/-- Structural equality of properties. -/
def beqFields : List (Text × Json) → List (Text × Json) → Bool
  | [], [] => true
  | (k, v) :: a, (l, w) :: b => decide (k = l) && beq v w && beqFields a b
  | _, _ => false
end

mutual
theorem beq_iff (v w : Json) : beq v w = true ↔ v = w := by
  cases v <;> cases w <;> simp [beq, beqItems_iff, beqFields_iff]

theorem beqItems_iff (a b : List Json) : beqItems a b = true ↔ a = b := by
  cases a <;> cases b <;> simp [beqItems, beq_iff, beqItems_iff]

theorem beqFields_iff (a b : List (Text × Json)) : beqFields a b = true ↔ a = b := by
  rcases a with _ | ⟨⟨k, v⟩, a⟩ <;> rcases b with _ | ⟨⟨l, w⟩, b⟩ <;>
    simp [beqFields, beq_iff, beqFields_iff]
end

instance : DecidableEq Json := fun v w => decidable_of_iff _ (beq_iff v w)

end Json

/-! ## Properties -/

/-- An array index: digits without a leading zero, below `2 ^ 32 - 1`. -/
def arrayIndex? (key : Text) : Option Nat :=
  let n := ofDigits (key.map digitValue)
  if key.all isDigit && key != [] && (key.head? != some 0x30 || key.length == 1)
      && decide (n < 2 ^ 32 - 1) then
    some n
  else
    none

/-- The place of a new property: array indices in ascending order, then the
other keys in order of creation. -/
def insertProperty (key : Text) (v : Json) : List (Text × Json) → List (Text × Json)
  | [] => [(key, v)]
  | (k, w) :: rest =>
    match arrayIndex? key, arrayIndex? k with
    | some n, some m => if n < m then (key, v) :: (k, w) :: rest else (k, w) :: insertProperty key v rest
    | some _, none => (key, v) :: (k, w) :: rest
    | none, _ => (k, w) :: insertProperty key v rest

/-- Assignment of an own property. -/
def setProperty (fields : List (Text × Json)) (key : Text) (v : Json) : List (Text × Json) :=
  if (lookupEntry key fields).isSome then setEntry key v fields else insertProperty key v fields

theorem lookupEntry_insertProperty {key : Text} {fields : List (Text × Json)}
    (h : lookupEntry key fields = none) (v : Json) (k : Text) :
    lookupEntry k (insertProperty key v fields)
      = if key = k then some v else lookupEntry k fields := by
  induction fields with
  | nil => simp [insertProperty, lookupEntry]
  | cons e rest ih =>
    have hne : e.1 ≠ key := by
      intro he
      simp [lookupEntry, he] at h
    have hrest : lookupEntry key rest = none := by simpa [lookupEntry, hne] using h
    have htail : lookupEntry k (e :: insertProperty key v rest)
        = if key = k then some v else lookupEntry k (e :: rest) := by
      by_cases hk : e.1 = k
      · have hkey : key ≠ k := fun h => hne (hk.trans h.symm)
        simp [lookupEntry, hk, hkey]
      · simp [lookupEntry, hk, ih hrest]
    have hhead : lookupEntry k ((key, v) :: e :: rest)
        = if key = k then some v else lookupEntry k (e :: rest) := by
      rw [lookupEntry]
    rw [insertProperty]
    split
    · split
      · exact hhead
      · exact htail
    · exact hhead
    · exact htail

theorem lookupEntry_setProperty (fields : List (Text × Json)) (key k : Text) (v : Json) :
    lookupEntry k (setProperty fields key v) = if key = k then some v else lookupEntry k fields := by
  unfold setProperty
  split
  · exact lookupEntry_setEntry _ _ _ _
  · rename_i h
    exact lookupEntry_insertProperty (by simpa using h) v k

namespace Json

/-- `value[key]` on a value that is an object; absent for `undefined`. -/
def get? (v : Json) (key : Text) : Option Json :=
  match v with
  | obj fields => lookupEntry key fields
  | _ => none

/-- `isRecord`: an object that is not an array. -/
def isRecord : Json → Bool
  | obj _ => true
  | _ => false

/-- The value when it is a record. -/
def record? (v : Option Json) : Option Json :=
  v.filter isRecord

/-- The elements when the value is an array. -/
def array? : Option Json → Option (List Json)
  | some (arr items) => some items
  | _ => none

/-- A value that a condition takes for true. -/
def truthy : Option Json → Bool
  | none | some null => false
  | some (bool b) => b
  | some (num x) => x != 0 && x != .nan
  | some (str s) => s != []
  | some (arr _) | some (obj _) => true

/-- The number when the value is a number. -/
def number? : Option Json → Option Number
  | some (num x) => some x
  | _ => none

/-- The characters when the value is a string. -/
def string? : Option Json → Option Text
  | some (str s) => some s
  | _ => none

/-! ## Parsing -/

/-- White space of the JSON grammar. -/
def isSpace (c : CodeUnit) : Bool :=
  c == 0x20 || c == 0x09 || c == 0x0A || c == 0x0D

/-- Skips white space. -/
def skipSpace (t : Text) : Text :=
  t.dropWhile isSpace

/-- The code unit of four hexadecimal digits. -/
def hex4? (a b c d : CodeUnit) : Option CodeUnit :=
  match hexValue? a, hexValue? b, hexValue? c, hexValue? d with
  | some i, some j, some k, some l => some (0x1000 * i + 0x100 * j + 0x10 * k + l).toUInt16
  | _, _, _, _ => none

/-- The code unit after a backslash, other than `u`. -/
def escape? (c : CodeUnit) : Option CodeUnit :=
  if c = 0x22 ∨ c = 0x5C ∨ c = 0x2F then some c
  else if c = 0x62 then some 0x08
  else if c = 0x66 then some 0x0C
  else if c = 0x6E then some 0x0A
  else if c = 0x72 then some 0x0D
  else if c = 0x74 then some 0x09
  else none

/-- Puts a code unit in front of a parsed string. -/
def consUnit (c : CodeUnit) (p : Text × Text) : Text × Text :=
  (c :: p.1, p.2)

/-- A string after its opening quote, and what follows the closing one. -/
def stringBody? : Text → Option (Text × Text)
  | [] => none
  | c :: rest =>
    if c = 0x22 then some ([], rest)
    else if c = 0x5C then
      match rest with
      | [] => none
      | e :: rest =>
        if e = 0x75 then
          match rest with
          | h₁ :: h₂ :: h₃ :: h₄ :: rest =>
            match hex4? h₁ h₂ h₃ h₄ with
            | some u => (stringBody? rest).map (consUnit u)
            | none => none
          | _ => none
        else
          match escape? e with
          | some u => (stringBody? rest).map (consUnit u)
          | none => none
    else if c < 0x20 then none
    else (stringBody? rest).map (consUnit c)

/-- The integer part: `0`, or digits without a leading zero. -/
def integerPart? (t : Text) : Option (List Nat × Text) :=
  match t with
  | [] => none
  | c :: rest =>
    if c = 0x30 then some ([0], rest)
    else if isDigit c then some (spanDigits t)
    else none

/-- The fraction, none where there is no decimal point. -/
def fractionPart? (t : Text) : Option (List Nat × Text) :=
  match t with
  | [] => some ([], [])
  | c :: rest =>
    if c = 0x2E then
      if (spanDigits rest).1 = [] then none else some (spanDigits rest)
    else some ([], t)

/-- A number without its sign. -/
def magnitude? (t : Text) : Option (ℚ × Text) :=
  match integerPart? t with
  | none => none
  | some (int, t) =>
    match fractionPart? t with
    | none => none
    | some (frac, t) =>
      match exponentPart? t with
      | none => none
      | some (e, t) => some ((Decimal.mk (int ++ frac) (int.length + e)).value, t)

/-- A number, rounded to binary64. -/
def numberLiteral? (t : Text) : Option (Number × Text) :=
  match t with
  | [] => none
  | c :: rest =>
    if c = 0x2D then (magnitude? rest).map fun p => (roundToDouble (-p.1), p.2)
    else (magnitude? t).map fun p => (roundToDouble p.1, p.2)

/-- A literal word. -/
def word? (w : Text) (v : Json) (t : Text) : Option (Json × Text) :=
  if w.isPrefixOf t then some (v, t.drop w.length) else none

-- `fuel` bounds the nesting and the number of elements; twice the length of the
-- text is enough, since every second call reads a code unit
mutual
/-- A value, and what follows it. -/
def value? : Nat → Text → Option (Json × Text)
  | 0, _ => none
  | fuel + 1, t =>
    match skipSpace t with
    | [] => none
    | c :: rest =>
      if c = 0x7B then
        match skipSpace rest with
        | [] => none
        | d :: rest' =>
          if d = 0x7D then some (obj [], rest')
          else (members? fuel [] (d :: rest')).map fun p => (obj p.1, p.2)
      else if c = 0x5B then
        match skipSpace rest with
        | [] => none
        | d :: rest' =>
          if d = 0x5D then some (arr [], rest')
          else (elements? fuel (d :: rest')).map fun p => (arr p.1, p.2)
      else if c = 0x22 then (stringBody? rest).map fun p => (str p.1, p.2)
      else if c = 0x74 then word? (text "true") (bool true) (c :: rest)
      else if c = 0x66 then word? (text "false") (bool false) (c :: rest)
      else if c = 0x6E then word? (text "null") null (c :: rest)
      else (numberLiteral? (c :: rest)).map fun p => (num p.1, p.2)

/-- The elements of an array, up to its closing bracket. -/
def elements? : Nat → Text → Option (List Json × Text)
  | 0, _ => none
  | fuel + 1, t =>
    match value? fuel t with
    | none => none
    | some (v, t) =>
      match skipSpace t with
      | [] => none
      | c :: rest =>
        if c = 0x2C then (elements? fuel rest).map fun p => (v :: p.1, p.2)
        else if c = 0x5D then some ([v], rest)
        else none

/-- The members of an object, up to its closing brace, added to `fields`. -/
def members? : Nat → List (Text × Json) → Text → Option (List (Text × Json) × Text)
  | 0, _, _ => none
  | fuel + 1, fields, t =>
    match skipSpace t with
    | [] => none
    | q :: rest =>
      if q = 0x22 then
        match stringBody? rest with
        | none => none
        | some (key, t) =>
          match skipSpace t with
          | [] => none
          | c :: rest =>
            if c = 0x3A then
              match value? fuel rest with
              | none => none
              | some (v, t) =>
                match skipSpace t with
                | [] => none
                | d :: rest =>
                  if d = 0x2C then members? fuel (setProperty fields key v) rest
                  else if d = 0x7D then some (setProperty fields key v, rest)
                  else none
            else none
      else none
end

/-- `JSON.parse`, absent where it throws. -/
def parse (t : Text) : Option Json :=
  match value? (2 * t.length + 2) t with
  | some (v, rest) => if skipSpace rest = [] then some v else none
  | none => none

/-! ## Printing -/

/-- A hexadecimal digit in lower case. -/
def hexUnit (d : Nat) : CodeUnit :=
  if d < 10 then (0x30 + d).toUInt16 else (0x57 + d).toUInt16

/-- The escape of a code unit by its number. -/
def unicodeEscape (c : CodeUnit) : Text :=
  [0x5C, 0x75, hexUnit (c.toNat / 0x1000), hexUnit (c.toNat / 0x100 % 0x10),
    hexUnit (c.toNat / 0x10 % 0x10), hexUnit (c.toNat % 0x10)]

/-- A code unit that is no surrogate, inside a JSON string. -/
def quoteUnit (c : CodeUnit) : Text :=
  if c = 0x22 ∨ c = 0x5C then [0x5C, c]
  else if c = 0x08 then [0x5C, 0x62]
  else if c = 0x0C then [0x5C, 0x66]
  else if c = 0x0A then [0x5C, 0x6E]
  else if c = 0x0D then [0x5C, 0x72]
  else if c = 0x09 then [0x5C, 0x74]
  else if c < 0x20 then unicodeEscape c
  else [c]

/-- The characters of a JSON string; unpaired surrogates are escaped. -/
def quoteBody : Text → Text
  | [] => []
  | c :: rest =>
    if isHighSurrogate c then
      match rest with
      | [] => unicodeEscape c
      | d :: rest' =>
        if isLowSurrogate d then c :: d :: quoteBody rest'
        else unicodeEscape c ++ quoteBody (d :: rest')
    else if isLowSurrogate c then unicodeEscape c ++ quoteBody rest
    else quoteUnit c ++ quoteBody rest

/-- A JSON string literal. -/
def quote (t : Text) : Text :=
  0x22 :: quoteBody t ++ [0x22]

mutual
/-- `JSON.stringify`. -/
def stringify : Json → Text
  | null => text "null"
  | bool true => text "true"
  | bool false => text "false"
  | num x => if x.isFinite then x.toText else text "null"
  | str s => quote s
  | arr items => 0x5B :: stringifyItems items ++ [0x5D]
  | obj fields => 0x7B :: stringifyFields fields ++ [0x7D]

/-- The elements of an array, separated by commas. -/
def stringifyItems : List Json → Text
  | [] => []
  | [v] => stringify v
  | v :: w :: rest => stringify v ++ 0x2C :: stringifyItems (w :: rest)

/-- The properties of an object, separated by commas. -/
def stringifyFields : List (Text × Json) → Text
  | [] => []
  | [(k, v)] => quote k ++ 0x3A :: stringify v
  | (k, v) :: p :: rest => quote k ++ 0x3A :: stringify v ++ 0x2C :: stringifyFields (p :: rest)
end

end Json

end Ecma
