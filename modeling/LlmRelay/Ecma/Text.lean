import Mathlib.Data.List.Basic
import Mathlib.Data.List.Infix

/-!
# ECMAScript strings

A string is a list of UTF-16 code units; surrogates need not be paired.

## Main definitions

* `CodeUnit`, `Text`: code units and strings;
* `text`: the string a literal denotes;
* `isWhitespace`, `Text.trim`: the white space and line terminators `trim` removes;
* `Text.splitLines`, `Text.join`: splitting at `/\r?\n/`, and joining;
* `Text.indexOf`, `Text.includes`: occurrences of one string in another.
-/

namespace Ecma

/-- A UTF-16 code unit. -/
abbrev CodeUnit := UInt16

/-- A string value. -/
abbrev Text := List CodeUnit

instance : LawfulBEq Text :=
  inferInstance

/-- The UTF-16 form of a code point. -/
def ofCodePoint (p : Nat) : Text :=
  if p < 0x10000 then
    [p.toUInt16]
  else
    [(0xD800 + (p - 0x10000) / 0x400).toUInt16, (0xDC00 + (p - 0x10000) % 0x400).toUInt16]

/-- The string a literal denotes. -/
def text (s : String) : Text :=
  s.toList.flatMap fun c => ofCodePoint c.toNat

/-- Line feed. -/
def lf : CodeUnit := 0x0A

/-- Carriage return. -/
def cr : CodeUnit := 0x0D

/-- Space. -/
def space : CodeUnit := 0x20

/-- White space and line terminators, as `String.prototype.trim` sees them. -/
def isWhitespace (c : CodeUnit) : Bool :=
  (decide (0x09 ≤ c) && decide (c ≤ 0x0D)) || c == 0x20 || c == 0xA0 || c == 0x1680
    || (decide (0x2000 ≤ c) && decide (c ≤ 0x200A))
    || c == 0x2028 || c == 0x2029 || c == 0x202F || c == 0x205F || c == 0x3000 || c == 0xFEFF

namespace Text

/-- `String.prototype.trimStart`. -/
def trimStart (t : Text) : Text :=
  t.dropWhile isWhitespace

/-- `String.prototype.trimEnd`. -/
def trimEnd (t : Text) : Text :=
  (t.reverse.dropWhile isWhitespace).reverse

/-- `String.prototype.trim`. -/
def trim (t : Text) : Text :=
  trimEnd (trimStart t)

/-- `String.prototype.startsWith`. -/
def startsWith (t p : Text) : Bool :=
  p.isPrefixOf t

/-- `String.prototype.endsWith`. -/
def endsWith (t p : Text) : Bool :=
  p.isSuffixOf t

/-- `String.prototype.indexOf`; absent where the method answers `-1`. -/
def indexOf : Text → Text → Option Nat
  | [], p => if p = [] then some 0 else none
  | c :: t, p => if p.isPrefixOf (c :: t) then some 0 else (indexOf t p).map (· + 1)

/-- `String.prototype.includes`. -/
def includes (t p : Text) : Bool :=
  (indexOf t p).isSome

/-- A line without the carriage return that belongs to its terminator. -/
def dropTrailingCr (line : Text) : Text :=
  if line.getLast? = some cr then line.dropLast else line

/-- `value.split(/\r?\n/)`. -/
def splitLines (t : Text) : List Text :=
  let pieces := List.splitOn lf t
  -- the last piece ends the text, so a carriage return there is its own
  pieces.dropLast.map dropTrailingCr ++ pieces.getLast?.toList

/-- `Array.prototype.join`. -/
def join (sep : Text) (pieces : List Text) : Text :=
  sep.intercalate pieces

/-! ## Joining -/

theorem splitOn_join (sep : CodeUnit) {pieces : List Text} (h : pieces ≠ []) :
    List.splitOn sep (join [sep] pieces) = pieces.flatMap (List.splitOn sep) := by
  induction pieces with
  | nil => exact absurd rfl h
  | cons p pieces ih =>
    cases pieces with
    | nil => simp [join]
    | cons q pieces =>
      rw [List.flatMap_cons, ← ih (List.cons_ne_nil q pieces)]
      exact List.splitOn_append_cons_self p _

theorem join_eq_join_iff (sep : CodeUnit) {a b : List Text} (ha : a ≠ []) (hb : b ≠ []) :
    join [sep] a = join [sep] b ↔ a.flatMap (List.splitOn sep) = b.flatMap (List.splitOn sep) := by
  rw [← splitOn_join sep ha, ← splitOn_join sep hb]
  constructor
  · exact congrArg (List.splitOn sep)
  · intro h
    calc join [sep] a = [sep].intercalate (List.splitOn sep (join [sep] a)) :=
          (List.intercalate_splitOn sep).symm
      _ = join [sep] b := by rw [h, List.intercalate_splitOn]

theorem append_join (sep t : Text) {pieces : List Text} (h : pieces ≠ []) :
    t ++ join sep pieces = join sep (pieces.modifyHead (t ++ ·)) := by
  cases pieces with
  | nil => exact absurd rfl h
  | cons p pieces => cases pieces <;> simp [join]

/-! ## Occurrences -/

variable {t p : Text}

theorem startsWith_iff : t.startsWith p = true ↔ p <+: t := by
  simp [startsWith]

theorem endsWith_iff : t.endsWith p = true ↔ p <:+ t := by
  simp [endsWith]

theorem indexOf_spec {i : Nat} (h : indexOf t p = some i) : p <+: t.drop i ∧ i ≤ t.length := by
  induction t generalizing i with
  | nil =>
    rw [indexOf] at h
    split at h
    · rename_i hp
      simp_all
    · cases h
  | cons c t ih =>
    rw [indexOf] at h
    split at h
    · rename_i hp
      cases h
      exact ⟨by simpa using hp, Nat.zero_le _⟩
    · obtain ⟨j, hj, rfl⟩ := Option.map_eq_some_iff.mp h
      exact ⟨by simpa using (ih hj).1, by simpa using (ih hj).2⟩

theorem not_prefix_of_lt_indexOf {i j : Nat} (h : indexOf t p = some i) (hj : j < i) :
    ¬ p <+: t.drop j := by
  induction t generalizing i j with
  | nil =>
    rw [indexOf] at h
    split at h
    · cases h
      omega
    · cases h
  | cons c t ih =>
    rw [indexOf] at h
    split at h
    · cases h
      omega
    · rename_i hp
      obtain ⟨k, hk, rfl⟩ := Option.map_eq_some_iff.mp h
      cases j with
      | zero => simpa using hp
      | succ j => simpa using ih hk (by omega)

theorem indexOf_eq_none_iff : indexOf t p = none ↔ ¬ p <:+: t := by
  induction t with
  | nil =>
    rw [indexOf]
    split <;> simp_all
  | cons c t ih =>
    rw [indexOf, List.infix_cons_iff]
    split
    · simp_all
    · simp_all

theorem includes_iff : t.includes p = true ↔ p <:+: t := by
  rw [includes, Option.isSome_iff_ne_none, ne_eq, indexOf_eq_none_iff, not_not]

end Text

end Ecma
