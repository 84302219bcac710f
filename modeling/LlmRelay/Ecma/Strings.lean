import LlmRelay.Ecma.Json

/-!
# Character strings as texts

A string of characters is a text without unpaired surrogates, so it is read back from
its code units. So are the properties of an object built under such keys.

## Main definitions

* `ofText`: the string of characters of a text;
* `Json.ofProperties`: an object, without the properties that are `undefined`.

## Main results

* `ofText_text`, `text_injective`: a string is read back from its text;
* `Json.get?_ofProperties_cons`: a property is read back from its object.
-/

namespace Ecma

/-- The string of the code points of a text. -/
def ofText (t : Text) : String :=
  String.ofList ((codePoints t).map Char.ofNat)

theorem toNat_toUInt16 {n : Nat} (h : n < 0x10000) : n.toUInt16.toNat = n := by
  simpa using Nat.mod_eq_of_lt h

theorem codePoints_basic {p : Nat} (hp : p < 0x10000) (hs : p < 0xD800 ∨ 0xDFFF < p) (rest : Text) :
    codePoints (p.toUInt16 :: rest) = p :: codePoints rest := by
  have hunit := toNat_toUInt16 hp
  have hhigh : isHighSurrogate p.toUInt16 = false := by
    simp only [isHighSurrogate, UInt16.le_iff_toNat_le, Bool.and_eq_false_iff,
      decide_eq_false_iff_not]
    simp only [UInt16.reduceToNat]
    omega
  have hlow : isLowSurrogate p.toUInt16 = false := by
    simp only [isLowSurrogate, UInt16.le_iff_toNat_le, Bool.and_eq_false_iff,
      decide_eq_false_iff_not]
    simp only [UInt16.reduceToNat]
    omega
  rw [codePoints_plain hhigh, hlow, hunit]
  rfl

theorem codePoints_supplementary {p : Nat} (hp : 0x10000 ≤ p) (hlt : p < 0x110000) (rest : Text) :
    codePoints ((0xD800 + (p - 0x10000) / 0x400).toUInt16
        :: (0xDC00 + (p - 0x10000) % 0x400).toUInt16 :: rest)
      = p :: codePoints rest := by
  have hfirst := toNat_toUInt16 (n := 0xD800 + (p - 0x10000) / 0x400) (by omega)
  have hsecond := toNat_toUInt16 (n := 0xDC00 + (p - 0x10000) % 0x400) (by omega)
  have hhigh : isHighSurrogate (0xD800 + (p - 0x10000) / 0x400).toUInt16 = true := by
    simp only [isHighSurrogate, UInt16.le_iff_toNat_le, Bool.and_eq_true, decide_eq_true_eq]
    simp only [UInt16.reduceToNat]
    omega
  have hlow : isLowSurrogate (0xDC00 + (p - 0x10000) % 0x400).toUInt16 = true := by
    simp only [isLowSurrogate, UInt16.le_iff_toNat_le, Bool.and_eq_true, decide_eq_true_eq]
    simp only [UInt16.reduceToNat]
    omega
  have hpair : 0x10000 + (0xD800 + (p - 0x10000) / 0x400 - 0xD800) * 0x400
      + (0xDC00 + (p - 0x10000) % 0x400 - 0xDC00) = p := by omega
  rw [codePoints_pair hhigh hlow, hfirst, hsecond, hpair]

theorem codePoints_ofCodePoint (c : Char) (rest : Text) :
    codePoints (ofCodePoint c.toNat ++ rest) = c.toNat :: codePoints rest := by
  have hvalid : c.toNat < 0xD800 ∨ (0xDFFF < c.toNat ∧ c.toNat < 0x110000) := c.valid
  unfold ofCodePoint
  split
  · exact codePoints_basic ‹_› (by omega) rest
  · exact codePoints_supplementary (by omega) (by omega) rest

theorem codePoints_text (s : String) : codePoints (text s) = s.toList.map Char.toNat := by
  unfold text
  induction s.toList with
  | nil => rfl
  | cons c cs ih => rw [List.flatMap_cons, codePoints_ofCodePoint, ih, List.map_cons]

/-- **A string is read back from its text.** -/
@[simp] theorem ofText_text (s : String) : ofText (text s) = s := by
  rw [ofText, codePoints_text, List.map_map]
  have hid : (Char.ofNat ∘ Char.toNat) = id := by
    funext c
    exact Char.ofNat_toNat c
  rw [hid, List.map_id, String.ofList_toList]

theorem text_injective : Function.Injective text :=
  fun s t h => by rw [← ofText_text s, h, ofText_text]

/-- Only the empty string has the empty text. -/
@[simp] theorem text_eq_nil_iff {s : String} : text s = [] ↔ s = "" :=
  text_injective.eq_iff' rfl

theorem ofText_ne_empty {t : Text} (h : t ≠ []) : ofText t ≠ "" := by
  intro hempty
  have hpoints : codePoints t = [] := by
    have hlist := congrArg String.toList hempty
    rw [ofText, String.toList_ofList] at hlist
    exact List.map_eq_nil_iff.mp hlist
  cases t with
  | nil => exact h rfl
  | cons c rest =>
    rw [codePoints.eq_def] at hpoints
    dsimp only at hpoints
    split at hpoints
    · split at hpoints
      · cases hpoints
      · split at hpoints <;> cases hpoints
    · split at hpoints <;> cases hpoints

/-! ## Properties -/

namespace Json

/-- An object with the given properties; one that is `undefined` is left out. -/
def ofProperties (properties : List (String × Option Json)) : Json :=
  .obj (properties.filterMap fun p => p.2.map fun v => (text p.1, v))

@[simp] theorem get?_ofProperties_nil (key : Text) : (ofProperties []).get? key = none := rfl

@[simp] theorem get?_ofProperties_cons (name key : String) (v : Option Json)
    (properties : List (String × Option Json)) :
    (ofProperties ((name, v) :: properties)).get? (text key)
      = if name = key then v.or ((ofProperties properties).get? (text key))
        else (ofProperties properties).get? (text key) := by
  cases v with
  | none => simp [ofProperties]
  | some v =>
    unfold ofProperties get?
    simp only [List.filterMap_cons, Option.map_some, lookupEntry, text_injective.eq_iff,
      Option.some_or]

variable {properties : List (String × Option Json)}

theorem get?_ofProperties_of_not_mem {name : String} (h : name ∉ properties.map Prod.fst) :
    (ofProperties properties).get? (text name) = none := by
  induction properties with
  | nil => rfl
  | cons property rest ih =>
    rw [List.map_cons, List.mem_cons, not_or] at h
    rw [get?_ofProperties_cons, if_neg (Ne.symm h.1)]
    exact ih h.2

theorem get?_ofProperties_of_mem (hnodup : (properties.map Prod.fst).Nodup) {name : String}
    {v : Option Json} (h : (name, v) ∈ properties) :
    (ofProperties properties).get? (text name) = v := by
  induction properties with
  | nil => cases h
  | cons property rest ih =>
    obtain ⟨key, w⟩ := property
    rw [List.map_cons, List.nodup_cons] at hnodup
    rw [get?_ofProperties_cons]
    rcases List.mem_cons.mp h with heq | hrest
    · cases heq
      rw [if_pos rfl, get?_ofProperties_of_not_mem hnodup.1, Option.or_none]
    · have hne : key ≠ name := by
        rintro rfl
        exact hnodup.1 (List.mem_map.mpr ⟨(key, v), hrest, rfl⟩)
      rw [if_neg hne]
      exact ih hnodup.2 hrest

/-- The number a JSON text keeps: one that is not finite is written as `null`. -/
def ofNumber (x : Number) : Json :=
  if x.isFinite then .num x else .null

theorem ofNumber_of_isFinite {x : Number} (h : x.isFinite = true) : ofNumber x = .num x :=
  if_pos h

/-- A string. -/
def ofString (s : String) : Json := .str (text s)

/-- A count. -/
def ofNat (n : Nat) : Json :=
  .num (.fin n)

/-- The count when the value is one. -/
def count? (v : Option Json) : Option Nat :=
  match number? v with
  | some (.fin q) => if q.den = 1 ∧ 0 ≤ q.num then some q.num.toNat else none
  | _ => none

@[simp] theorem count?_ofNat (n : Nat) : count? (some (ofNat n)) = some n := by
  simp [count?, ofNat, number?]

end Json

end Ecma
