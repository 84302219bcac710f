import LlmRelay.Ecma.NumberText
import LlmRelay.Ecma.Utf8

/-!
# Lower case

`String.prototype.toLowerCase` follows the character data of the Unicode version that an engine
ships. What does not depend on that version is collected here: lower-cased characters stay as
they are, no digit is new, and no text grows but through the letter `İ`.

## Main definitions

* `CharactersFrom t u`: the characters of `u` are those of `t`, or of ASCII and no capitals;
* `LowerCasing`: a `toLowerCase`;
* `LowerCasing.basic`: the one that knows the capitals of ASCII, and `İ`.
-/

namespace Ecma

/-- An unpaired half of a surrogate pair, or one of a pair. -/
def isSurrogate (c : CodeUnit) : Bool :=
  isHighSurrogate c || isLowSurrogate c

/-- An ASCII capital. -/
def isCapital (c : CodeUnit) : Bool :=
  decide (0x41 ≤ c) && decide (c ≤ 0x5A)

/-- `İ`, the only character with a longer lower case. -/
def dottedI : CodeUnit := 0x130

/-- The characters of the second text are those of the first, or of ASCII and no capitals; an
unpaired surrogate may stand anywhere. -/
structure CharactersFrom (t u : Text) : Prop where
  unit : ∀ c ∈ u, isSurrogate c = false → c ∈ t ∨ (c < 0x80 ∧ isCapital c = false)
  pair : ∀ h l, isHighSurrogate h = true → isLowSurrogate l = true → [h, l] <:+: u → [h, l] <:+: t

theorem CharactersFrom.refl (t : Text) : CharactersFrom t t where
  unit := fun _ hc _ => .inl hc
  pair := fun _ _ _ _ h => h

theorem CharactersFrom.of_part {t u v : Text} (h : CharactersFrom t u) (hv : v <:+: u) :
    CharactersFrom t v where
  unit := fun c hc => h.unit c (hv.subset hc)
  pair := fun high low hhigh hlow hin => h.pair high low hhigh hlow (hin.trans hv)

/-- `String.prototype.toLowerCase` of some engine. -/
structure LowerCasing where
  toLowerCase : Text → Text
  settled : ∀ t u, CharactersFrom (toLowerCase t) u → toLowerCase u = u
  length_le : ∀ t, dottedI ∉ t → (toLowerCase t).length ≤ t.length
  dottedI_notMem : ∀ t, dottedI ∉ toLowerCase t
  digit : ∀ t c, c ∈ toLowerCase t → isDigit c = true → c ∈ t

namespace LowerCasing

/-- The lower case of a unit, as far as ASCII and `İ` go. -/
def lowerUnit (c : CodeUnit) : Text :=
  if isCapital c then [c + 0x20] else if c = dottedI then [0x69, 0x307] else [c]

theorem lowerUnit_eq_self {c : CodeUnit} (hcapital : isCapital c = false) (hc : c ≠ dottedI) :
    lowerUnit c = [c] := by
  rw [lowerUnit, hcapital, if_neg (by decide), if_neg hc]

theorem mem_lowerUnit {c d : CodeUnit} (h : d ∈ lowerUnit c) :
    (isCapital c = true ∧ d = c + 0x20) ∨ (c = dottedI ∧ (d = 0x69 ∨ d = 0x307))
      ∨ (isCapital c = false ∧ c ≠ dottedI ∧ d = c) := by
  rw [lowerUnit] at h
  split at h
  · rename_i hcapital
    exact .inl ⟨hcapital, List.mem_singleton.mp h⟩
  · rename_i hcapital
    split at h
    · rename_i hc
      exact .inr (.inl ⟨hc, by simpa using h⟩)
    · rename_i hc
      exact .inr (.inr ⟨Bool.not_eq_true _ ▸ hcapital, hc, List.mem_singleton.mp h⟩)

theorem isCapital_iff {c : CodeUnit} : isCapital c = true ↔ 0x41 ≤ c.toNat ∧ c.toNat ≤ 0x5A := by
  simp [isCapital, UInt16.le_iff_toNat_le]

theorem lowered_of_mem {c d : CodeUnit} (h : d ∈ lowerUnit c) :
    isCapital d = false ∧ d ≠ dottedI ∧ (isDigit d = true → d = c) := by
  rcases mem_lowerUnit h with ⟨hcapital, rfl⟩ | ⟨rfl, rfl | rfl⟩ | ⟨hcapital, hc, rfl⟩
  · rw [isCapital_iff] at hcapital
    have hadd : (c + 0x20).toNat = c.toNat + 0x20 := by
      exact Nat.mod_eq_of_lt (by simp; omega)
    refine ⟨?_, ?_, ?_⟩
    · apply Bool.eq_false_iff.mpr
      rw [ne_eq, isCapital_iff]
      omega
    · intro hdotted
      have hnat := congrArg UInt16.toNat hdotted
      rw [dottedI] at hnat
      simp at hnat
      omega
    · intro hdigit
      simp [isDigit, UInt16.le_iff_toNat_le] at hdigit
      omega
  · decide
  · decide
  · exact ⟨hcapital, hc, fun _ => rfl⟩

/-- Lower case that knows the capitals of ASCII, and `İ`. -/
def basic : LowerCasing where
  toLowerCase t := t.flatMap lowerUnit
  settled := by
    intro t u h
    refine (List.flatMap_congr fun c hc => ?_).trans (List.flatMap_singleton' u)
    have hplain : isCapital c = false ∧ c ≠ dottedI := by
      cases hsurrogate : isSurrogate c with
      | true =>
        have hle : 0xD800 ≤ c.toNat := by
          simp [isSurrogate, isHighSurrogate, isLowSurrogate, UInt16.le_iff_toNat_le] at hsurrogate
          omega
        constructor
        · apply Bool.eq_false_iff.mpr
          rw [ne_eq, isCapital_iff]
          omega
        · intro hdotted
          rw [hdotted] at hle
          simp [dottedI] at hle
      | false =>
        rcases h.unit c hc hsurrogate with hmem | ⟨hlt, hcapital⟩
        · obtain ⟨d, -, hd⟩ := List.mem_flatMap.mp hmem
          exact ⟨(lowered_of_mem hd).1, (lowered_of_mem hd).2.1⟩
        · refine ⟨hcapital, fun hdotted => ?_⟩
          rw [hdotted] at hlt
          exact absurd hlt (by decide)
    exact lowerUnit_eq_self hplain.1 hplain.2
  length_le := by
    intro t ht
    rw [List.length_flatMap]
    have hone : t.map (List.length ∘ lowerUnit) = t.map fun _ => 1 :=
      List.map_congr_left fun c hc => by
        rw [Function.comp, lowerUnit]
        split
        · rfl
        · have hne : c ≠ dottedI := fun hdotted => ht (hdotted ▸ hc)
          rw [if_neg hne]
          rfl
    have hsum : (t.map (List.length ∘ lowerUnit)).sum = t.length := by
      rw [hone]
      simp
    exact hsum.le
  dottedI_notMem := by
    intro t hmem
    obtain ⟨c, -, hc⟩ := List.mem_flatMap.mp hmem
    exact (lowered_of_mem hc).2.1 rfl
  digit := by
    intro t c hc hdigit
    obtain ⟨d, hd, hmem⟩ := List.mem_flatMap.mp hc
    rw [(lowered_of_mem hmem).2.2 hdigit]
    exact hd

end LowerCasing

end Ecma
