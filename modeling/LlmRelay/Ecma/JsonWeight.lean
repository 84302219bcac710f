import LlmRelay.Ecma.Json

/-!
# The weight of a JSON value

A value weighs no more than the text it is parsed from. A walk that also enters what it parses
from the texts of a value therefore ends.

## Main definitions

* `Json.weight`: the places of a value, where a text counts its code units.

## Main results

* `weight_le_of_parse`: what a text is parsed to is no heavier than the text is long.
-/

namespace Ecma.Json

mutual
/-- The places of a value, where a text counts its code units. -/
def weight : Json → Nat
  | null => 1
  | bool _ => 1
  | num _ => 1
  | str s => s.length + 1
  | arr items => weightItems items + 1
  | obj fields => weightFields fields + 1

def weightItems : List Json → Nat
  | [] => 0
  | v :: items => weight v + weightItems items

def weightFields : List (Text × Json) → Nat
  | [] => 0
  | (_, v) :: fields => weight v + weightFields fields
end

theorem weight_pos (v : Json) : 0 < v.weight := by
  cases v <;> exact Nat.succ_pos _

/-! ## Properties -/

theorem weightFields_setEntry_le (key : Text) (v : Json) (fields : List (Text × Json)) :
    weightFields (setEntry key v fields) ≤ weightFields fields + v.weight := by
  induction fields with
  | nil => simp [setEntry, weightFields]
  | cons e fields ih =>
    rw [setEntry]
    split
    · simp only [weightFields]
      omega
    · simp only [weightFields]
      omega

theorem weightFields_insertProperty (key : Text) (v : Json) (fields : List (Text × Json)) :
    weightFields (insertProperty key v fields) = weightFields fields + v.weight := by
  induction fields with
  | nil => simp [insertProperty, weightFields]
  | cons e fields ih =>
    rw [insertProperty]
    split
    · split
      · simp only [weightFields]
        omega
      · simp only [weightFields]
        omega
    · simp only [weightFields]
      omega
    · simp only [weightFields]
      omega

theorem weightFields_setProperty_le (fields : List (Text × Json)) (key : Text) (v : Json) :
    weightFields (setProperty fields key v) ≤ weightFields fields + v.weight := by
  rw [setProperty]
  split
  · exact weightFields_setEntry_le key v fields
  · exact (weightFields_insertProperty key v fields).le

/-! ## Scalars -/

theorem length_skipSpace_le (t : Text) : (skipSpace t).length ≤ t.length :=
  (List.dropWhile_sublist _).length_le

variable {t : Text}

theorem length_stringBody? {p : Text × Text} (h : stringBody? t = some p) :
    p.1.length + p.2.length + 1 ≤ t.length := by
  have hcons {c : CodeUnit} {t : Text} {p : Text × Text}
      (ih : ∀ {p}, stringBody? t = some p → p.1.length + p.2.length + 1 ≤ t.length)
      (h : (stringBody? t).map (consUnit c) = some p) :
      p.1.length + p.2.length + 1 ≤ t.length + 1 := by
    obtain ⟨q, hq, rfl⟩ := Option.map_eq_some_iff.mp h
    have hle := ih hq
    simp only [consUnit, List.length_cons]
    omega
  fun_induction stringBody? t generalizing p with
  | case1 => cases h
  | case2 rest =>
    obtain rfl := Option.some.inj h
    simp
  | case4 _ _ _ _ rest _ _ _ ih =>
    have hle := hcons ih h
    simp only [List.length_cons]
    omega
  | case7 _ rest _ _ _ _ ih =>
    have hle := hcons ih h
    simp only [List.length_cons]
    omega
  | case10 _ rest _ _ _ ih => exact hcons ih h
  | _ => cases h

theorem length_spanDigits_le (t : Text) : (spanDigits t).2.length ≤ t.length :=
  (List.dropWhile_sublist _).length_le

theorem length_integerPart? {p : List Nat × Text} (h : integerPart? t = some p) :
    p.2.length + 1 ≤ t.length := by
  unfold integerPart? at h
  split at h
  · cases h
  · rename_i c rest
    split at h
    · obtain rfl := Option.some.inj h
      exact le_rfl
    · split at h
      · rename_i hdigit
        obtain rfl := Option.some.inj h
        rw [spanDigits, List.dropWhile_cons_of_pos hdigit]
        exact Nat.succ_le_succ (List.dropWhile_sublist _).length_le
      · cases h

theorem length_fractionPart? {p : List Nat × Text} (h : fractionPart? t = some p) :
    p.2.length ≤ t.length := by
  unfold fractionPart? at h
  split at h
  · obtain rfl := Option.some.inj h
    exact le_rfl
  · split at h
    · split at h
      · cases h
      · obtain rfl := Option.some.inj h
        exact Nat.le_succ_of_le (length_spanDigits_le _)
    · obtain rfl := Option.some.inj h
      exact le_rfl

theorem length_exponentPart? {p : ℤ × Text} (h : exponentPart? t = some p) :
    p.2.length ≤ t.length := by
  unfold exponentPart? at h
  split at h
  · obtain rfl := Option.some.inj h
    exact le_rfl
  · rename_i c rest
    split at h
    · have hsign : (if (rest.head? == some 0x2B || rest.head? == some 0x2D) = true then rest.tail
          else rest).length ≤ rest.length := by
        split
        · exact (List.tail_sublist rest).length_le
        · exact le_rfl
      dsimp only at h
      generalize (if (rest.head? == some 0x2B || rest.head? == some 0x2D) = true then rest.tail
        else rest) = digits at h hsign
      split at h
      · cases h
      · obtain rfl := Option.some.inj h
        exact (length_spanDigits_le digits).trans (Nat.le_succ_of_le hsign)
    · obtain rfl := Option.some.inj h
      exact le_rfl

theorem length_magnitude? {p : ℚ × Text} (h : magnitude? t = some p) :
    p.2.length + 1 ≤ t.length := by
  unfold magnitude? at h
  split at h
  · cases h
  · rename_i int t₁ hint
    split at h
    · cases h
    · rename_i frac t₂ hfrac
      split at h
      · cases h
      · rename_i e t₃ hexp
        obtain rfl := Option.some.inj h
        have h₁ := length_integerPart? hint
        have h₂ := length_fractionPart? hfrac
        have h₃ := length_exponentPart? hexp
        dsimp only at h₁ h₂ h₃ ⊢
        omega

theorem length_numberLiteral? {p : Number × Text} (h : numberLiteral? t = some p) :
    p.2.length + 1 ≤ t.length := by
  unfold numberLiteral? at h
  split at h
  · cases h
  · split at h
    · obtain ⟨q, hq, rfl⟩ := Option.map_eq_some_iff.mp h
      exact Nat.le_succ_of_le (length_magnitude? hq)
    · obtain ⟨q, hq, rfl⟩ := Option.map_eq_some_iff.mp h
      exact length_magnitude? hq

theorem length_word? {w : Text} {v : Json} {p : Json × Text} (hw : w ≠ [])
    (h : word? w v t = some p) : p.1 = v ∧ p.2.length + 1 ≤ t.length := by
  unfold word? at h
  split at h
  · rename_i hprefix
    obtain rfl := Option.some.inj h
    have hle := (List.isPrefixOf_iff_prefix.mp hprefix).length_le
    have hpos := List.length_pos_iff.mpr hw
    refine ⟨rfl, ?_⟩
    rw [List.length_drop]
    omega
  · cases h

/-! ## Values -/

/-- What is read with some fuel weighs no more than the text that it takes. -/
structure Weighs (fuel : Nat) : Prop where
  value : ∀ {t : Text} {v : Json} {rest : Text}, value? fuel t = some (v, rest) →
    v.weight + rest.length ≤ t.length
  elements : ∀ {t : Text} {items : List Json} {rest : Text},
    elements? fuel t = some (items, rest) → weightItems items + rest.length + 1 ≤ t.length
  members : ∀ {fields : List (Text × Json)} {t : Text} {fields' : List (Text × Json)}
    {rest : Text}, members? fuel fields t = some (fields', rest) →
      weightFields fields' + rest.length + 1 ≤ weightFields fields + t.length

namespace Weighs

variable {fuel : Nat} (ih : Weighs fuel)

include ih

variable {t rest : Text}

theorem value_succ {v : Json} (h : value? (fuel + 1) t = some (v, rest)) :
    v.weight + rest.length ≤ t.length := by
  have hspace := length_skipSpace_le t
  rw [value?] at h
  split at h
  · cases h
  · rename_i c after hskip
    rw [hskip, List.length_cons] at hspace
    have hspace' := length_skipSpace_le after
    have hword {w : Text} {u : Json} (hw : w ≠ []) (hu : u.weight = 1)
        (h : word? w u (c :: after) = some (v, rest)) : v.weight + rest.length ≤ t.length := by
      obtain ⟨hv, hle⟩ := length_word? hw h
      dsimp only at hv hle
      rw [hv, hu, Nat.add_comm]
      exact hle.trans hspace
    split at h
    · -- an object
      split at h
      · cases h
      · rename_i d after' hskip'
        rw [hskip', List.length_cons] at hspace'
        split at h
        · obtain ⟨rfl, rfl⟩ := Prod.mk.inj (Option.some.inj h)
          simp only [weight, weightFields]
          omega
        · obtain ⟨q, hq, heq⟩ := Option.map_eq_some_iff.mp h
          obtain ⟨rfl, rfl⟩ := Prod.mk.inj heq
          have hle := ih.members hq
          simp only [weight, weightFields, List.length_cons] at hle ⊢
          omega
    · split at h
      · -- an array
        split at h
        · cases h
        · rename_i d after' hskip'
          rw [hskip', List.length_cons] at hspace'
          split at h
          · obtain ⟨rfl, rfl⟩ := Prod.mk.inj (Option.some.inj h)
            simp only [weight, weightItems]
            omega
          · obtain ⟨q, hq, heq⟩ := Option.map_eq_some_iff.mp h
            obtain ⟨rfl, rfl⟩ := Prod.mk.inj heq
            have hle := ih.elements hq
            simp only [weight, List.length_cons] at hle ⊢
            omega
      · split at h
        · -- a string
          obtain ⟨q, hq, heq⟩ := Option.map_eq_some_iff.mp h
          obtain ⟨rfl, rfl⟩ := Prod.mk.inj heq
          have hle := length_stringBody? hq
          simp only [weight]
          omega
        · split at h
          · exact hword (by decide) rfl h
          · split at h
            · exact hword (by decide) rfl h
            · split at h
              · exact hword (by decide) rfl h
              · obtain ⟨q, hq, heq⟩ := Option.map_eq_some_iff.mp h
                obtain ⟨rfl, rfl⟩ := Prod.mk.inj heq
                have hle := length_numberLiteral? hq
                rw [List.length_cons] at hle
                simp only [weight]
                omega

theorem elements_succ {items : List Json} (h : elements? (fuel + 1) t = some (items, rest)) :
    weightItems items + rest.length + 1 ≤ t.length := by
  rw [elements?] at h
  split at h
  · cases h
  · rename_i v t' hvalue
    have hv := ih.value hvalue
    have hspace := length_skipSpace_le t'
    split at h
    · cases h
    · rename_i c after hskip
      rw [hskip, List.length_cons] at hspace
      split at h
      · obtain ⟨q, hq, heq⟩ := Option.map_eq_some_iff.mp h
        obtain ⟨rfl, rfl⟩ := Prod.mk.inj heq
        have hle := ih.elements hq
        simp only [weightItems]
        omega
      · split at h
        · obtain ⟨rfl, rfl⟩ := Prod.mk.inj (Option.some.inj h)
          simp only [weightItems]
          omega
        · cases h

theorem members_succ {fields : List (Text × Json)} {fields' : List (Text × Json)}
    (h : members? (fuel + 1) fields t = some (fields', rest)) :
    weightFields fields' + rest.length + 1 ≤ weightFields fields + t.length := by
  have hspace := length_skipSpace_le t
  rw [members?] at h
  split at h
  · cases h
  · rename_i quote after hskip
    rw [hskip, List.length_cons] at hspace
    split at h
    · split at h
      · cases h
      · rename_i key t₁ hkey
        have hkey := length_stringBody? hkey
        dsimp only at hkey
        have hspace₁ := length_skipSpace_le t₁
        split at h
        · cases h
        · rename_i c after₁ hskip₁
          rw [hskip₁, List.length_cons] at hspace₁
          split at h
          · split at h
            · cases h
            · rename_i v t₂ hvalue
              have hv := ih.value hvalue
              have hspace₂ := length_skipSpace_le t₂
              have hset := weightFields_setProperty_le fields key v
              split at h
              · cases h
              · rename_i d after₂ hskip₂
                rw [hskip₂, List.length_cons] at hspace₂
                split at h
                · have hle := ih.members h
                  omega
                · split at h
                  · obtain ⟨rfl, rfl⟩ := Prod.mk.inj (Option.some.inj h)
                    omega
                  · cases h
          · cases h
    · cases h

end Weighs

theorem weighs (fuel : Nat) : Weighs fuel := by
  induction fuel with
  | zero => exact ⟨nofun, nofun, nofun⟩
  | succ fuel ih => exact ⟨ih.value_succ, ih.elements_succ, ih.members_succ⟩

/-- **What a text is parsed to** is no heavier than the text is long. -/
theorem weight_le_of_parse {t : Text} {v : Json} (h : parse t = some v) : v.weight ≤ t.length := by
  unfold parse at h
  split at h
  · rename_i w rest hvalue
    split at h
    · obtain rfl := Option.some.inj h
      exact (Nat.le_add_right _ _).trans ((weighs _).value hvalue)
    · cases h
  · cases h

end Ecma.Json
