import LlmRelay.Ecma.JsonWeight

/-!
# The literals of a JSON text

Every string of a parsed value was written as a literal in its text. What the code units of a text
have in common, and its escapes keep, the strings of its value have too.

## Main definitions

* `Json.texts`: the strings of a value, keys apart;
* `Json.Literal t s`: somewhere in the text `t` stands a literal of the string `s`.

## Main results

* `Json.literal_of_parse`: the strings of a parsed value are literals of its text;
* `Json.Literal.length_lt`: a literal is longer than its string;
* `Json.Literal.units`: what the units of the text and all escaped ones satisfy.
-/

namespace Ecma.Json

mutual
/-- The strings of a value, without those that are keys. -/
def texts : Json → List Text
  | null => []
  | bool _ => []
  | num _ => []
  | str s => [s]
  | arr items => textsItems items
  | obj fields => textsFields fields

def textsItems : List Json → List Text
  | [] => []
  | v :: items => texts v ++ textsItems items

def textsFields : List (Text × Json) → List Text
  | [] => []
  | (_, v) :: fields => texts v ++ textsFields fields
end

variable {s key t : Text} {v : Json} {fields : List (Text × Json)}

theorem mem_textsItems {items : List Json} : s ∈ textsItems items ↔ ∃ v ∈ items, s ∈ v.texts := by
  induction items with
  | nil => simp [textsItems]
  | cons v items ih => simp [textsItems, ih]

theorem mem_textsFields_of_lookupEntry (h : lookupEntry key fields = some v) (hs : s ∈ v.texts) :
    s ∈ textsFields fields := by
  induction fields with
  | nil => cases h
  | cons e fields ih =>
    rw [lookupEntry] at h
    rw [textsFields, List.mem_append]
    split at h
    · cases h
      exact .inl hs
    · exact .inr (ih h)

/-! ## Properties -/

theorem mem_textsFields_setEntry (h : s ∈ textsFields (setEntry key v fields)) :
    s ∈ textsFields fields ∨ s ∈ v.texts := by
  induction fields with
  | nil =>
    rw [setEntry, textsFields, List.mem_append] at h
    exact h.symm.imp_left fun h => h
  | cons e fields ih =>
    rw [setEntry] at h
    split at h
    · rw [textsFields, List.mem_append] at h
      rw [textsFields, List.mem_append]
      rcases h with h | h
      · exact .inr h
      · exact .inl (.inr h)
    · rw [textsFields, List.mem_append] at h
      rw [textsFields, List.mem_append]
      rcases h with h | h
      · exact .inl (.inl h)
      · exact (ih h).imp_left .inr

theorem mem_textsFields_insertProperty (h : s ∈ textsFields (insertProperty key v fields)) :
    s ∈ textsFields fields ∨ s ∈ v.texts := by
  have hfront {rest : List (Text × Json)} (h : s ∈ textsFields ((key, v) :: rest)) :
      s ∈ textsFields rest ∨ s ∈ v.texts := by
    rw [textsFields, List.mem_append] at h
    exact h.symm
  induction fields with
  | nil => exact hfront h
  | cons e fields ih =>
    have hbehind (h : s ∈ textsFields (e :: insertProperty key v fields)) :
        s ∈ textsFields (e :: fields) ∨ s ∈ v.texts := by
      rw [textsFields, List.mem_append] at h
      rw [textsFields, List.mem_append]
      rcases h with h | h
      · exact .inl (.inl h)
      · exact (ih h).imp_left .inr
    rw [insertProperty] at h
    split at h
    · split at h
      · exact hfront h
      · exact hbehind h
    · exact hfront h
    · exact hbehind h

theorem mem_textsFields_setProperty (h : s ∈ textsFields (setProperty fields key v)) :
    s ∈ textsFields fields ∨ s ∈ v.texts := by
  rw [setProperty] at h
  split at h
  · exact mem_textsFields_setEntry h
  · exact mem_textsFields_insertProperty h

/-! ## What is left behind a token -/

theorem skipSpace_suffix (t : Text) : skipSpace t <:+ t :=
  List.dropWhile_suffix _

theorem stringBody?_suffix {p : Text × Text} (h : stringBody? t = some p) : p.2 <:+ t := by
  have hcons {c : CodeUnit} {t : Text} {p : Text × Text}
      (ih : ∀ {p}, stringBody? t = some p → p.2 <:+ t)
      (h : (stringBody? t).map (consUnit c) = some p) : p.2 <:+ t := by
    obtain ⟨q, hq, rfl⟩ := Option.map_eq_some_iff.mp h
    have hrest := ih hq
    exact hrest
  fun_induction stringBody? t generalizing p with
  | case2 rest =>
    obtain rfl := Option.some.inj h
    exact List.suffix_cons _ _
  | case4 _ _ _ _ rest _ _ _ ih =>
    exact (hcons ih h).trans (List.suffix_append [_, _, _, _, _, _] rest)
  | case7 _ rest _ _ _ _ ih => exact (hcons ih h).trans (List.suffix_append [_, _] rest)
  | case10 c rest _ _ _ ih => exact (hcons ih h).trans (List.suffix_cons c rest)
  | _ => cases h

theorem spanDigits_suffix (t : Text) : (spanDigits t).2 <:+ t :=
  List.dropWhile_suffix _

theorem integerPart?_suffix {p : List Nat × Text} (h : integerPart? t = some p) : p.2 <:+ t := by
  unfold integerPart? at h
  split at h
  · cases h
  · rename_i c rest
    split at h
    · obtain rfl := Option.some.inj h
      exact List.suffix_cons c rest
    · split at h
      · obtain rfl := Option.some.inj h
        exact spanDigits_suffix _
      · cases h

theorem fractionPart?_suffix {p : List Nat × Text} (h : fractionPart? t = some p) : p.2 <:+ t := by
  unfold fractionPart? at h
  split at h
  · obtain rfl := Option.some.inj h
    exact List.suffix_refl _
  · rename_i c rest
    split at h
    · split at h
      · cases h
      · obtain rfl := Option.some.inj h
        exact (spanDigits_suffix rest).trans (List.suffix_cons c rest)
    · obtain rfl := Option.some.inj h
      exact List.suffix_refl _

theorem exponentPart?_suffix {p : ℤ × Text} (h : exponentPart? t = some p) : p.2 <:+ t := by
  unfold exponentPart? at h
  split at h
  · obtain rfl := Option.some.inj h
    exact List.suffix_refl _
  · rename_i c rest
    split at h
    · have hsign : (if (rest.head? == some 0x2B || rest.head? == some 0x2D) = true then rest.tail
          else rest) <:+ rest := by
        split
        · exact List.tail_suffix rest
        · exact List.suffix_refl rest
      dsimp only at h
      generalize (if (rest.head? == some 0x2B || rest.head? == some 0x2D) = true then rest.tail
        else rest) = digits at h hsign
      split at h
      · cases h
      · obtain rfl := Option.some.inj h
        exact (spanDigits_suffix digits).trans (hsign.trans (List.suffix_cons c rest))
    · obtain rfl := Option.some.inj h
      exact List.suffix_refl _

theorem magnitude?_suffix {p : ℚ × Text} (h : magnitude? t = some p) : p.2 <:+ t := by
  unfold magnitude? at h
  split at h
  · cases h
  · rename_i int t₁ hint
    split at h
    · cases h
    · rename_i frac t₂ hfrac
      split at h
      · cases h
      · rename_i e t₃ hexp
        obtain rfl := Option.some.inj h
        exact (exponentPart?_suffix hexp).trans
          ((fractionPart?_suffix hfrac).trans (integerPart?_suffix hint))

theorem numberLiteral?_suffix {p : Number × Text} (h : numberLiteral? t = some p) : p.2 <:+ t := by
  unfold numberLiteral? at h
  split at h
  · cases h
  · rename_i c rest
    split at h
    · obtain ⟨q, hq, rfl⟩ := Option.map_eq_some_iff.mp h
      have hrest := magnitude?_suffix hq
      exact hrest.trans (List.suffix_cons c rest)
    · obtain ⟨q, hq, rfl⟩ := Option.map_eq_some_iff.mp h
      have hrest := magnitude?_suffix hq
      exact hrest

theorem word?_suffix {w : Text} {p : Json × Text} (h : word? w v t = some p) :
    p.1 = v ∧ p.2 <:+ t := by
  unfold word? at h
  split at h
  · obtain rfl := Option.some.inj h
    exact ⟨rfl, List.drop_suffix _ t⟩
  · cases h

/-! ## Literals -/

/-- Somewhere in the text stands a literal of the string. -/
def Literal (t s : Text) : Prop :=
  ∃ u rest, u <:+ t ∧ stringBody? u = some (s, rest)

theorem Literal.mono {t' : Text} (h : Literal t s) (ht : t <:+ t') : Literal t' s := by
  obtain ⟨u, rest, hu, hs⟩ := h
  exact ⟨u, rest, hu.trans ht, hs⟩

/-- What is read with some fuel has its strings from the text, and leaves the end of it. -/
structure Reads (fuel : Nat) : Prop where
  value : ∀ {t : Text} {v : Json} {rest : Text}, value? fuel t = some (v, rest) →
    rest <:+ t ∧ ∀ s ∈ v.texts, Literal t s
  elements : ∀ {t : Text} {items : List Json} {rest : Text},
    elements? fuel t = some (items, rest) → rest <:+ t ∧ ∀ s ∈ textsItems items, Literal t s
  members : ∀ {fields : List (Text × Json)} {t : Text} {fields' : List (Text × Json)}
    {rest : Text}, members? fuel fields t = some (fields', rest) →
      rest <:+ t ∧ ∀ s ∈ textsFields fields', s ∈ textsFields fields ∨ Literal t s

namespace Reads

variable {fuel : Nat} (ih : Reads fuel)

include ih

variable {t rest : Text}

theorem value_succ (h : value? (fuel + 1) t = some (v, rest)) :
    rest <:+ t ∧ ∀ s ∈ v.texts, Literal t s := by
  have hspace := skipSpace_suffix t
  rw [value?] at h
  split at h
  · cases h
  · rename_i c after hskip
    rw [hskip] at hspace
    have hafter : after <:+ t := (List.suffix_cons c after).trans hspace
    have hspace' := (skipSpace_suffix after).trans hafter
    have hword {w : Text} {u : Json} (hu : u.texts = [])
        (h : word? w u (c :: after) = some (v, rest)) :
        rest <:+ t ∧ ∀ s ∈ v.texts, Literal t s := by
      obtain ⟨hv, hrest⟩ := word?_suffix h
      dsimp only at hv hrest
      rw [hv, hu]
      exact ⟨hrest.trans hspace, List.forall_mem_nil _⟩
    split at h
    · -- an object
      split at h
      · cases h
      · rename_i d after' hskip'
        rw [hskip'] at hspace'
        split at h
        · obtain ⟨rfl, rfl⟩ := Prod.mk.inj (Option.some.inj h)
          exact ⟨(List.suffix_cons d _).trans hspace', List.forall_mem_nil _⟩
        · obtain ⟨q, hq, heq⟩ := Option.map_eq_some_iff.mp h
          obtain ⟨rfl, rfl⟩ := Prod.mk.inj heq
          obtain ⟨hrest, htexts⟩ := ih.members hq
          refine ⟨hrest.trans hspace', fun s hs => ?_⟩
          rcases htexts s hs with hnone | hliteral
          · cases hnone
          · exact hliteral.mono hspace'
    · split at h
      · -- an array
        split at h
        · cases h
        · rename_i d after' hskip'
          rw [hskip'] at hspace'
          split at h
          · obtain ⟨rfl, rfl⟩ := Prod.mk.inj (Option.some.inj h)
            exact ⟨(List.suffix_cons d _).trans hspace', List.forall_mem_nil _⟩
          · obtain ⟨q, hq, heq⟩ := Option.map_eq_some_iff.mp h
            obtain ⟨rfl, rfl⟩ := Prod.mk.inj heq
            obtain ⟨hrest, htexts⟩ := ih.elements hq
            exact ⟨hrest.trans hspace', fun s hs => (htexts s hs).mono hspace'⟩
      · split at h
        · -- a string
          obtain ⟨q, hq, heq⟩ := Option.map_eq_some_iff.mp h
          obtain ⟨rfl, rfl⟩ := Prod.mk.inj heq
          refine ⟨(stringBody?_suffix hq).trans hafter, fun s hs => ?_⟩
          rw [texts, List.mem_singleton] at hs
          exact ⟨after, q.2, hafter, by rw [hq, hs]⟩
        · split at h
          · exact hword rfl h
          · split at h
            · exact hword rfl h
            · split at h
              · exact hword rfl h
              · obtain ⟨q, hq, heq⟩ := Option.map_eq_some_iff.mp h
                obtain ⟨rfl, rfl⟩ := Prod.mk.inj heq
                exact ⟨(numberLiteral?_suffix hq).trans hspace, List.forall_mem_nil _⟩

theorem elements_succ {items : List Json} (h : elements? (fuel + 1) t = some (items, rest)) :
    rest <:+ t ∧ ∀ s ∈ textsItems items, Literal t s := by
  rw [elements?] at h
  split at h
  · cases h
  · rename_i v t' hvalue
    obtain ⟨ht', hv⟩ := ih.value hvalue
    have hspace := (skipSpace_suffix t').trans ht'
    split at h
    · cases h
    · rename_i c after hskip
      rw [hskip] at hspace
      have hafter : after <:+ t := (List.suffix_cons c after).trans hspace
      split at h
      · obtain ⟨q, hq, heq⟩ := Option.map_eq_some_iff.mp h
        obtain ⟨rfl, rfl⟩ := Prod.mk.inj heq
        obtain ⟨hrest, htexts⟩ := ih.elements hq
        refine ⟨hrest.trans hafter, fun s hs => ?_⟩
        rw [textsItems, List.mem_append] at hs
        rcases hs with hs | hs
        · exact hv s hs
        · exact (htexts s hs).mono hafter
      · split at h
        · obtain ⟨rfl, rfl⟩ := Prod.mk.inj (Option.some.inj h)
          refine ⟨hafter, fun s hs => ?_⟩
          rw [textsItems, textsItems, List.append_nil] at hs
          exact hv s hs
        · cases h

theorem members_succ {fields' : List (Text × Json)}
    (h : members? (fuel + 1) fields t = some (fields', rest)) :
    rest <:+ t ∧ ∀ s ∈ textsFields fields', s ∈ textsFields fields ∨ Literal t s := by
  have hspace := skipSpace_suffix t
  rw [members?] at h
  split at h
  · cases h
  · rename_i quote after hskip
    rw [hskip] at hspace
    have hafter : after <:+ t := (List.suffix_cons quote after).trans hspace
    split at h
    · split at h
      · cases h
      · rename_i key t₁ hkey
        have hkey := (stringBody?_suffix hkey).trans hafter
        have hspace₁ := (skipSpace_suffix t₁).trans hkey
        split at h
        · cases h
        · rename_i c after₁ hskip₁
          rw [hskip₁] at hspace₁
          have hafter₁ : after₁ <:+ t := (List.suffix_cons c after₁).trans hspace₁
          split at h
          · split at h
            · cases h
            · rename_i v t₂ hvalue
              obtain ⟨ht₂, hv⟩ := ih.value hvalue
              have hspace₂ := ((skipSpace_suffix t₂).trans ht₂).trans hafter₁
              -- the strings so far, and those of the value
              have hset (s : Text) (hs : s ∈ textsFields (setProperty fields key v)) :
                  s ∈ textsFields fields ∨ Literal t s :=
                (mem_textsFields_setProperty hs).imp_right fun hs => (hv s hs).mono hafter₁
              split at h
              · cases h
              · rename_i d after₂ hskip₂
                rw [hskip₂] at hspace₂
                have hafter₂ : after₂ <:+ t := (List.suffix_cons d after₂).trans hspace₂
                split at h
                · obtain ⟨hrest, htexts⟩ := ih.members h
                  refine ⟨hrest.trans hafter₂, fun s hs => ?_⟩
                  rcases htexts s hs with hs | hliteral
                  · exact hset s hs
                  · exact .inr (hliteral.mono hafter₂)
                · split at h
                  · obtain ⟨rfl, rfl⟩ := Prod.mk.inj (Option.some.inj h)
                    exact ⟨hafter₂, hset⟩
                  · cases h
          · cases h
    · cases h

end Reads

theorem reads (fuel : Nat) : Reads fuel := by
  induction fuel with
  | zero => exact ⟨nofun, nofun, nofun⟩
  | succ fuel ih => exact ⟨ih.value_succ, ih.elements_succ, ih.members_succ⟩

variable {t s : Text}

/-- **The strings of a parsed value** were written as literals. -/
theorem literal_of_parse (h : parse t = some v) (hs : s ∈ v.texts) : Literal t s := by
  unfold parse at h
  split at h
  · rename_i w rest hvalue
    split at h
    · obtain rfl := Option.some.inj h
      exact ((reads _).value hvalue).2 s hs
    · cases h
  · cases h

/-- A literal has quotes around what its string takes. -/
theorem Literal.length_lt (h : Literal t s) : s.length < t.length := by
  obtain ⟨u, rest, hu, hs⟩ := h
  have hle := length_stringBody? hs
  have htail := hu.length_le
  dsimp only at hle
  omega

theorem units_of_stringBody? {P : CodeUnit → Prop}
    (hescape : ∀ {e c}, P e → escape? e = some c → P c)
    (hhex : ∀ {a b c d u}, P a → P b → P c → P d → hex4? a b c d = some u → P u) {p : Text × Text}
    (ht : ∀ c ∈ t, P c) (h : stringBody? t = some p) : ∀ c ∈ p.1, P c := by
  have hcons {c : CodeUnit} {t : Text} {p : Text × Text} (hc : P c)
      (ih : ∀ {p}, stringBody? t = some p → ∀ c ∈ p.1, P c)
      (h : (stringBody? t).map (consUnit c) = some p) : ∀ c ∈ p.1, P c := by
    obtain ⟨q, hq, rfl⟩ := Option.map_eq_some_iff.mp h
    intro d hd
    rcases List.mem_cons.mp hd with rfl | hd
    · exact hc
    · exact ih hq d hd
  fun_induction stringBody? t generalizing p with
  | case2 rest =>
    obtain rfl := Option.some.inj h
    exact List.forall_mem_nil _
  | case4 h₁ h₂ h₃ h₄ rest u hu _ ih =>
    refine hcons ?_ (ih fun c hc => ht c (by simp [hc])) h
    exact hhex (ht h₁ (by simp)) (ht h₂ (by simp)) (ht h₃ (by simp)) (ht h₄ (by simp)) hu
  | case7 e rest hne u hu hnot ih =>
    exact hcons (hescape (ht e (by simp)) hu) (ih fun c hc => ht c (by simp [hc])) h
  | case10 c rest _ _ _ ih =>
    exact hcons (ht c List.mem_cons_self) (ih fun d hd => ht d (List.mem_cons_of_mem c hd)) h
  | _ => cases h

theorem Literal.units {P : CodeUnit → Prop} (hescape : ∀ {e c}, P e → escape? e = some c → P c)
    (hhex : ∀ {a b c d u}, P a → P b → P c → P d → hex4? a b c d = some u → P u) (h : Literal t s)
    (ht : ∀ c ∈ t, P c) : ∀ c ∈ s, P c := by
  obtain ⟨u, rest, hu, hs⟩ := h
  exact units_of_stringBody? hescape hhex (fun c hc => ht c (hu.subset hc)) hs

end Ecma.Json
