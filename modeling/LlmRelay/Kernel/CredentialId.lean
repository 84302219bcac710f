import LlmRelay.Breaker.State

/-!
# Credential ids

A credential id is `provider#label` (`credential-id.ts`). The cell key of a
credential and model joins them with a slash; the label has none, so the key
determines both.

## Main definitions

* `makeCredentialId`, `parseCredentialId`: an id and its parts;
* `IsCredentialId`: an id that parses.

## Main results

* `parseCredentialId_makeCredentialId`: a made id parses to its parts;
* `cellKey_injective`: the cell key of a credential id and a model is injective.
-/

namespace LlmRelay

/-- A character of `[A-Za-z0-9_.-]`. -/
def isLabelChar (c : Char) : Bool :=
  ('A' ≤ c && c ≤ 'Z') || ('a' ≤ c && c ≤ 'z') || ('0' ≤ c && c ≤ '9') || c = '_' || c = '.' || c = '-'

/-- `CREDENTIAL_LABEL_PATTERN`. -/
def isCredentialLabel (label : List Char) : Bool :=
  decide (1 ≤ label.length) && decide (label.length ≤ 32) && label.all isLabelChar

/-- The label of the credential slot of a provider that states none. -/
def DEFAULT_CREDENTIAL_LABEL : String := "default"

/-- The id of a credential slot, absent where the constructor throws. -/
def makeCredentialId (provider label : String) : Option String :=
  if provider = "" || provider.toList.contains '#' then none
  else if !isCredentialLabel label.toList then none
  else some (provider ++ "#" ++ label)

/-- The parts of a credential id. -/
structure CredentialParts where
  provider : String
  label : String
  deriving DecidableEq

/-- The parts of an id, around its only `#`. -/
def parseCredentialId (value : String) : Option CredentialParts :=
  let provider := value.toList.takeWhile (· ≠ '#')
  match value.toList.dropWhile (· ≠ '#') with
  | [] => none
  | _ :: label =>
    if provider = [] || label.contains '#' then none
    else if isCredentialLabel label then some ⟨String.ofList provider, String.ofList label⟩
    else none

/-- An id of the form `provider#label`. -/
def IsCredentialId (value : String) : Prop :=
  (parseCredentialId value).isSome

/-! ## Separators -/

section Separators

variable {α : Type*} [DecidableEq α] {sep : α}

theorem takeWhile_append_sep {a : List α} (h : sep ∉ a) (b : List α) :
    (a ++ sep :: b).takeWhile (· ≠ sep) = a := by
  rw [List.takeWhile_append_of_pos (fun x hx => decide_eq_true (ne_of_mem_of_not_mem hx h))]
  simp

theorem dropWhile_append_sep {a : List α} (h : sep ∉ a) (b : List α) :
    (a ++ sep :: b).dropWhile (· ≠ sep) = sep :: b := by
  rw [List.dropWhile_append_of_pos (fun x hx => decide_eq_true (ne_of_mem_of_not_mem hx h))]
  simp

theorem append_sep_inj {a a' b b' : List α} (ha : sep ∉ a) (ha' : sep ∉ a')
    (h : a ++ sep :: b = a' ++ sep :: b') : a = a' ∧ b = b' := by
  have hfirst : a = a' := by
    rw [← takeWhile_append_sep ha b, h, takeWhile_append_sep ha' b']
  subst hfirst
  exact ⟨rfl, (List.cons.inj (List.append_cancel_left h)).2⟩

omit [DecidableEq α] in
/-- Texts divided by a separator are equal exactly when their parts are, or one first part
goes on where the other ends. -/
theorem append_sep_eq_iff {a a' b b' : List α} :
    a ++ sep :: b = a' ++ sep :: b' ↔
      (a = a' ∧ b = b') ∨ (∃ mid, a' = a ++ sep :: mid ∧ b = mid ++ sep :: b') ∨
        ∃ mid, a = a' ++ sep :: mid ∧ b' = mid ++ sep :: b := by
  rw [List.append_eq_append_iff]
  constructor
  · rintro (⟨mid, rfl, h⟩ | ⟨mid, rfl, h⟩)
    · cases mid with
      | nil => exact .inl ⟨by simp, (List.cons.inj h).2⟩
      | cons c mid =>
        obtain ⟨rfl, hb⟩ := List.cons.inj h
        exact .inr (.inl ⟨mid, rfl, hb⟩)
    · cases mid with
      | nil => exact .inl ⟨by simp, (List.cons.inj h).2.symm⟩
      | cons c mid =>
        obtain ⟨rfl, hb⟩ := List.cons.inj h
        exact .inr (.inr ⟨mid, rfl, hb⟩)
  · rintro (⟨rfl, rfl⟩ | ⟨mid, rfl, rfl⟩ | ⟨mid, rfl, rfl⟩)
    · exact .inl ⟨[], by simp⟩
    · exact .inl ⟨sep :: mid, by simp⟩
    · exact .inr ⟨sep :: mid, by simp⟩

end Separators

theorem parseCredentialId_spec {value : String} {parts : CredentialParts}
    (h : parseCredentialId value = some parts) :
    value.toList = parts.provider.toList ++ '#' :: parts.label.toList ∧
      '#' ∉ parts.provider.toList ∧ isCredentialLabel parts.label.toList = true := by
  unfold parseCredentialId at h
  have hsplit := List.takeWhile_append_dropWhile (p := (· ≠ '#')) (l := value.toList)
  have hhead := List.head?_dropWhile_not (· ≠ '#') value.toList
  have hall := List.all_takeWhile (p := (· ≠ '#')) (l := value.toList)
  generalize value.toList.takeWhile (· ≠ '#') = provider at *
  generalize value.toList.dropWhile (· ≠ '#') = rest at *
  cases rest with
  | nil => cases h
  | cons c label =>
    have hc : c = '#' := by simpa using hhead
    dsimp only at h
    split at h
    · cases h
    · split at h
      · rename_i hlabel
        cases h
        simp only [String.toList_ofList]
        refine ⟨?_, ?_, hlabel⟩
        · rw [← hsplit, hc]
        · intro hmem
          simpa using List.all_eq_true.mp hall _ hmem
      · cases h

theorem not_mem_label {label : List Char} (h : isCredentialLabel label = true) {c : Char}
    (hc : isLabelChar c = false) : c ∉ label := by
  intro hmem
  unfold isCredentialLabel at h
  simp only [Bool.and_eq_true] at h
  exact absurd (List.all_eq_true.mp h.2 _ hmem) (Bool.eq_false_iff.mp hc)

theorem toList_cellKey (credentialId : String) (model : Option String) :
    (cellKey credentialId model).toList
      = credentialId.toList ++ (match model with
        | none => []
        | some model => '/' :: model.toList) := by
  cases model with
  | none => simp [cellKey]
  | some model => simp [cellKey]

/-- **The cell key is injective**: the first `#` ends the provider, the first slash
behind it ends the label. -/
theorem cellKey_injective {c c' : String} {m m' : Option String} (hc : IsCredentialId c)
    (hc' : IsCredentialId c') (h : cellKey c m = cellKey c' m') : c = c' ∧ m = m' := by
  obtain ⟨parts, hparts⟩ := Option.isSome_iff_exists.mp hc
  obtain ⟨parts', hparts'⟩ := Option.isSome_iff_exists.mp hc'
  obtain ⟨hlist, hprovider, hlabel⟩ := parseCredentialId_spec hparts
  obtain ⟨hlist', hprovider', hlabel'⟩ := parseCredentialId_spec hparts'
  have hslash : '/' ∉ parts.label.toList := not_mem_label hlabel (by decide)
  have hslash' : '/' ∉ parts'.label.toList := not_mem_label hlabel' (by decide)
  have hkey := congrArg String.toList h
  rw [toList_cellKey, toList_cellKey, hlist, hlist', List.append_assoc, List.append_assoc,
    List.cons_append, List.cons_append] at hkey
  obtain ⟨hp, hrest⟩ := append_sep_inj hprovider hprovider' hkey
  have hfinish : parts.label.toList = parts'.label.toList → c = c' := by
    intro hl
    rw [← String.toList_inj, hlist, hlist', hp, hl]
  cases m with
  | none =>
    cases m' with
    | none => exact ⟨hfinish (by simpa using hrest), rfl⟩
    | some model' =>
      rw [List.append_nil] at hrest
      exact absurd (by rw [hrest]; simp) hslash
  | some model =>
    cases m' with
    | none =>
      rw [List.append_nil] at hrest
      exact absurd (by rw [← hrest]; simp) hslash'
    | some model' =>
      obtain ⟨hl, hm⟩ := append_sep_inj hslash hslash' hrest
      exact ⟨hfinish hl, by rw [String.toList_inj.mp hm]⟩

/-- **A made id parses to its parts.** -/
theorem parseCredentialId_makeCredentialId {provider label id : String}
    (h : makeCredentialId provider label = some id) :
    parseCredentialId id = some ⟨provider, label⟩ := by
  unfold makeCredentialId at h
  split at h
  · cases h
  · rename_i hprovider
    split at h
    · cases h
    · rename_i hlabel
      have hid := (Option.some.inj h).symm
      simp only [Bool.or_eq_true, decide_eq_true_eq, List.contains_iff_mem, not_or] at hprovider
      simp only [Bool.not_eq_true', Bool.not_eq_false] at hlabel
      have hsep : '#' ∉ label.toList := not_mem_label hlabel (by decide)
      have hlist : id.toList = provider.toList ++ '#' :: label.toList := by
        rw [hid, String.toList_append, String.toList_append, List.append_assoc]
        rfl
      have htake := takeWhile_append_sep hprovider.2 label.toList
      have hdrop := dropWhile_append_sep hprovider.2 label.toList
      have hne : provider.toList ≠ [] := fun hnil => hprovider.1 (by
        rw [← String.toList_inj, hnil]
        rfl)
      unfold parseCredentialId
      rw [hlist]
      simp only [htake, hdrop, hlabel, hsep, hne, decide_false, List.contains_eq_mem,
        Bool.or_self, Bool.false_eq_true, if_false, if_true, String.ofList_toList]

theorem parseCredentialId_groq : parseCredentialId "groq#work" = some ⟨"groq", "work"⟩ :=
  parseCredentialId_makeCredentialId (by decide +kernel)

end LlmRelay
