import LlmRelay.Candidates.CoolingOrder
import LlmRelay.Facts.Runs

/-!
# What a clear removes

A success of a cell retracts the conditions that cover it (`clearFacts`), and an operator
retracts the active facts whose whole scope fits inside a selection
(`clearMatchingActiveFacts`). The first is compared with the query it must silence, the second
with the cells a fact covers.

## Main definitions

* `isCostBlocked`: does a fact take the target off the free tier?
* `TargetCell`, `TargetCell.Covered`: the target of a query, and the facts that answer it;
* `CooldownFactClearSelector.Contains`: the cells of a selection.

## Main results

* `success_clear_exact`: after a success nothing cools or blocks the cell, and every measurement
  and every fact of other cells stays;
* `matchesClearSelector_iff`: a scope matches a selection exactly when every cell it covers lies
  inside;
* `operator_clear_contained`: an operator's clear removes an active fact exactly then, and no
  cell outside the selection is answered differently.
-/

namespace LlmRelay.Facts

open Ecma Transition

/-! ## A success -/

/-- Does the fact keep a target off the free tier? -/
def COST_BLOCKING : FactKind → Bool
  | .notServable | .subscriptionRequired => true
  | _ => false

/-- Does a fact about the target block its cost class? -/
def isCostBlocked (facts : List StoredFact) (provider : Text) (credentialId model : Option Text)
    (now : Number) (costClass : Option CostClass) : Bool :=
  (factsFor facts provider credentialId model now costClass).any fun fact =>
    COST_BLOCKING fact.kind

theorem CONDITIONS_eq (kind : FactKind) : CONDITIONS kind = (COOLING kind || COST_BLOCKING kind) := by
  cases kind <;> rfl

variable {facts : List StoredFact} {credentialId : Option Text} {costClass : Option CostClass}

variable {now : Number}

theorem mem_factsFor {provider : Text} {model : Option Text} {hit : ReportedFact}
    (h : hit ∈ factsFor facts provider credentialId model now costClass) :
    ∃ fact ∈ facts, fact.kind = hit.kind ∧ covers fact provider credentialId model = true
      ∧ costFilterAdmits fact costClass = true := by
  obtain ⟨fact, hfact, rfl⟩ := List.mem_map.mp (List.mem_mergeSort.mp h)
  rw [List.mem_filter, Bool.and_eq_true, Bool.and_eq_true] at hfact
  exact ⟨fact, hfact.1, rfl, hfact.2.1.2, hfact.2.2⟩

theorem cooldownUntil_eq_none {provider : Text} {model : Option Text}
    (h : ∀ hit ∈ factsFor facts provider credentialId model now costClass,
      COOLING hit.kind = false) :
    cooldownUntil facts provider credentialId model now costClass = none := by
  have hends : coolingFactEnds facts provider credentialId model now costClass = [] := by
    rw [coolingFactEnds, List.map_eq_nil_iff, List.filter_eq_nil_iff]
    intro hit hhit
    rw [h hit hhit]
    exact Bool.false_ne_true
  have hspec := cooldownUntil_spec facts provider credentialId model now costClass
  rw [hends] at hspec
  split at hspec
  · assumption
  · exact absurd hspec.1 List.not_mem_nil

section Success

variable (store : FactStore) (provider : Text) (credentialId model : Option Text)
  (costClass : Option CostClass)

theorem not_condition_of_cleared {hit : ReportedFact}
    (h : hit ∈ factsFor (clearFacts store provider credentialId model costClass).2.rows.values
      provider credentialId model now costClass) : CONDITIONS hit.kind = false := by
  obtain ⟨fact, hfact, hkind, hcovers, hadmits⟩ := mem_factsFor h
  rw [clearFacts, Table.values_removeWhere, List.mem_filter] at hfact
  -- the fact covers the cell and is admitted, so it stayed because it is no condition
  have hkept : disproved provider credentialId model costClass fact = false :=
    (Bool.not_eq_true' _).mp hfact.2
  rw [disproved, hcovers, hadmits, Bool.and_true, Bool.and_true, hkind] at hkept
  exact hkept

theorem mem_clearFacts_iff {fact : StoredFact} :
    fact ∈ (clearFacts store provider credentialId model costClass).2.rows.values
      ↔ fact ∈ store.rows.values
        ∧ disproved provider credentialId model costClass fact = false := by
  rw [clearFacts, Table.values_removeWhere, List.mem_filter, Bool.not_eq_true']

end Success

/-- **Clearing after a success is exact.** Whatever the store, no fact cools or blocks the cell
after the clear. A fact is removed exactly when it is a condition that covers the cell and is
admitted for the cost class; the others keep their keys and their order. The kinds that are
returned are those of the removed facts about a credential. -/
theorem success_clear_exact (store : FactStore) (provider : Text)
    (credentialId model : Option Text) (costClass : Option CostClass) :
    let cleared := clearFacts store provider credentialId model costClass
    (∀ now, cooldownUntil cleared.2.rows.values provider credentialId model now costClass = none
      ∧ isCostBlocked cleared.2.rows.values provider credentialId model now costClass = false)
    ∧ (∀ spared : StoredFact → Bool,
        (∀ fact, spared fact = true →
          CONDITIONS fact.kind = false ∨ covers fact provider credentialId model = false
            ∨ costFilterAdmits fact costClass = false) →
        cleared.2.rows.entries.filter (fun row => spared row.2)
          = store.rows.entries.filter (fun row => spared row.2))
    ∧ (∀ fact ∈ store.rows.values, fact ∉ cleared.2.rows.values ↔
        CONDITIONS fact.kind = true ∧ covers fact provider credentialId model = true
          ∧ costFilterAdmits fact costClass = true)
    ∧ cleared.1 = ((store.rows.values.filter fun fact => fact ∉ cleared.2.rows.values).filter
        fun fact => fact.scope.kind = .credential).map StoredFact.kind := by
  intro cleared
  have hremoved : ∀ fact ∈ store.rows.values, fact ∉ cleared.2.rows.values ↔
      disproved provider credentialId model costClass fact = true := by
    intro fact hfact
    rw [mem_clearFacts_iff store provider credentialId model costClass, and_iff_right hfact,
      Bool.not_eq_false]
  refine ⟨fun now => ⟨?_, ?_⟩, ?_, fun fact hfact => ?_, ?_⟩
  · refine cooldownUntil_eq_none fun hit hhit => ?_
    have hcondition := not_condition_of_cleared store provider credentialId model costClass hhit
    rw [CONDITIONS_eq] at hcondition
    exact (Bool.or_eq_false_iff.mp hcondition).1
  · rw [isCostBlocked, List.any_eq_false]
    intro hit hhit
    have hcondition := not_condition_of_cleared store provider credentialId model costClass hhit
    rw [CONDITIONS_eq] at hcondition
    rw [(Bool.or_eq_false_iff.mp hcondition).2]
    exact Bool.false_ne_true
  · intro spared hspared
    show ((store.rows.entries.filter fun row =>
      !disproved provider credentialId model costClass row.2).filter fun row => spared row.2) = _
    rw [List.filter_filter]
    apply List.filter_congr
    intro row _
    cases hrow : spared row.2 with
    | false => rfl
    | true =>
      have hkept : disproved provider credentialId model costClass row.2 = false := by
        unfold disproved
        rcases hspared row.2 hrow with h | h | h
        · rw [h, Bool.false_and, Bool.false_and]
        · rw [h, Bool.and_false, Bool.false_and]
        · rw [h, Bool.and_false]
      rw [hkept]
      rfl
  · rw [hremoved fact hfact, disproved, Bool.and_eq_true, Bool.and_eq_true, and_assoc]
  · have hfilter : (store.rows.values.filter fun fact => fact ∉ cleared.2.rows.values)
        = store.rows.values.filter (disproved provider credentialId model costClass) := by
      apply List.filter_congr
      intro fact hfact
      cases hd : disproved provider credentialId model costClass fact with
      | true => exact decide_eq_true ((hremoved fact hfact).mpr hd)
      | false =>
        refine decide_eq_false fun hgone => ?_
        rw [(hremoved fact hfact).mp hgone] at hd
        cases hd
    rw [hfilter]
    rfl

/-! ## An operator's clear -/

/-- The target of a query: a provider, and a credential and a model where the query names them. -/
structure TargetCell where
  provider : Text
  credentialId : Option Text
  model : Option Text
  deriving DecidableEq

/-- The fact covers the cell. -/
def TargetCell.Covered (cell : TargetCell) (fact : StoredFact) : Prop :=
  covers fact cell.provider cell.credentialId cell.model = true

/-- The cell lies inside the selection: it is of the provider, and of the model and the
credential where the selection names one. -/
def CooldownFactClearSelector.Contains (selector : CooldownFactClearSelector) (cell : TargetCell) :
    Prop :=
  cell.provider = selector.provider
    ∧ (∀ model, selector.model = some model → cell.model = some model)
    ∧ (∀ id, selector.credentialId = some id → cell.credentialId = some id)

theorem all_eq_iff {α : Type} [DecidableEq α] {o : Option α} {a : α} :
    o.all (fun b => decide (a = b)) = true ↔ ∀ b, o = some b → a = b := by
  rw [Option.all_eq_true]
  simp only [decide_eq_true_eq]

theorem exists_ne_provider (provider : Text) : ∃ other : Text, other ≠ provider := by
  refine ⟨slash :: provider, fun h => ?_⟩
  have hlength := congrArg List.length h
  rw [List.length_cons] at hlength
  omega

/-- **A scope matches a selection exactly when every cell it covers lies inside.** -/
theorem matchesClearSelector_iff {fact : StoredFact} (hvalid : fact.scope.IsValid)
    (selector : CooldownFactClearSelector) :
    matchesClearSelector fact.scope selector = true ↔
      ∀ cell : TargetCell, cell.Covered fact → selector.Contains cell := by
  unfold TargetCell.Covered CooldownFactClearSelector.Contains
  cases hscope : fact.scope with
  | attempt p id m =>
    simp only [matchesClearSelector, covers, hscope, Bool.and_eq_true, decide_eq_true_eq,
      all_eq_iff]
    constructor
    · rintro ⟨⟨hp, hm⟩, hid⟩ ⟨p', id', m'⟩ ⟨⟨rfl, rfl⟩, rfl⟩
      exact ⟨hp, fun model h => congrArg some (hm model h), fun c h => congrArg some (hid c h)⟩
    · intro h
      obtain ⟨hp, hm, hid⟩ := h ⟨p, some id, some m⟩ ⟨⟨rfl, rfl⟩, rfl⟩
      exact ⟨⟨hp, fun model h => Option.some.inj (hm model h)⟩,
        fun c h => Option.some.inj (hid c h)⟩
  | group p id members =>
    rw [hscope] at hvalid
    obtain ⟨-, ⟨hne, -⟩, -⟩ := hvalid
    simp only [matchesClearSelector, covers, hscope, Bool.and_eq_true, decide_eq_true_eq,
      Option.any_eq_true, List.contains_iff_mem, Bool.or_eq_true, Option.isSome_iff_exists, Option.all_eq_true, List.all_eq_true]
    constructor
    · rintro ⟨⟨hp, hmembers⟩, hid⟩ ⟨p', id', m'⟩ ⟨⟨⟨m, rfl, hm⟩, rfl⟩, hcredential⟩
      refine ⟨hp, fun model h => congrArg some (hmembers model h m hm), fun c h => ?_⟩
      rcases hcredential with hnone | ⟨-, hsame⟩
      · -- a group of the whole provider matches no selection of one credential
        rw [hid c h] at hnone
        cases hnone
      · rw [← hsame]
        exact hid c h
    · intro h
      obtain ⟨m, hm⟩ := List.exists_mem_of_ne_nil members hne
      have hcell : ∀ m ∈ members, selector.Contains ⟨p, id, some m⟩ := fun m hm => by
        refine h ⟨p, id, some m⟩ ⟨⟨⟨m, rfl, hm⟩, rfl⟩, ?_⟩
        cases id with
        | none => exact .inl rfl
        | some c => exact .inr ⟨⟨c, rfl⟩, rfl⟩
      exact ⟨⟨(hcell m hm).1, fun model hmodel m hm => Option.some.inj ((hcell m hm).2.1 model hmodel)⟩,
        (hcell m hm).2.2⟩
  | deployment p m =>
    simp only [matchesClearSelector, covers, hscope, Bool.and_eq_true, decide_eq_true_eq,
      all_eq_iff, Option.isNone_iff_eq_none]
    constructor
    · rintro ⟨⟨hp, hnone⟩, hm⟩ ⟨p', id', m'⟩ ⟨rfl, rfl⟩
      refine ⟨hp, fun model h => congrArg some (hm model h), fun c h => ?_⟩
      rw [hnone] at h
      cases h
    · intro h
      -- a deployment covers the cell that names no credential
      obtain ⟨hp, hm, hid⟩ := h ⟨p, none, some m⟩ ⟨rfl, rfl⟩
      refine ⟨⟨hp, ?_⟩, fun model h => Option.some.inj (hm model h)⟩
      cases hc : selector.credentialId with
      | none => rfl
      | some c => cases hid c hc
  | credential p id =>
    simp only [matchesClearSelector, covers, hscope, Bool.and_eq_true, decide_eq_true_eq,
      all_eq_iff, Option.isNone_iff_eq_none]
    constructor
    · rintro ⟨⟨hp, hnone⟩, hid⟩ ⟨p', id', m'⟩ ⟨rfl, rfl⟩
      refine ⟨hp, fun model h => ?_, fun c h => congrArg some (hid c h)⟩
      rw [hnone] at h
      cases h
    · intro h
      -- a credential covers the cell that names no model
      obtain ⟨hp, hm, hid⟩ := h ⟨p, some id, none⟩ ⟨rfl, rfl⟩
      refine ⟨⟨hp, ?_⟩, fun c h => Option.some.inj (hid c h)⟩
      cases hc : selector.model with
      | none => rfl
      | some model => cases hm model hc
  | provider p =>
    simp only [matchesClearSelector, covers, hscope, Bool.and_eq_true, decide_eq_true_eq,
      Option.isNone_iff_eq_none]
    constructor
    · rintro ⟨⟨hp, hmodel⟩, hid⟩ ⟨p', id', m'⟩ rfl
      refine ⟨hp, fun model h => ?_, fun c h => ?_⟩
      · rw [hmodel] at h
        cases h
      · rw [hid] at h
        cases h
    · intro h
      obtain ⟨hp, hm, hid⟩ := h ⟨p, none, none⟩ rfl
      refine ⟨⟨hp, ?_⟩, ?_⟩
      · cases hc : selector.model with
        | none => rfl
        | some model => cases hm model hc
      · cases hc : selector.credentialId with
        | none => rfl
        | some c => cases hid c hc
  | model m =>
    simp only [covers, hscope, decide_eq_true_eq]
    constructor
    · exact nofun
    · intro h
      -- a model is covered under every provider
      obtain ⟨other, hother⟩ := exists_ne_provider selector.provider
      exact absurd (h ⟨other, none, some m⟩ rfl).1 hother

theorem mem_clear_iff (mode : ClearMode) (store : FactStore) (selector : CooldownFactClearSelector)
    (now : Number) {fact : StoredFact} :
    fact ∈ (mode.clear store selector now).2.rows.values
      ↔ fact ∈ store.rows.values ∧ retracted selector now mode.wanted fact = false := by
  rw [ClearMode.clear_eq, clearMatchingActiveFacts, Table.values_removeWhere, List.mem_filter,
    Bool.not_eq_true']

theorem factsFor_removeWhere (store : FactStore) (removed : StoredFact → Bool) (cell : TargetCell)
    (h : ∀ fact ∈ store.rows.values, removed fact = true → ¬ cell.Covered fact) (now : Number)
    (costClass : Option CostClass) :
    factsFor (store.removeWhere removed).rows.values cell.provider cell.credentialId cell.model now
        costClass
      = factsFor store.rows.values cell.provider cell.credentialId cell.model now costClass := by
  unfold factsFor
  rw [Table.values_removeWhere, List.filter_filter]
  have hsame : ∀ fact ∈ store.rows.values,
      ((now.lt (expiryOf fact) && covers fact cell.provider cell.credentialId cell.model
          && costFilterAdmits fact costClass) && !removed fact)
        = (now.lt (expiryOf fact) && covers fact cell.provider cell.credentialId cell.model
          && costFilterAdmits fact costClass) := by
    intro fact hfact
    cases hr : removed fact with
    | false => exact Bool.and_true _
    | true =>
      have hnot : covers fact cell.provider cell.credentialId cell.model = false :=
        Bool.eq_false_iff.mpr (h fact hfact hr)
      rw [hnot, Bool.and_false, Bool.false_and, Bool.false_and]
  rw [List.filter_congr hsame]

/-- **Operator clears stay inside the selection.** In every store of a run, an active fact of
those the clear is about is removed exactly when every cell it covers lies inside the selection.
No other fact is removed, and no cell outside the selection is answered differently. -/
theorem operator_clear_contained (file : Option Json) (ops : List Operation) (mode : ClearMode)
    (selector : CooldownFactClearSelector) (now : Number) :
    let store := (finalState World.operate (World.start file) ops).store
    let cleared := mode.clear store selector now
    (∀ fact ∈ store.rows.values, mode.wanted fact = true → expired now fact = false →
        (fact ∉ cleared.2.rows.values ↔
          ∀ cell : TargetCell, cell.Covered fact → selector.Contains cell))
    ∧ (∀ fact ∈ store.rows.values, fact ∉ cleared.2.rows.values →
        mode.wanted fact = true ∧ expired now fact = false)
    ∧ ∀ cell : TargetCell, ¬ selector.Contains cell → ∀ later costClass,
        factsFor cleared.2.rows.values cell.provider cell.credentialId cell.model later costClass
          = factsFor store.rows.values cell.provider cell.credentialId cell.model later
              costClass := by
  intro store cleared
  have hsound : Sound store := World.sound file ops
  have hgone : ∀ fact ∈ store.rows.values, fact ∉ cleared.2.rows.values ↔
      (mode.wanted fact = true ∧ expired now fact = false)
        ∧ matchesClearSelector fact.scope selector = true := by
    intro fact hfact
    rw [mem_clear_iff, and_iff_right hfact, Bool.not_eq_false, retracted, Bool.and_eq_true,
      Bool.and_eq_true, Bool.not_eq_true']
  refine ⟨fun fact hfact hwanted hactive => ?_, fun fact hfact h => ((hgone fact hfact).mp h).1, ?_⟩
  · rw [hgone fact hfact, and_iff_right ⟨hwanted, hactive⟩]
    exact matchesClearSelector_iff (hsound fact hfact).valid selector
  · intro cell hout later costClass
    show factsFor (mode.clear store selector now).2.rows.values _ _ _ _ _ = _
    rw [ClearMode.clear_eq]
    apply factsFor_removeWhere
    intro fact hfact hretracted hcovered
    have hmatches := (Bool.and_eq_true_iff.mp hretracted).2
    exact hout ((matchesClearSelector_iff (hsound fact hfact).valid selector).mp hmatches cell
      hcovered)

end LlmRelay.Facts
