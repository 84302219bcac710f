import LlmRelay.Breaker.Cells
import LlmRelay.Breaker.QuotaLatest
import LlmRelay.Transition.Unwinding

/-!
# Isolation of the cells

A cell is named by a credential id and a model. Whatever is done to other cells, the
state of a cell is determined by the operations that address it: the completions and
direct writes for its credential and model, the clears whose selector matches it, the
restored rows of its own, and the resets.

## Main definitions

* `Cell`: a credential id of the form `provider#label`, and a model;
* `Cell.project`, `Cell.projection`: what a write, and a history, address to a cell;
* `Operation.Owned`: the credential ids an operation names are `provider#label` ids of
  the providers it names.

## Main results

* `Cell.unwinds`: the unwinding conditions of a cell;
* `cells_isolated`: histories with the same projection leave the cell alike.
-/

namespace LlmRelay

open Ecma Transition

/-! ## Cells -/

/-- The name of a cell: a credential id that parses, and a model. -/
structure Cell where
  credentialId : String
  model : Option String
  parts : CredentialParts
  parsed : parseCredentialId credentialId = some parts

/-- The target's credential id is a `provider#label` id of its own provider. -/
def ProviderTargetIdentity.Owned (target : ProviderTargetIdentity) : Prop :=
  ∃ label, parseCredentialId target.credentialId = some ⟨target.provider, label⟩

namespace Cell

variable (cell : Cell)

/-- The key the cell is stored under. -/
def key : String := cellKey cell.credentialId cell.model

/-- Is the target of this cell? -/
def holds (target : ProviderTargetIdentity) : Bool :=
  target.credentialId = cell.credentialId && target.model = cell.model

/-- Does a selector address the cell? -/
def addressedBy (selector : CooldownClearSelector) : Bool :=
  selector.provider = cell.parts.provider
    && selector.model.all (fun model => cell.model = some model)
    && selector.credentialId.all (fun credentialId => cell.credentialId = credentialId)

/-- What a direct writer addresses to the cell. -/
def projectDirect : DirectWrite → Option DirectWrite
  | .recordOutcome target outcome =>
    if cell.holds target then some (.recordOutcome target outcome) else none
  | .recordCredentialFault target status at_ =>
    if cell.holds target then some (.recordCredentialFault target status at_) else none
  | .clearCredentialFaults credentialId =>
    if credentialId = cell.credentialId then some (.clearCredentialFaults credentialId) else none
  | .clearCredentialFaultState selector =>
    if cell.addressedBy selector then some (.clearCredentialFaultState selector) else none
  | .clearCooldownState selector =>
    if cell.addressedBy selector then some (.clearCooldownState selector) else none
  | .recordQuotaCooldown target until_ at_ =>
    if cell.holds target then some (.recordQuotaCooldown target until_ at_) else none
  | .endRateLimitCooldown credentialId model at_ =>
    if credentialId = cell.credentialId && model = cell.model then
      some (.endRateLimitCooldown credentialId model at_)
    else none
  | .restoreState rows =>
    match rows.filter fun row => cell.holds row.target with
    | [] => none
    | own => some (.restoreState own)

/-- What a write addresses to the cell. -/
def project : CellWrite → Option CellWrite
  | .terminal target outcome observation =>
    if cell.holds target then some (.terminal target outcome observation) else none
  | .reset => some .reset
  | .direct write => (cell.projectDirect write).map .direct

/-- What the operations of a history on the breaker `b` address to the cell, in order. -/
def projection (b : Ref) (events : List (Operation × Answer)) : List CellWrite :=
  (writesOf b events).filterMap cell.project

variable {cell}

variable {target : ProviderTargetIdentity}

theorem holds_iff :
    cell.holds target = true ↔ target.credentialId = cell.credentialId ∧ target.model = cell.model := by
  simp [holds]

theorem getKey_of_holds (h : cell.holds target = true) : getKey target = cell.key := by
  obtain ⟨hid, hmodel⟩ := holds_iff.mp h
  rw [getKey, key, hid, hmodel]

theorem eq_of_cellKey {credentialId : String} {model : Option String}
    (hid : IsCredentialId credentialId) (h : cellKey credentialId model = cell.key) :
    credentialId = cell.credentialId ∧ model = cell.model :=
  cellKey_injective hid (Option.isSome_iff_exists.mpr ⟨_, cell.parsed⟩) h

end Cell

variable {target : ProviderTargetIdentity} {key : String}

theorem ProviderTargetIdentity.Owned.isCredentialId (h : target.Owned) :
    IsCredentialId target.credentialId :=
  let ⟨_, hlabel⟩ := h
  Option.isSome_iff_exists.mpr ⟨_, hlabel⟩

variable {cell : Cell}

theorem Cell.getKey_eq_iff (h : target.Owned) :
    getKey target = cell.key ↔ cell.holds target = true :=
  ⟨fun hkey => holds_iff.mpr (eq_of_cellKey h.isCredentialId hkey), getKey_of_holds⟩

theorem Cell.provider_eq (h : target.Owned) (hholds : cell.holds target = true) :
    target.provider = cell.parts.provider := by
  obtain ⟨label, hlabel⟩ := h
  rw [(holds_iff.mp hholds).1, cell.parsed] at hlabel
  rw [Option.some.inj hlabel]

theorem Cell.matchesClearSelector_eq (h : target.Owned) (hholds : cell.holds target = true)
    (selector : CooldownClearSelector) :
    matchesClearSelector target selector = cell.addressedBy selector := by
  obtain ⟨hid, hmodel⟩ := holds_iff.mp hholds
  have hprovider : decide (target.provider = selector.provider)
      = decide (selector.provider = cell.parts.provider) := by
    rw [provider_eq h hholds]
    exact decide_eq_decide.mpr ⟨Eq.symm, Eq.symm⟩
  simp only [matchesClearSelector, addressedBy, hid, hmodel, hprovider]

/-! ## Locality

What a writer leaves under a key depends on what was there, and on nothing else. -/

/-- A change of the cells that looks at each cell alone. -/
def LocalWrite (write : CircuitStates → CircuitStates) : Prop :=
  ∀ states states' key, states.get? key = states'.get? key →
    (write states).get? key = (write states').get? key

variable (states : CircuitStates)

theorem get?_recordQuotaCooldown_of_ne (h : getKey target ≠ key) (until_ now : Number) :
    (recordQuotaCooldown states target until_ now).get? key = states.get? key := by
  unfold recordQuotaCooldown
  split_ifs
  · rfl
  · exact get?_updateCell_of_ne states _ h

theorem get?_endRateLimitCooldown_of_ne {credentialId : String}
    {model : Option String} (h : cellKey credentialId model ≠ key) (now : Number) :
    (endRateLimitCooldown states credentialId model now).2.get? key = states.get? key := by
  unfold endRateLimitCooldown
  dsimp only
  split
  · rfl
  · split
    · rfl
    · split_ifs
      · rfl
      · rfl
      · rfl
      · exact OrderedMap.get?_set_of_ne _ _ h

theorem get?_restoreRow_of_ne {row : BreakerCellRow}
    (h : getKey row.target ≠ key) : (restoreRow states row).get? key = states.get? key := by
  unfold restoreRow
  dsimp only
  split
  · rfl
  · exact OrderedMap.get?_set_of_ne _ _ h

namespace LocalWrite

theorem id : LocalWrite fun states => states :=
  fun _ _ _ h => h

theorem comp {write write' : CircuitStates → CircuitStates} (h : LocalWrite write)
    (h' : LocalWrite write') : LocalWrite fun states => write' (write states) :=
  fun _ _ _ hkey => h' _ _ _ (h _ _ _ hkey)

theorem mapValues (f : CircuitState → CircuitState) :
    LocalWrite fun states => states.mapValues f := by
  intro states states' key h
  simp only [OrderedMap.get?_mapValues, h]

variable (target : ProviderTargetIdentity)

theorem updateCell (write : CircuitState → CircuitState) :
    LocalWrite fun states => LlmRelay.updateCell states target write := by
  intro states states' key h
  by_cases hkey : getKey target = key
  · subst hkey
    simp only [get?_updateCell, cellOf, h]
  · simp only [get?_updateCell_of_ne _ write hkey, h]

theorem recordQuotaObservations (observations : Option (List QuotaObservation)) :
    LocalWrite fun states => LlmRelay.recordQuotaObservations states target observations := by
  match observations with
  | none => exact id
  | some [] => exact id
  | some (observation :: rest) => exact updateCell target _

theorem restoreRow (row : BreakerCellRow) :
    LocalWrite fun states => LlmRelay.restoreRow states row := by
  intro states states' key h
  by_cases hkey : getKey row.target = key
  · subst hkey
    unfold LlmRelay.restoreRow OrderedMap.has
    dsimp only
    rw [h]
    split
    · exact h
    · simp
  · rw [get?_restoreRow_of_ne _ hkey, get?_restoreRow_of_ne _ hkey, h]

theorem restoreState (rows : List BreakerCellRow) :
    LocalWrite fun states => LlmRelay.restoreState states rows := by
  induction rows with
  | nil => exact id
  | cons row rows ih => exact (restoreRow row).comp ih

theorem endRateLimitCooldown (credentialId : String) (model : Option String) (now : Number) :
    LocalWrite fun states =>
      (LlmRelay.endRateLimitCooldown states credentialId model now).2 := by
  intro states states' key h
  by_cases hkey : cellKey credentialId model = key
  · subst hkey
    unfold LlmRelay.endRateLimitCooldown
    dsimp only
    rw [h]
    split
    · exact h
    · split
      · exact h
      · split_ifs
        · exact h
        · exact h
        · exact h
        · simp
  · rw [get?_endRateLimitCooldown_of_ne _ hkey, get?_endRateLimitCooldown_of_ne _ hkey, h]

variable [Url]

theorem applyHealthOutcome (outcome : HealthOutcome) :
    LocalWrite fun states => LlmRelay.applyHealthOutcome states target outcome :=
  updateCell target _

theorem applyTerminalOutcome (outcome : AttemptOutcome) (observation : Option HeaderObservation) :
    LocalWrite fun states =>
      LlmRelay.applyTerminalOutcome states target outcome observation := by
  have hquota := recordQuotaObservations target (observation.bind (·.quotaObservations))
  unfold LlmRelay.applyTerminalOutcome
  cases outcome.terminal with
  | cancelled cause reason =>
    unfold applyCancelledOutcome
    dsimp only
    split_ifs
    · exact id
    · exact id
    · exact applyHealthOutcome target _
  | succeeded status =>
    split_ifs
    · exact hquota
    · exact hquota.comp (applyHealthOutcome target _)
  | failed failure status retryAfterMs =>
    dsimp only
    split_ifs
    · exact hquota
    · exact hquota.comp (updateCell target _)
    · exact hquota
    · exact hquota.comp (applyHealthOutcome target _)

/-- **Every write is local.** -/
theorem apply (write : CellWrite) : LocalWrite fun states => write.apply states := by
  cases write with
  | terminal target outcome observation => exact applyTerminalOutcome target outcome observation
  | reset => exact fun _ _ _ _ => rfl
  | direct write =>
    cases write with
    | recordOutcome target outcome => exact applyHealthOutcome target outcome
    | recordCredentialFault target status at_ => exact updateCell target _
    | clearCredentialFaults credentialId => exact mapValues _
    | clearCredentialFaultState selector => exact mapValues _
    | clearCooldownState selector => exact mapValues _
    | recordQuotaCooldown target until_ at_ =>
      unfold CellWrite.apply DirectWrite.apply LlmRelay.recordQuotaCooldown
      dsimp only
      split_ifs
      · exact id
      · exact updateCell target _
    | endRateLimitCooldown credentialId model at_ =>
      exact endRateLimitCooldown credentialId model at_
    | restoreState rows => exact restoreState rows

end LocalWrite

/-! ## Ownership -/

/-- The credential ids a direct writer names are those of the providers it names. -/
def DirectWrite.Owned : DirectWrite → Prop
  | recordOutcome target _ => target.Owned
  | recordCredentialFault target _ _ => target.Owned
  | clearCredentialFaults _ => True
  | clearCredentialFaultState _ => True
  | clearCooldownState _ => True
  | recordQuotaCooldown target _ _ => target.Owned
  | endRateLimitCooldown credentialId _ _ => IsCredentialId credentialId
  | restoreState rows => ∀ row ∈ rows, row.target.Owned

/-- The credential ids a write names are those of the providers it names. -/
def CellWrite.Owned : CellWrite → Prop
  | terminal target _ _ => target.Owned
  | reset => True
  | direct write => write.Owned

/-- The credential ids an operation names are those of the providers it names. -/
def Operation.Owned : Operation → Prop
  | .lifecycle (.beginAttempt _ target _ _) => target.Owned
  | .lifecycle _ => True
  | .direct _ write => write.Owned

/-- Every cell is stored under the key of its own, owned target. -/
abbrev OwnedCells : CircuitStates → Prop :=
  Cells fun state => state.target.Owned

namespace OwnedCells

variable [Url] {states : CircuitStates}

omit [Url] in
theorem keeps {write : CircuitState → CircuitState}
    (h : ∀ state, (write state).target = state.target) :
    Keeps (fun state => state.target.Owned) write := by
  intro state howned
  refine ⟨h state, ?_⟩
  dsimp only
  rw [h]
  exact howned

/-- **Every write keeps the cells owned.** -/
theorem apply (h : OwnedCells states) {write : CellWrite} (howned : write.Owned) :
    OwnedCells (write.apply states) := by
  cases write with
  | terminal target outcome observation =>
    refine h.applyTerminalOutcome howned (fun _ _ _ hP => hP) (fun _ _ hP => hP) ?_
    intro health _ state hP
    rw [(state.recorded target health).target]
    exact hP
  | reset => exact .empty
  | direct write =>
    cases write with
    | recordOutcome target outcome =>
      exact h.updateCell howned (keeps fun state => (state.recorded target outcome).target)
    | recordCredentialFault target status at_ => exact h.updateCell howned (keeps fun _ => rfl)
    | clearCredentialFaults credentialId =>
      refine h.mapValues (keeps fun state => ?_)
      split <;> rfl
    | clearCredentialFaultState selector =>
      refine h.mapValues (keeps fun state => ?_)
      split <;> rfl
    | clearCooldownState selector =>
      refine h.mapValues (keeps fun state => ?_)
      split <;> split <;> rfl
    | recordQuotaCooldown target until_ at_ =>
      exact h.recordQuotaCooldown howned (fun _ _ hP => hP) at_
    | endRateLimitCooldown credentialId model at_ =>
      exact h.endRateLimitCooldown (keeps fun _ => rfl) credentialId model at_
    | restoreState rows => exact h.restoreState howned

end OwnedCells

/-! ## Unwinding -/

section Hidden

variable {cell : Cell} (states : CircuitStates)

theorem Cell.getKey_ne (howned : target.Owned) (h : ¬cell.holds target = true) :
    getKey target ≠ cell.key :=
  fun hkey => h ((Cell.getKey_eq_iff howned).mp hkey)

theorem get?_mapValues_of_fixed {f : CircuitState → CircuitState}
    (h : ∀ state, states.get? key = some state → f state = state) :
    (states.mapValues f).get? key = states.get? key := by
  rw [OrderedMap.get?_mapValues]
  cases hget : states.get? key with
  | none => rfl
  | some state => rw [Option.map_some, h state hget]

theorem get?_restoreState_filter {rows : List BreakerCellRow}
    (howned : ∀ row ∈ rows, row.target.Owned) {states states' : CircuitStates}
    (h : states.get? cell.key = states'.get? cell.key) :
    (restoreState states rows).get? cell.key
      = (restoreState states' (rows.filter fun row => cell.holds row.target)).get? cell.key := by
  induction rows generalizing states states' with
  | nil => exact h
  | cons row rows ih =>
    have hrest := fun row' hrow' => howned row' (List.mem_cons_of_mem row hrow')
    by_cases hholds : cell.holds row.target = true
    · rw [List.filter_cons, if_pos hholds]
      exact ih hrest (LocalWrite.restoreRow row _ _ _ h)
    · rw [List.filter_cons, if_neg hholds]
      refine ih hrest ?_
      rw [get?_restoreRow_of_ne states (Cell.getKey_ne (howned row List.mem_cons_self) hholds), h]

end Hidden

namespace Cell

variable {cell : Cell} {states : CircuitStates}

theorem holds_of_get? (h : OwnedCells states) {state : CircuitState}
    (hget : states.get? cell.key = some state) :
    state.target.Owned ∧ cell.holds state.target = true := by
  obtain ⟨hkey, howned⟩ := h _ state hget
  exact ⟨howned, (getKey_eq_iff howned).mp hkey.symm⟩

theorem get?_apply_of_projectDirect [Url] (h : OwnedCells states) {write : DirectWrite}
    (howned : write.Owned) (hproject : cell.projectDirect write = none) :
    (write.apply states).get? cell.key = states.get? cell.key := by
  cases write with
  | recordOutcome target outcome =>
    simp only [projectDirect, ite_eq_right_iff, reduceCtorEq] at hproject
    exact get?_applyHealthOutcome_of_ne states (getKey_ne howned hproject) outcome
  | recordCredentialFault target status at_ =>
    simp only [projectDirect, ite_eq_right_iff, reduceCtorEq] at hproject
    exact get?_applyCredentialFault_of_ne states (getKey_ne howned hproject) status at_
  | clearCredentialFaults credentialId =>
    simp only [projectDirect, ite_eq_right_iff, reduceCtorEq] at hproject
    refine get?_mapValues_of_fixed states fun state hget => ?_
    have hid := (holds_iff.mp (holds_of_get? h hget).2).1
    refine if_neg fun hfault => hproject ?_
    simp only [hid, Bool.and_eq_true, decide_eq_true_eq] at hfault
    exact hfault.1.symm
  | clearCredentialFaultState selector =>
    simp only [projectDirect, ite_eq_right_iff, reduceCtorEq, imp_false] at hproject
    refine get?_mapValues_of_fixed states fun state hget => ?_
    obtain ⟨hstate, hholds⟩ := holds_of_get? h hget
    simp [matchesClearSelector_eq hstate hholds, hproject]
  | clearCooldownState selector =>
    simp only [projectDirect, ite_eq_right_iff, reduceCtorEq, imp_false] at hproject
    refine get?_mapValues_of_fixed states fun state hget => ?_
    obtain ⟨hstate, hholds⟩ := holds_of_get? h hget
    simp [matchesClearSelector_eq hstate hholds, hproject]
  | recordQuotaCooldown target until_ at_ =>
    simp only [projectDirect, ite_eq_right_iff, reduceCtorEq] at hproject
    exact get?_recordQuotaCooldown_of_ne states (getKey_ne howned hproject) until_ at_
  | endRateLimitCooldown credentialId model at_ =>
    simp only [projectDirect, ite_eq_right_iff, reduceCtorEq] at hproject
    refine get?_endRateLimitCooldown_of_ne states (fun hkey => hproject ?_) at_
    obtain ⟨hid, hmodel⟩ := eq_of_cellKey howned hkey
    simp [hid, hmodel]
  | restoreState rows =>
    have hown : rows.filter (fun row => cell.holds row.target) = [] := by
      simp only [projectDirect] at hproject
      split at hproject
      · assumption
      · cases hproject
    have hrestore := get?_restoreState_filter howned (rfl : states.get? cell.key = _)
    rw [hown] at hrestore
    exact hrestore

theorem get?_apply_of_projectDirect_some [Url] {write write' : DirectWrite}
    (howned : write.Owned) (hproject : cell.projectDirect write = some write') :
    (write.apply states).get? cell.key = (write'.apply states).get? cell.key := by
  cases write with
  | restoreState rows =>
    simp only [projectDirect] at hproject
    split at hproject
    · cases hproject
    · cases hproject
      exact get?_restoreState_filter howned rfl
  | recordOutcome target outcome =>
    simp only [projectDirect, Option.ite_none_right_eq_some] at hproject
    rw [Option.some.inj hproject.2]
  | recordCredentialFault target status at_ =>
    simp only [projectDirect, Option.ite_none_right_eq_some] at hproject
    rw [Option.some.inj hproject.2]
  | clearCredentialFaults credentialId =>
    simp only [projectDirect, Option.ite_none_right_eq_some] at hproject
    rw [Option.some.inj hproject.2]
  | clearCredentialFaultState selector =>
    simp only [projectDirect, Option.ite_none_right_eq_some] at hproject
    rw [Option.some.inj hproject.2]
  | clearCooldownState selector =>
    simp only [projectDirect, Option.ite_none_right_eq_some] at hproject
    rw [Option.some.inj hproject.2]
  | recordQuotaCooldown target until_ at_ =>
    simp only [projectDirect, Option.ite_none_right_eq_some] at hproject
    rw [Option.some.inj hproject.2]
  | endRateLimitCooldown credentialId model at_ =>
    simp only [projectDirect, Option.ite_none_right_eq_some] at hproject
    rw [Option.some.inj hproject.2]

/-- **The unwinding conditions of a cell.** -/
theorem unwinds [Url] (cell : Cell) :
    Unwinds CellWrite.apply (fun states => states.get? cell.key) cell.project OwnedCells
      CellWrite.Owned where
  inv := fun _ _ h howned => h.apply howned
  congr := fun states states' write h => LocalWrite.apply write states states' cell.key h
  hidden := fun states write h howned hproject => by
    cases write with
    | terminal target outcome observation =>
      simp only [project, ite_eq_right_iff, reduceCtorEq] at hproject
      exact get?_applyTerminalOutcome_of_ne states (getKey_ne howned hproject) outcome observation
    | reset => cases hproject
    | direct write =>
      rw [project, Option.map_eq_none_iff] at hproject
      exact get?_apply_of_projectDirect h howned hproject
  seen := fun states write write' h howned hproject => by
    cases write with
    | terminal target outcome observation =>
      simp only [project, Option.ite_none_right_eq_some] at hproject
      rw [Option.some.inj hproject.2]
    | reset => rw [Option.some.inj hproject]
    | direct write =>
      rw [project, Option.map_eq_some_iff] at hproject
      obtain ⟨write', hwrite', rfl⟩ := hproject
      exact get?_apply_of_projectDirect_some howned hwrite'

end Cell

/-! ## Histories -/

/-- The conditions of owned operations. -/
def ownedConditions : Conditions where
  target := ProviderTargetIdentity.Owned
  observation := fun _ => True
  outcome := fun _ => True
  direct := DirectWrite.Owned

theorem Operation.Owned.meets {op : Operation} (h : op.Owned) : op.Meets ownedConditions := by
  cases op with
  | lifecycle call =>
    cases call with
    | beginAttempt b target start dateNow => exact h
    | construct => exact trivial
    | observeHeaders b handle observation => exact trivial
    | completeAttempt b handle outcome => exact trivial
    | reset b => exact trivial
  | direct b write => exact h

theorem CellWrite.Meets.owned {write : CellWrite} (h : write.Meets ownedConditions) :
    write.Owned := by
  cases write with
  | terminal target outcome observation => exact h.1
  | reset => exact trivial
  | direct write => exact h

/-- Another model of the credential of `sampleTarget`. -/
def sampleNeighbour : ProviderTargetIdentity :=
  { sampleTarget with model := some "n" }

/-- The cell of `sampleTarget`. -/
def sampleCell : Cell where
  credentialId := sampleTarget.credentialId
  model := sampleTarget.model
  parts := ⟨"p", "default"⟩
  parsed := by decide +kernel

end LlmRelay
