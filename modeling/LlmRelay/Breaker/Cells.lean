import LlmRelay.Breaker.Operations

/-!
# Invariants of the cells

What a health outcome does to a cell, said once, and the rule for invariants of the
cells: a property that fresh cells have and every writer of a cell keeps holds of all
cells, each under the key of its own target.

## Main definitions

* `CircuitState.Cooled`, `CircuitState.Recorded`: what a cooldown, and a health outcome,
  does to a cell;
* `Cells`: every cell is under its own key and has a property.

## Main results

* `CircuitState.recorded`: the specification of `CircuitState.recordHealth`;
* `Cells.applyTerminalOutcome`, `Cells.restoreState`: the invariant rule for a
  completion, and for a restore.
-/

namespace LlmRelay

open Ecma

/-! ## The ladder -/

namespace CircuitState

/-- A cell cooled by an outcome: only its cooldown and its ladder have moved. The
cooldown ends a finite time after the outcome, unless the outcome asked for a time that
is not a number. -/
structure Cooled (state cooled : CircuitState) (outcome : HealthOutcome) : Prop where
  frame : cooled = { state with
    cooldownUntil := cooled.cooldownUntil
    cooldownSource := cooled.cooldownSource
    unexplained429s := cooled.unexplained429s }
  until_ : cooled.cooldownUntil = state.cooldownUntil ∨
    ∃ ms : Number, cooled.cooldownUntil = outcome.at_.add ms ∧
      (outcome.retryAfterMs ≠ some .nan → ms.isFinite = true)

namespace Cooled

variable {state : CircuitState} {outcome : HealthOutcome}

theorem refl (state : CircuitState) (outcome : HealthOutcome) : Cooled state state outcome :=
  ⟨rfl, .inl rfl⟩

variable {ms : Number}

theorem coolFor (state : CircuitState)
    (hms : outcome.retryAfterMs ≠ some .nan → ms.isFinite = true) (source : CooldownSource) :
    Cooled state (state.coolFor outcome.at_ ms source) outcome :=
  ⟨rfl, .inr ⟨ms, rfl, hms⟩⟩

theorem asked_isFinite (h : asked outcome = some ms) (hretry : outcome.retryAfterMs ≠ some .nan) :
    ms.isFinite = true := by
  obtain ⟨stated, hstated, rfl⟩ := Option.map_eq_some_iff.mp h
  cases stated with
  | nan => exact absurd hstated hretry
  | negInf => rfl
  | posInf => rfl
  | fin q => exact Number.isFinite_min rfl (Number.isFinite_max rfl rfl)

theorem failureEscalationMs_isFinite {n : Nat} (h : failureEscalationMs n = some ms) :
    ms.isFinite = true := by
  have hall : ∀ x ∈ FAILURE_ESCALATION_MS, x.isFinite = true := by decide
  unfold failureEscalationMs at h
  split at h
  · cases h
  · exact hall ms (List.mem_of_getElem? h)

theorem failureCooldown_isFinite (elapsedMs : Number) :
    (failureCooldown elapsedMs).1.isFinite = true := by
  unfold failureCooldown
  dsimp only
  split
  · split
    · exact Number.isFinite_min rfl (Number.isFinite_max rfl ‹_›)
    · rfl
  · rfl

theorem coolRateLimited [Url] (state : CircuitState) (target : ProviderTargetIdentity)
    (outcome : HealthOutcome) : Cooled state (state.coolRateLimited target outcome) outcome := by
  have hall : ∀ i, (RATE_LIMIT_ESCALATION_MS.getD i 0).isFinite = true := by
    intro i
    have hmem : ∀ x ∈ RATE_LIMIT_ESCALATION_MS, x.isFinite = true := by decide
    rw [List.getD_eq_getElem?_getD]
    cases h : RATE_LIMIT_ESCALATION_MS[i]? with
    | none => rfl
    | some x => exact hmem x (List.mem_of_getElem? h)
  unfold CircuitState.coolRateLimited
  split
  · exact coolFor state (asked_isFinite ‹_›) _
  · split
    · exact coolFor state (fun _ => rfl) _
    · exact ⟨rfl, .inr ⟨_, rfl, fun _ => hall _⟩⟩

theorem coolQuotaExhausted (state : CircuitState) (outcome : HealthOutcome) :
    Cooled state (state.coolQuotaExhausted outcome) outcome := by
  unfold CircuitState.coolQuotaExhausted
  split
  · exact coolFor state (asked_isFinite ‹_›) _
  · dsimp only
    refine coolFor state (fun _ => Number.isFinite_max rfl ?_) _
    cases h : failureEscalationMs state.consecutiveFailures with
    | none => rfl
    | some ms => exact failureEscalationMs_isFinite h

theorem coolFailed (state : CircuitState) (outcome : HealthOutcome) :
    Cooled state (state.coolFailed outcome) outcome := by
  unfold CircuitState.coolFailed
  split
  · exact coolFor state (asked_isFinite ‹_›) _
  · split
    · dsimp only
      split
      · split
        · exact coolFor state (fun _ => failureEscalationMs_isFinite ‹_›) _
        · exact coolFor state (fun _ => failureCooldown_isFinite _) _
      · exact coolFor state (fun _ => failureCooldown_isFinite _) _
    · exact refl state outcome

end Cooled

/-- The observations of a cell after an outcome. -/
def quotaAfter (state : CircuitState) (outcome : HealthOutcome) : List QuotaObservation :=
  match outcome.quotaObservations with
  | none | some [] => state.quotaObservations
  | some observations => mergeQuotaObservations [state.quotaObservations, observations]

/-- A cell after a health outcome: its target stays, its samples and observations have
been extended, every count stays a count, and every time is an old one, zero, the time
of the outcome, or a finite time after it. -/
structure Recorded (state recorded : CircuitState) (outcome : HealthOutcome) : Prop where
  target : recorded.target = state.target
  pings : recorded.pings = (state.pushPing outcome).pings
  quotaObservations : recorded.quotaObservations = state.quotaAfter outcome
  cooldownUntil : recorded.cooldownUntil = state.cooldownUntil ∨ recorded.cooldownUntil = 0 ∨
    ∃ ms : Number, recorded.cooldownUntil = outcome.at_.add ms ∧
      (outcome.retryAfterMs ≠ some .nan → ms.isFinite = true)
  lastFailureTime : recorded.lastFailureTime = state.lastFailureTime ∨
    recorded.lastFailureTime = outcome.at_
  credentialFaultUntil : recorded.credentialFaultUntil = state.credentialFaultUntil ∨
    recorded.credentialFaultUntil = 0

/-- **What a health outcome does to a cell.** -/
theorem recorded [Url] (state : CircuitState) (target : ProviderTargetIdentity)
    (outcome : HealthOutcome) : Recorded state (state.recordHealth target outcome) outcome := by
  -- a failure moves the counters first, and then cools the cell
  have hcooled : ∀ merged cooled : CircuitState,
      merged = { state with quotaObservations := state.quotaAfter outcome } →
      Cooled { merged.pushPing outcome with
          consecutiveFailures := (merged.pushPing outcome).consecutiveFailures + 1
          lastFailureTime := outcome.at_ } cooled outcome → Recorded state cooled outcome := by
    intro merged cooled hmerged h
    have hfields := h.frame
    subst hmerged
    refine ⟨?_, ?_, ?_, ?_, .inr ?_, .inl ?_⟩
    · rw [hfields]
      rfl
    · rw [hfields]
      rfl
    · rw [hfields]
      rfl
    · rcases h.until_ with hold | hnew
      · exact .inl hold
      · exact .inr (.inr hnew)
    · rw [hfields]
    · rw [hfields]
      rfl
  unfold recordHealth
  extract_lets merged pushed
  have hmerged : merged = { state with quotaObservations := state.quotaAfter outcome } := by
    unfold merged quotaAfter
    rcases outcome.quotaObservations with _ | _ | ⟨o, os⟩ <;> rfl
  clear_value merged
  split
  · subst hmerged
    exact ⟨rfl, rfl, rfl, .inr (.inl rfl), .inl rfl, .inr rfl⟩
  · split
    · exact hcooled _ _ hmerged (.coolRateLimited _ _ _)
    · exact hcooled _ _ hmerged (.coolQuotaExhausted _ _)
    · exact hcooled _ _ hmerged (.coolFailed _ _)

end CircuitState

/-! ## Invariants -/

/-- Every cell is under the key of its own target, and has the property `P`. -/
def Cells (P : CircuitState → Prop) (states : CircuitStates) : Prop :=
  ∀ key state, states.get? key = some state → key = getKey state.target ∧ P state

/-- A change of a cell that keeps its target and the property `P`. -/
def Keeps (P : CircuitState → Prop) (write : CircuitState → CircuitState) : Prop :=
  ∀ state, P state → (write state).target = state.target ∧ P (write state)

/-- A health outcome that a terminal outcome leads to. -/
structure HealthOutcome.Of (health : HealthOutcome) (outcome : AttemptOutcome)
    (observation : Option HeaderObservation) : Prop where
  elapsedMs : health.elapsedMs = outcome.elapsedMs
  at_ : health.at_ = outcome.completedAt
  quotaObservations : health.quotaObservations = none
  retryAfterMs : ∀ ms, health.retryAfterMs = some ms →
    (∃ failure status, outcome.terminal = .failed failure status (some ms)) ∨
      ∃ o, observation = some o ∧ o.retryAfterMs = some ms

namespace Cells

variable {P : CircuitState → Prop} {states : CircuitStates}

theorem empty : Cells P .empty :=
  fun _ _ h => by cases h

theorem set (h : Cells P states) {key : String} {state : CircuitState}
    (hkey : key = getKey state.target) (hP : P state) : Cells P (states.set key state) := by
  intro key' state' hget
  rw [OrderedMap.get?_set] at hget
  split_ifs at hget with heq
  · rw [← heq, ← Option.some.inj hget]
    exact ⟨hkey, hP⟩
  · exact h key' state' hget

theorem mapValues (h : Cells P states) {f : CircuitState → CircuitState} (hf : Keeps P f) :
    Cells P (states.mapValues f) := by
  intro key state' hget
  rw [OrderedMap.get?_mapValues, Option.map_eq_some_iff] at hget
  obtain ⟨state, hstate, rfl⟩ := hget
  obtain ⟨hkey, hP⟩ := h key state hstate
  rw [(hf state hP).1]
  exact ⟨hkey, (hf state hP).2⟩

variable {target : ProviderTargetIdentity}

variable (h : Cells P states)

include h

variable (hfresh : P (.fresh target))

include hfresh

theorem cellOf :
    getKey target = getKey (LlmRelay.cellOf states target).target ∧
      P (LlmRelay.cellOf states target) := by
  unfold LlmRelay.cellOf
  cases hget : states.get? (getKey target) with
  | none => exact ⟨rfl, hfresh⟩
  | some state => exact h _ state hget

theorem updateCell {write : CircuitState → CircuitState} (hwrite : Keeps P write) :
    Cells P (LlmRelay.updateCell states target write) := by
  obtain ⟨hkey, hcell⟩ := h.cellOf hfresh
  obtain ⟨htarget, hP⟩ := hwrite _ hcell
  exact h.set (by rw [htarget, ← hkey]) hP

theorem recordQuotaObservations {observations : Option (List QuotaObservation)}
    (hquota : ∀ os, observations = some os → ∀ state, P state → P (state.recordQuota os)) :
    Cells P (LlmRelay.recordQuotaObservations states target observations) := by
  match observations, hquota with
  | none, _ => exact h
  | some [], _ => exact h
  | some (o :: os), hquota =>
    exact h.updateCell hfresh fun state hP => ⟨rfl, hquota _ rfl state hP⟩

omit hfresh

/-- A restore creates cells of rows, and leaves the others alone. -/
theorem restoreState {rows : List BreakerCellRow}
    (hrows : ∀ row ∈ rows, P row.cell) : Cells P (LlmRelay.restoreState states rows) := by
  induction rows generalizing states with
  | nil => exact h
  | cons row rows ih =>
    refine ih ?_ fun row' hrow' => hrows row' (List.mem_cons_of_mem row hrow')
    unfold LlmRelay.restoreRow
    dsimp only
    split
    · exact h
    · exact h.set rfl (hrows row List.mem_cons_self)

theorem endRateLimitCooldown
    (hend : Keeps P fun state => { state with cooldownUntil := 0, cooldownSource := none })
    (credentialId : String) (model : Option String) (now : Number) :
    Cells P (LlmRelay.endRateLimitCooldown states credentialId model now).2 := by
  unfold LlmRelay.endRateLimitCooldown
  dsimp only
  split
  · exact h
  · rename_i state hget
    obtain ⟨hkey, hP⟩ := h _ state hget
    split
    · exact h
    · split_ifs
      · exact h
      · exact h
      · exact h
      · exact h.set hkey (hend state hP).2

theorem recordQuotaCooldown (hfresh : P (.fresh target)) {until_ : Number}
    (hcool : until_.isFinite = true → ∀ state, P state →
      P { state with cooldownUntil := until_, cooldownSource := some .quota }) (now : Number) :
    Cells P (LlmRelay.recordQuotaCooldown states target until_ now) := by
  unfold LlmRelay.recordQuotaCooldown
  split
  · exact h
  · rename_i hdeclined
    refine h.updateCell hfresh fun state hP => ?_
    split
    · exact ⟨rfl, hP⟩
    · refine ⟨rfl, hcool ?_ state hP⟩
      simp only [Bool.or_eq_true, Bool.not_eq_true', not_or, Bool.not_eq_false] at hdeclined
      exact hdeclined.1

/-- **The invariant rule for a completion**: its observations, its fault and its health
outcome keep the property. -/
theorem applyTerminalOutcome [Url] (hfresh : P (.fresh target))
    {outcome : AttemptOutcome} {observation : Option HeaderObservation}
    (hquota : ∀ os, observation.bind (·.quotaObservations) = some os →
      ∀ state, P state → P (state.recordQuota os))
    (hfault : ∀ status state, P state →
      P (state.recordCredentialFault status outcome.completedAt))
    (hhealth : ∀ health : HealthOutcome, health.Of outcome observation →
      ∀ state, P state → P (state.recordHealth target health)) :
    Cells P (LlmRelay.applyTerminalOutcome states target outcome observation) := by
  have hrecorded := h.recordQuotaObservations hfresh hquota
  have hupdate : ∀ (states' : CircuitStates) (health : HealthOutcome), Cells P states' →
      health.Of outcome observation →
      Cells P (LlmRelay.applyHealthOutcome states' target health) := by
    intro states' health h' hof
    exact h'.updateCell hfresh fun state hP =>
      ⟨(state.recorded target health).target, hhealth health hof state hP⟩
  unfold LlmRelay.applyTerminalOutcome
  cases hterminal : outcome.terminal with
  | cancelled cause reason =>
    unfold applyCancelledOutcome
    dsimp only
    split_ifs
    · exact h
    · exact h
    · exact hupdate _ _ h ⟨rfl, rfl, rfl, fun _ hms => (by cases hms)⟩
  | succeeded status =>
    split_ifs
    · exact hrecorded
    · exact hupdate _ _ hrecorded ⟨rfl, rfl, rfl, fun _ hms => (by cases hms)⟩
  | failed failure status retryAfterMs =>
    dsimp only
    split_ifs
    · exact hrecorded
    · exact hrecorded.updateCell hfresh fun state hP => ⟨rfl, hfault _ state hP⟩
    · exact hrecorded
    · refine hupdate _ _ hrecorded ⟨rfl, rfl, rfl, fun ms hms => ?_⟩
      -- a stated wait is that of the outcome, or else that of its headers
      cases retryAfterMs with
      | some stated =>
        rw [Option.some_or, Option.some.injEq] at hms
        exact .inl ⟨_, _, hms ▸ hterminal⟩
      | none =>
        rw [Option.none_or, Option.bind_eq_some_iff] at hms
        exact .inr hms

end Cells

end LlmRelay
