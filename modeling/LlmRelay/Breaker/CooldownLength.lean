import LlmRelay.Breaker.QuotaLatest
import LlmRelay.Breaker.Operations

/-!
# How long a failure cools a cell

A failure for which the provider stated no `Retry-After` cools its cell for a length that
depends on its status, on the failures before it and on the time it took
(`circuit-breaker.ts`). The new cooldown replaces the old one, whichever ends later.

## Main definitions

* `failureLengthMs`: the length of the cooldown a failure sets, if it sets one;
* `unexplainedFailure`: the failure without a `Retry-After` that an operation records;
* `EndsNoSooner`: what is over at the end of one cooldown is over at the end of another.

## Main results

* `cooldownUntil_applyTerminalOutcome`: a failure cools for its length;
* `failures_keep_cooldown_iff`: in a run no failure ends a cooldown sooner exactly where each
  failure's own cooldown reaches the end of the one before it.
-/

namespace LlmRelay

open Ecma Transition

/-! ## The length -/

/-- The length of the cooldown of a generic failure that trips the breaker. -/
def trippedLengthMs (consecutiveFailures : Nat) (elapsedMs : Number) : Number :=
  match failureEscalationMs consecutiveFailures with
  | none => (failureCooldown elapsedMs).1
  | some escalated =>
    if (failureCooldown elapsedMs).1.lt escalated then escalated else (failureCooldown elapsedMs).1

/-- The length of the cooldown that a failure without a `Retry-After` sets on a cell; `none`
where it leaves the cooldown alone. -/
def failureLengthMs [Url] (state : CircuitState) (target : ProviderTargetIdentity)
    (provenance : OutcomeProvenance) (status : Option Nat) (elapsedMs : Number) : Option Number :=
  if !PROVENANCE_REACHES_HEALTH_PATH provenance then none
  else if status = some 401 || status = some 403 || status.any isNeutralClientError then none
  else
    match status with
    | some 429 =>
      if isLoopbackTarget target then some LOOPBACK_RATE_LIMIT_COOLDOWN_MS
      else
        some (RATE_LIMIT_ESCALATION_MS.getD
          (Nat.min state.unexplained429s (RATE_LIMIT_ESCALATION_MS.length - 1)) 0)
    | some 402 =>
      some (QUOTA_EXHAUSTED_COOLDOWN_MS.max
        ((failureEscalationMs (state.consecutiveFailures + 1)).getD 0))
    | _ =>
      if MAX_FAILURES_BEFORE_TRIP ≤ state.consecutiveFailures + 1 then
        some (trippedLengthMs (state.consecutiveFailures + 1) elapsedMs)
      else none

/-- The end of a cooldown after a failure of the given length. -/
def cooldownAfter (cooldownUntil completedAt : Number) : Option Number → Number
  | none => cooldownUntil
  | some ms => completedAt.add ms

section Cell

variable (state : CircuitState) (outcome : HealthOutcome)

theorem CircuitState.cooldownUntil_coolFailed (h : outcome.retryAfterMs = none) :
    (state.coolFailed outcome).cooldownUntil
      = cooldownAfter state.cooldownUntil outcome.at_
          (if MAX_FAILURES_BEFORE_TRIP ≤ state.consecutiveFailures then
            some (trippedLengthMs state.consecutiveFailures outcome.elapsedMs)
          else none) := by
  have hasked : asked outcome = none := by rw [asked, h, Option.map_none]
  unfold CircuitState.coolFailed trippedLengthMs
  rw [hasked]
  by_cases htripped : MAX_FAILURES_BEFORE_TRIP ≤ state.consecutiveFailures
  · simp only [if_pos htripped]
    cases failureEscalationMs state.consecutiveFailures with
    | none => rfl
    | some escalated =>
      dsimp only
      split <;> rfl
  · simp only [if_neg htripped]
    rfl

theorem CircuitState.cooldownUntil_coolQuotaExhausted (h : outcome.retryAfterMs = none) :
    (state.coolQuotaExhausted outcome).cooldownUntil
      = outcome.at_.add (QUOTA_EXHAUSTED_COOLDOWN_MS.max
          ((failureEscalationMs state.consecutiveFailures).getD 0)) := by
  have hasked : asked outcome = none := by rw [asked, h, Option.map_none]
  rw [CircuitState.coolQuotaExhausted, hasked]
  rfl

theorem CircuitState.cooldownUntil_coolRateLimited [Url] (target : ProviderTargetIdentity)
    (h : outcome.retryAfterMs = none) :
    (state.coolRateLimited target outcome).cooldownUntil
      = outcome.at_.add (if isLoopbackTarget target then LOOPBACK_RATE_LIMIT_COOLDOWN_MS
          else RATE_LIMIT_ESCALATION_MS.getD
            (Nat.min state.unexplained429s (RATE_LIMIT_ESCALATION_MS.length - 1)) 0) := by
  have hasked : asked outcome = none := by rw [asked, h, Option.map_none]
  rw [CircuitState.coolRateLimited, hasked]
  dsimp only
  split <;> rfl

theorem CircuitState.recordHealth_failed [Url] (target : ProviderTargetIdentity)
    (hquota : outcome.quotaObservations = none) (hok : outcome.ok = false) :
    ∃ failed : CircuitState, failed.cooldownUntil = state.cooldownUntil ∧
      failed.unexplained429s = state.unexplained429s ∧
      failed.consecutiveFailures = state.consecutiveFailures + 1 ∧
      state.recordHealth target outcome
        = match outcome.status with
          | some 429 => failed.coolRateLimited target outcome
          | some 402 => failed.coolQuotaExhausted outcome
          | _ => failed.coolFailed outcome := by
  refine ⟨{ state.pushPing outcome with
    consecutiveFailures := state.consecutiveFailures + 1
    lastFailureTime := outcome.at_ }, rfl, rfl, rfl, ?_⟩
  unfold CircuitState.recordHealth
  rw [hquota, hok]
  rfl

end Cell

section Outcome

variable (states : CircuitStates) (target : ProviderTargetIdentity)

theorem cellOf_updateCell (write : CircuitState → CircuitState) :
    cellOf (updateCell states target write) target = write (cellOf states target) := by
  rw [cellOf, get?_updateCell, Option.getD_some]

theorem cellOf_recordQuotaObservations (observations : Option (List QuotaObservation)) :
    ∃ quota, cellOf (recordQuotaObservations states target observations) target
      = { cellOf states target with quotaObservations := quota } := by
  match observations with
  | none => exact ⟨_, rfl⟩
  | some [] => exact ⟨_, rfl⟩
  | some (observation :: rest) =>
    rw [recordQuotaObservations, cellOf_updateCell]
    exact ⟨_, rfl⟩

/-- **A failure cools for its length**: the cooldown it leaves ends that long after it, or where
it ended before. -/
theorem cooldownUntil_applyTerminalOutcome [Url] {outcome : AttemptOutcome}
    {observation : Option HeaderObservation} {failure : AttemptFailureClass} {status : Option Nat}
    (hfailed : outcome.terminal = .failed failure status none)
    (hheaders : observation.bind (·.retryAfterMs) = none) :
    (cellOf (applyTerminalOutcome states target outcome observation) target).cooldownUntil
      = cooldownAfter (cellOf states target).cooldownUntil outcome.completedAt
          (failureLengthMs (cellOf states target) target outcome.provenance status
            outcome.elapsedMs) := by
  obtain ⟨quota, hquota⟩ := cellOf_recordQuotaObservations states target
    (observation.bind (·.quotaObservations))
  unfold applyTerminalOutcome failureLengthMs
  rw [hfailed]
  dsimp only
  by_cases hprovenance : PROVENANCE_REACHES_HEALTH_PATH outcome.provenance = true
  · rw [hprovenance, Bool.not_true, if_neg Bool.false_ne_true, if_neg Bool.false_ne_true]
    by_cases hcredential : (status = some 401 || status = some 403) = true
    · -- a credential fault is no cooldown
      rw [hcredential, if_pos rfl, applyCredentialFault, cellOf_updateCell, hquota]
      rfl
    · rw [if_neg hcredential]
      rw [Bool.not_eq_true] at hcredential
      rw [hcredential, Bool.false_or]
      by_cases hneutral : status.any isNeutralClientError = true
      · rw [if_pos hneutral, if_pos hneutral, hquota]
        rfl
      · rw [if_neg hneutral, if_neg hneutral, applyHealthOutcome, cellOf_updateCell, hquota]
        obtain ⟨failed, huntil, hladder, hcount, hrecord⟩ :=
          CircuitState.recordHealth_failed { cellOf states target with quotaObservations := quota }
            { ok := false
              status
              elapsedMs := outcome.elapsedMs
              at_ := outcome.completedAt
              quotaObservations := none
              retryAfterMs := (none : Option Number).or (observation.bind (·.retryAfterMs)) }
            target rfl rfl
        rw [hrecord]
        dsimp only at huntil hladder hcount ⊢
        split
        · rw [CircuitState.cooldownUntil_coolRateLimited _ _ _ hheaders, hladder]
          split <;> rfl
        · rw [CircuitState.cooldownUntil_coolQuotaExhausted _ _ hheaders, hcount]
          rfl
        · rw [CircuitState.cooldownUntil_coolFailed _ _ hheaders, hcount, huntil]
  · rw [Bool.not_eq_true] at hprovenance
    rw [hprovenance, Bool.not_false, if_pos rfl, hquota]
    rfl

end Outcome

/-! ## Failures in a run -/

/-- Whatever is over at the end of the new cooldown is over at the end of the old one. -/
def EndsNoSooner (old new : Number) : Prop :=
  ∀ now : Number, new.le now = true → old.le now = true

theorem endsNoSooner_iff {old new : Number} :
    EndsNoSooner old new ↔ new = .nan ∨ old.le new = true := by
  constructor
  · intro h
    by_cases hnan : new = .nan
    · exact .inl hnan
    · exact .inr (h new ((Number.le_total hnan hnan).elim id id))
  · rintro (rfl | hle) now hnow
    · cases hnow
    · exact Number.le_trans hle hnow

theorem EndsNoSooner.refl (cooldownUntil : Number) : EndsNoSooner cooldownUntil cooldownUntil :=
  fun _ h => h

/-- The breaker, the target and the outcome of a failure that an operation records, where neither
the outcome nor the headers of the attempt carry a `Retry-After`. -/
def unexplainedFailure [Url] (w : World) :
    Operation → Option (Ref × ProviderTargetIdentity × AttemptOutcome)
  | .lifecycle (.completeAttempt b (.object ref) outcome) =>
    if (w.step (.completeAttempt b (.object ref) outcome)).2.rejected then none
    else
      (w.breakers.get? b).bind fun breaker => (breaker.attempts.get? ref).bind fun record =>
        match outcome.terminal with
        | .failed _ _ none =>
          if (record.observation.bind (·.retryAfterMs)).isNone then some (b, record.target, outcome)
          else none
        | _ => none
  | _ => none

/-- The status of a failed outcome. -/
def AttemptOutcome.failedStatus (outcome : AttemptOutcome) : Option Nat :=
  match outcome.terminal with
  | .failed _ status _ => status
  | _ => none

/-- The cell of a target in a breaker of a world. -/
def World.cell (w : World) (b : Ref) (target : ProviderTargetIdentity) : CircuitState :=
  cellOf (w.statesOf b) target

/-- A failure without a `Retry-After` ends no cooldown sooner. -/
def KeepsCooldown [Url] (w : World) (op : Operation) : Prop :=
  ∀ b target outcome, unexplainedFailure w op = some (b, target, outcome) →
    EndsNoSooner (w.cell b target).cooldownUntil ((w.operate op).1.cell b target).cooldownUntil

/-- Where the cell is cooling, a failure without a `Retry-After` that sets a cooldown sets one of a
length that reaches the end of the old one. -/
def ReachesCooldown [Url] (w : World) (op : Operation) : Prop :=
  ∀ b target outcome, unexplainedFailure w op = some (b, target, outcome) →
    ∀ ms, failureLengthMs (w.cell b target) target outcome.provenance outcome.failedStatus
        outcome.elapsedMs = some ms →
      outcome.completedAt.add ms = .nan ∨
        (w.cell b target).cooldownUntil.le (outcome.completedAt.add ms) = true

section Failures

variable [Url]

theorem World.cooldownUntil_unexplainedFailure {w : World} {op : Operation} {b : Ref}
    {target : ProviderTargetIdentity} {outcome : AttemptOutcome}
    (h : unexplainedFailure w op = some (b, target, outcome)) :
    ((w.operate op).1.cell b target).cooldownUntil
      = cooldownAfter (w.cell b target).cooldownUntil outcome.completedAt
          (failureLengthMs (w.cell b target) target outcome.provenance outcome.failedStatus
            outcome.elapsedMs) := by
  unfold unexplainedFailure at h
  split at h
  · rename_i b' ref outcome'
    split_ifs at h with haccepted
    obtain ⟨breaker, hb, h⟩ := Option.bind_eq_some_iff.mp h
    obtain ⟨record, hrecord, h⟩ := Option.bind_eq_some_iff.mp h
    split at h
    · rename_i failure status hterminal
      split_ifs at h with hheaders
      cases h
      rw [Option.isNone_iff_eq_none] at hheaders
      rcases breaker.completeAttempt_cases w.heap (.object ref) outcome with ⟨reason, hfail⟩ |
        ⟨ref', record', known, done, href, hrecord', -, -, -, -, hok⟩
      · refine absurd ?_ haccepted
        simp only [World.step, hb, hfail, Reply.rejected]
      · cases href
        rw [hrecord] at hrecord'
        cases hrecord'
        have hafter : (w.operate (.lifecycle (.completeAttempt b (.object ref) outcome))).1.statesOf b
            = applyTerminalOutcome breaker.states record.target outcome record.observation := by
          simp only [World.operate, World.step, hb, hok, World.statesOf_update, if_true]
        rw [World.cell, World.cell, hafter, World.statesOf_of_some hb,
          cooldownUntil_applyTerminalOutcome _ _ hterminal hheaders, AttemptOutcome.failedStatus,
          hterminal]
    · cases h
  · cases h

/-- **One failure** ends no cooldown sooner exactly where its own reaches as far. -/
theorem keepsCooldown_iff (w : World) (op : Operation) :
    KeepsCooldown w op ↔ ReachesCooldown w op := by
  refine forall₄_congr fun b target outcome h => ?_
  rw [World.cooldownUntil_unexplainedFailure h]
  cases failureLengthMs (w.cell b target) target outcome.provenance outcome.failedStatus
    outcome.elapsedMs with
  | none =>
    simp only [reduceCtorEq, false_imp_iff, implies_true, iff_true]
    exact EndsNoSooner.refl _
  | some ms => simp [cooldownAfter, endsNoSooner_iff]

/-- **Failures and cooldowns.** In every run, whatever else is done to the breakers: no failure
without a `Retry-After` ends the cooldown of its cell sooner exactly where, at each of them, the
cooldown that its own class sets reaches the end of the one the cell already has. -/
theorem failures_keep_cooldown_iff (ops : List Operation) :
    (∀ pre op, pre ++ [op] <+: ops →
        KeepsCooldown (finalState World.operate World.initial pre) op) ↔
      ∀ pre op, pre ++ [op] <+: ops →
        ReachesCooldown (finalState World.operate World.initial pre) op :=
  forall₃_congr fun _ op _ => keepsCooldown_iff _ op

end Failures

/-- A failure of the example run. -/
def sampleFailure (status : Nat) (at_ : Number) : AttemptOutcome where
  target := sampleTarget
  provenance := .upstream
  completedAt := at_
  elapsedMs := 1
  terminal := .failed .http (some status) none

/-- Two attempts overlap; one is refused for want of payment, the other for its rate. -/
def overlappingFailures : List Operation :=
  [.lifecycle .construct, .lifecycle (.beginAttempt 0 sampleTarget ⟨some 0, none⟩ 0),
    .lifecycle (.beginAttempt 0 sampleTarget ⟨some 0, none⟩ 0),
    .lifecycle (.completeAttempt 0 (.object 2) (sampleFailure 402 1000))]

/-- The second failure moves the end of the cooldown from an hour to two minutes. -/
theorem failure_shortens_cooldown :
    ((finalState (@World.operate noUrl) World.initial overlappingFailures).cell 0
        sampleTarget).cooldownUntil = 3601000 ∧
      ((finalState (@World.operate noUrl) World.initial (overlappingFailures ++
        [.lifecycle (.completeAttempt 0 (.object 3) (sampleFailure 429 2000))])).cell 0
          sampleTarget).cooldownUntil = 122000 ∧
      ¬ ∀ ops pre op, pre ++ [op] <+: ops →
        @KeepsCooldown noUrl (finalState (@World.operate noUrl) World.initial pre) op := by
  refine ⟨by decide +kernel, by decide +kernel, fun h => ?_⟩
  have hkeeps := h _ overlappingFailures
    (.lifecycle (.completeAttempt 0 (.object 3) (sampleFailure 429 2000))) List.prefix_rfl
    0 sampleTarget (sampleFailure 429 2000) (by decide +kernel)
  exact absurd (hkeeps 122000 (by decide +kernel)) (by decide +kernel)

end LlmRelay
