import LlmRelay.Breaker.Ledger
import LlmRelay.Kernel.CredentialId

/-!
# All operations on a breaker

Beside the attempt lifecycle a breaker has direct writers: outcomes of probes,
credential faults, quota cooldowns, the clears of an operator, and the restore at
startup (`circuit-breaker.ts`). Whatever is called, the cells are the writes of the
history, applied in order.

## Main definitions

* `BreakerCellRow`, `exportState`, `restoreState`: the persisted form of a cell;
* `DirectWrite`, `CellWrite`: the direct writers, and all writes;
* `Operation`, `World.operate`: one operation on one breaker of a world;
* `writesOf`: what the operations of a history write to the cells of a breaker.

## Main results

* `World.states_eq_writes`: the cells are the writes of the history.
-/

namespace LlmRelay

open Ecma Transition

/-! ## Clearing -/

/-- Which cells an operator addresses. -/
structure CooldownClearSelector where
  provider : String
  model : Option String
  credentialId : Option String
  deriving DecidableEq

/-- Does the selector address the target? -/
def matchesClearSelector (target : ProviderTargetIdentity) (selector : CooldownClearSelector) :
    Bool :=
  target.provider = selector.provider
    && selector.model.all (fun model => target.model = some model)
    && selector.credentialId.all (fun credentialId => target.credentialId = credentialId)

/-- A cell an operator cleared. -/
structure ClearedCircuitCell where
  provider : String
  model : Option String
  credentialId : String
  deriving DecidableEq

/-- The name of a cleared cell. -/
def clearedCell (target : ProviderTargetIdentity) : ClearedCircuitCell :=
  ⟨target.provider, target.model, target.credentialId⟩

namespace CircuitState

/-- Resets the credential fault. -/
def clearFault (state : CircuitState) : CircuitState :=
  { state with credentialFaultUntil := 0, credentialFailures := 0, lastCredentialStatus := none }

/-- Resets the cooldown and the ladder of unexplained 429s. -/
def clearCooldown (state : CircuitState) : CircuitState :=
  { state with cooldownUntil := 0, cooldownSource := none, unexplained429s := 0 }

/-- Is there a credential fault to reset? -/
def hasFaultState (state : CircuitState) : Bool :=
  state.credentialFaultUntil ≠ 0 || state.credentialFailures ≠ 0
    || state.lastCredentialStatus ≠ none

/-- Is there a cooldown to reset? -/
def hasCooldownState (state : CircuitState) : Bool :=
  state.cooldownUntil ≠ 0 || state.cooldownSource ≠ none || state.unexplained429s ≠ 0

end CircuitState

/-- Clears the faults of a credential, and how many there were; a fault without a
count and a time is left alone. -/
def clearCredentialFaults (states : CircuitStates) (credentialId : String) :
    Nat × CircuitStates :=
  let faulted (state : CircuitState) : Bool :=
    state.target.credentialId = credentialId
      && !(state.credentialFaultUntil = 0 && state.credentialFailures = 0)
  (states.values.countP faulted,
    states.mapValues fun state => if faulted state then state.clearFault else state)

/-- Clears the faults of the addressed cells. -/
def clearCredentialFaultState (states : CircuitStates) (selector : CooldownClearSelector) :
    List ClearedCircuitCell × CircuitStates :=
  let faulted (state : CircuitState) : Bool :=
    matchesClearSelector state.target selector && state.hasFaultState
  ((states.values.filter faulted).map fun state => clearedCell state.target,
    states.mapValues fun state => if faulted state then state.clearFault else state)

/-- Clears the cooldowns and the faults of the addressed cells. -/
def clearCooldownState (states : CircuitStates) (selector : CooldownClearSelector) :
    (List ClearedCircuitCell × List ClearedCircuitCell) × CircuitStates :=
  let cooled (state : CircuitState) : Bool :=
    matchesClearSelector state.target selector && state.hasCooldownState
  let faulted (state : CircuitState) : Bool :=
    matchesClearSelector state.target selector && state.hasFaultState
  (((states.values.filter cooled).map fun state => clearedCell state.target,
      (states.values.filter faulted).map fun state => clearedCell state.target),
    states.mapValues fun state =>
      let cleared := if cooled state then state.clearCooldown else state
      if faulted state then cleared.clearFault else cleared)

/-! ## Probes -/

/-- Which cooldown sources a successful probe may end. -/
def PROBE_SUCCESS_ENDS_COOLDOWN : CooldownSource → Bool
  | .default => true
  | .escalation => true
  | .retryAfter => true
  | .loopback => true
  | .quota => false
  | .elapsed => false
  | .failureEscalation => true

/-- Does a successful probe disprove a cooldown that a status earned? -/
def probeDisprovesCooldown (source : CooldownSource) (status : Option Nat) : Bool :=
  if source = .failureEscalation then
    status = some 402 || status.any fun s => 500 ≤ s && s ≤ 599
  else status = some 429

/-- A probe answered for a cell: a cooldown it disproves ends. -/
def endRateLimitCooldown (states : CircuitStates) (credentialId : String) (model : Option String)
    (now : Number) : Bool × CircuitStates :=
  let key := cellKey credentialId model
  match states.get? key with
  | none => (false, states)
  | some state =>
    match state.cooldownSource with
    | none => (false, states)
    | some source =>
      if state.cooldownUntil.le now then (false, states)
      else if !PROBE_SUCCESS_ENDS_COOLDOWN source then (false, states)
      else if !probeDisprovesCooldown source state.lastStatus then (false, states)
      else (true, states.set key { state with cooldownUntil := 0, cooldownSource := none })

/-! ## Rows -/

/-- One persisted cell; what is absent has the value of a fresh cell. -/
structure BreakerCellRow where
  provider : String
  model : Option String
  kind : ProviderKind
  credentialId : String
  base : Option String
  cooldownUntil : Number
  cooldownSource : Option CooldownSource
  unexplained429s : Nat
  lastStatus : Option Nat
  consecutiveFailures : Option Nat
  lastFailureTime : Option Number
  credentialFailures : Option Nat
  lastCredentialStatus : Option Nat
  credentialFaultUntil : Option Number
  pings : Option (List PingRecord)
  quotaObservations : Option (List QuotaObservation)
  deriving DecidableEq

/-- The row of a cell. -/
def CircuitState.row (state : CircuitState) : BreakerCellRow where
  provider := state.target.provider
  model := state.target.model
  kind := state.target.kind
  credentialId := state.target.credentialId
  base := state.target.base
  cooldownUntil := state.cooldownUntil
  cooldownSource := state.cooldownSource
  unexplained429s := state.unexplained429s
  lastStatus := state.lastStatus
  consecutiveFailures := some state.consecutiveFailures
  lastFailureTime := some state.lastFailureTime
  credentialFailures := some state.credentialFailures
  lastCredentialStatus := state.lastCredentialStatus
  credentialFaultUntil := some state.credentialFaultUntil
  pings := some state.pings
  quotaObservations := some state.quotaObservations

/-- Every cell, with every persisted field. -/
def exportState (states : CircuitStates) : List BreakerCellRow :=
  states.values.map CircuitState.row

/-- The target of a row. -/
def BreakerCellRow.target (row : BreakerCellRow) : ProviderTargetIdentity :=
  ⟨row.provider, row.model, row.kind, row.credentialId, row.base⟩

/-- The cell of a row; only the newest pings are kept. -/
def BreakerCellRow.cell (row : BreakerCellRow) : CircuitState where
  target := row.target
  consecutiveFailures := row.consecutiveFailures.getD 0
  lastFailureTime := row.lastFailureTime.getD 0
  cooldownUntil := row.cooldownUntil
  cooldownSource := row.cooldownSource
  unexplained429s := row.unexplained429s
  lastStatus := row.lastStatus
  pings :=
    let pings := row.pings.getD []
    pings.drop (pings.length - MAX_PING_HISTORY)
  quotaObservations := row.quotaObservations.getD []
  credentialFailures := row.credentialFailures.getD 0
  lastCredentialStatus := row.lastCredentialStatus
  credentialFaultUntil := row.credentialFaultUntil.getD 0

/-- Restores one row, unless its cell exists already. -/
def restoreRow (states : CircuitStates) (row : BreakerCellRow) : CircuitStates :=
  let key := getKey row.target
  if states.has key then states else states.set key row.cell

/-- Restores rows. -/
def restoreState (states : CircuitStates) (rows : List BreakerCellRow) : CircuitStates :=
  rows.foldl restoreRow states

/-! ## Writes -/

/-- A call of a direct writer. -/
inductive DirectWrite where
  | recordOutcome (target : ProviderTargetIdentity) (outcome : HealthOutcome)
  | recordCredentialFault (target : ProviderTargetIdentity) (status : Nat) (at_ : Number)
  | clearCredentialFaults (credentialId : String)
  | clearCredentialFaultState (selector : CooldownClearSelector)
  | clearCooldownState (selector : CooldownClearSelector)
  | recordQuotaCooldown (target : ProviderTargetIdentity) (until_ at_ : Number)
  | endRateLimitCooldown (credentialId : String) (model : Option String) (at_ : Number)
  | restoreState (rows : List BreakerCellRow)
  deriving DecidableEq

/-- Whatever writes cells: a completed attempt, a reset, or a direct writer. -/
inductive CellWrite where
  | terminal (target : ProviderTargetIdentity) (outcome : AttemptOutcome)
      (observation : Option HeaderObservation)
  | reset
  | direct (write : DirectWrite)
  deriving DecidableEq

section Apply

variable [Url]

/-- What a direct writer does to the cells. -/
def DirectWrite.apply (states : CircuitStates) : DirectWrite → CircuitStates
  | recordOutcome target outcome => applyHealthOutcome states target outcome
  | recordCredentialFault target status at_ => applyCredentialFault states target status at_
  | clearCredentialFaults credentialId => (LlmRelay.clearCredentialFaults states credentialId).2
  | clearCredentialFaultState selector => (LlmRelay.clearCredentialFaultState states selector).2
  | clearCooldownState selector => (LlmRelay.clearCooldownState states selector).2
  | recordQuotaCooldown target until_ at_ => LlmRelay.recordQuotaCooldown states target until_ at_
  | endRateLimitCooldown credentialId model at_ =>
    (LlmRelay.endRateLimitCooldown states credentialId model at_).2
  | restoreState rows => LlmRelay.restoreState states rows

/-- What a write does to the cells. -/
def CellWrite.apply (states : CircuitStates) : CellWrite → CircuitStates
  | terminal target outcome observation => applyTerminalOutcome states target outcome observation
  | reset => .empty
  | direct write => write.apply states

/-- The cells some writes leave. -/
def applyWrites (states : CircuitStates) (writes : List CellWrite) : CircuitStates :=
  writes.foldl CellWrite.apply states

@[simp] theorem applyWrites_append (states : CircuitStates) (writes writes' : List CellWrite) :
    applyWrites states (writes ++ writes') = applyWrites (applyWrites states writes) writes' :=
  List.foldl_append

end Apply

/-! ## Operations of a world -/

/-- An operation: a call of the attempt lifecycle, or of a direct writer of the
breaker `b`. -/
inductive Operation where
  | lifecycle (call : Call)
  | direct (b : Ref) (write : DirectWrite)

/-- The answer to an operation. -/
inductive Answer where
  | reply (reply : Reply)
  | written
  | noBreaker

/-- One operation. -/
def World.operate [Url] (w : World) : Operation → World × Answer
  | .lifecycle call => ((w.step call).1, .reply (w.step call).2)
  | .direct b write =>
    match w.breakers.get? b with
    | none => (w, .noBreaker)
    | some breaker =>
      (w.update b w.heap { breaker with states := write.apply breaker.states }, .written)

/-- The lease table and the writes of a breaker. -/
structure WriteLog where
  ledger : Ledger
  writes : List CellWrite

/-- What an answered operation writes to the cells of the breaker `b`; the ledger says
which target and headers a handle stands for. -/
def Operation.writes (b : Ref) (ledger : Ledger) : Operation × Answer → List CellWrite
  | (.lifecycle (.completeAttempt b' (.object handle) outcome), .reply (.completed (.ok _))) =>
    if b' = b then
      (ledger.leases.get? handle).toList.map fun lease =>
        .terminal lease.target outcome lease.observation
    else []
  | (.lifecycle (.reset b'), .reply (.wasReset _)) => if b' = b then [.reset] else []
  | (.direct b' write, .written) => if b' = b then [.direct write] else []
  | _ => []

/-- What an answered operation does to the log of the breaker `b`. -/
def WriteLog.record (b : Ref) (log : WriteLog) (event : Operation × Answer) : WriteLog where
  ledger := match event with
    | (.lifecycle call, .reply reply) => log.ledger.record b (call, reply)
    | _ => log.ledger
  writes := log.writes ++ Operation.writes b log.ledger event

/-- The log of the breaker `b` after a history. -/
def writeLog (b : Ref) (events : List (Operation × Answer)) : WriteLog :=
  events.foldl (WriteLog.record b) ⟨.blank, []⟩

/-- What the operations of a history write to the cells of the breaker `b`, in order. -/
def writesOf (b : Ref) (events : List (Operation × Answer)) : List CellWrite :=
  (writeLog b events).writes

/-! ## The lifecycle does not see the cells -/

/-- Two breakers that differ in their cells only. -/
def CircuitBreaker.SameLifecycle (breaker₀ breaker : CircuitBreaker) : Prop :=
  breaker = { breaker₀ with states := breaker.states }

section States

variable (breaker : CircuitBreaker) (heap : HandleHeap) (states : CircuitStates)

theorem beginAttempt_withStates (target : ProviderTargetIdentity) (start : AttemptStartOptions)
    (dateNow : Number) :
    ({ breaker with states } : CircuitBreaker).beginAttempt heap target start dateNow
      = ((breaker.beginAttempt heap target start dateNow).1,
          (breaker.beginAttempt heap target start dateNow).2.1,
          { (breaker.beginAttempt heap target start dateNow).2.2 with states }) := by
  unfold CircuitBreaker.beginAttempt
  dsimp only
  split <;> rfl

theorem observeHeaders_withStates (handle : AttemptHandle) (observation : HeaderObservation) :
    ({ breaker with states } : CircuitBreaker).observeHeaders heap handle observation
      = ((breaker.observeHeaders heap handle observation).1,
          { (breaker.observeHeaders heap handle observation).2 with states }) := by
  have hrecord : ({ breaker with states } : CircuitBreaker).getAttemptRecord heap handle
      = breaker.getAttemptRecord heap handle := rfl
  unfold CircuitBreaker.observeHeaders
  rw [hrecord]
  split
  · rfl
  · split
    · rfl
    · split
      · rfl
      · split <;> rfl

theorem completeAttempt_withStates [Url] (handle : AttemptHandle) (outcome : AttemptOutcome) :
    ∃ states',
      ({ breaker with states } : CircuitBreaker).completeAttempt heap handle outcome
        = ((breaker.completeAttempt heap handle outcome).1,
            (breaker.completeAttempt heap handle outcome).2.1,
            { (breaker.completeAttempt heap handle outcome).2.2 with states := states' }) := by
  have hrecord : ({ breaker with states } : CircuitBreaker).getAttemptRecord heap handle
      = breaker.getAttemptRecord heap handle := rfl
  unfold CircuitBreaker.completeAttempt
  rw [hrecord]
  split
  · exact ⟨states, rfl⟩
  · split
    · exact ⟨states, rfl⟩
    · split
      · exact ⟨states, rfl⟩
      · dsimp only
        split
        · exact ⟨states, rfl⟩
        · exact ⟨_, rfl⟩

theorem reset_withStates :
    ({ breaker with states } : CircuitBreaker).reset heap = breaker.reset heap := rfl

end States

/-- Two worlds that differ in the cells of their breakers only. -/
structure World.SameLifecycle (w₀ w : World) : Prop where
  heap : w₀.heap = w.heap
  absent : ∀ b, w₀.breakers.get? b = none ↔ w.breakers.get? b = none
  breakers : ∀ b breaker₀ breaker, w₀.breakers.get? b = some breaker₀ →
    w.breakers.get? b = some breaker → breaker₀.SameLifecycle breaker

namespace World.SameLifecycle

variable {w₀ w : World}

theorem refl (w : World) : w.SameLifecycle w where
  heap := rfl
  absent := fun _ => Iff.rfl
  breakers := fun b breaker₀ breaker h₀ h => by
    rw [h₀, Option.some.injEq] at h
    rw [h]
    rfl

variable (h : w₀.SameLifecycle w)

include h

theorem update (b : Ref) (heap : HandleHeap)
    {breaker₀ breaker : CircuitBreaker} (hsame : breaker₀.SameLifecycle breaker) :
    (w₀.update b heap breaker₀).SameLifecycle (w.update b heap breaker) where
  heap := rfl
  absent := fun c => by
    simp only [World.update, OrderedMap.get?_set]
    split_ifs
    · simp
    · exact h.absent c
  breakers := fun c breaker₀' breaker' h₀ h' => by
    simp only [World.update, OrderedMap.get?_set] at h₀ h'
    split_ifs at h₀ h'
    · cases h₀
      cases h'
      exact hsame
    · exact h.breakers c _ _ h₀ h'

theorem update_states {b : Ref} {breaker : CircuitBreaker}
    (hb : w.breakers.get? b = some breaker) (states : CircuitStates) :
    w₀.SameLifecycle (w.update b w.heap { breaker with states }) := by
  cases hb₀ : w₀.breakers.get? b with
  | none =>
    have := (h.absent b).mp hb₀
    rw [hb] at this
    cases this
  | some breaker₀ =>
    have hsame : breaker₀.SameLifecycle { breaker with states } := by
      have hold := h.breakers b _ _ hb₀ hb
      unfold CircuitBreaker.SameLifecycle at hold ⊢
      rw [hold]
    have hupdated := h.update b w₀.heap hsame
    rw [World.update_self hb₀, h.heap] at hupdated
    exact hupdated

/-- **A lifecycle call is answered alike** in worlds that differ in their cells only. -/
theorem step [Url] (call : Call) :
    (w₀.step call).2 = (w.step call).2 ∧ (w₀.step call).1.SameLifecycle (w.step call).1 := by
  have hcells : ∀ b breaker₀, w₀.breakers.get? b = some breaker₀ →
      ∃ states, w.breakers.get? b = some { breaker₀ with states } := by
    intro b breaker₀ hb₀
    cases hb : w.breakers.get? b with
    | none =>
      rw [← h.absent b, hb₀] at hb
      cases hb
    | some breaker => exact ⟨breaker.states, by rw [← h.breakers b _ _ hb₀ hb]⟩
  cases call with
  | construct =>
    simp only [World.step, h.heap]
    exact ⟨trivial, h.update _ _ rfl⟩
  | beginAttempt b target start dateNow =>
    cases hb₀ : w₀.breakers.get? b with
    | none =>
      simp only [World.step, hb₀, (h.absent b).mp hb₀]
      exact ⟨trivial, h⟩
    | some breaker₀ =>
      obtain ⟨states, hb⟩ := hcells b breaker₀ hb₀
      simp only [World.step, hb₀, hb, h.heap, beginAttempt_withStates]
      exact ⟨trivial, h.update b _ rfl⟩
  | observeHeaders b handle observation =>
    cases hb₀ : w₀.breakers.get? b with
    | none =>
      simp only [World.step, hb₀, (h.absent b).mp hb₀]
      exact ⟨trivial, h⟩
    | some breaker₀ =>
      obtain ⟨states, hb⟩ := hcells b breaker₀ hb₀
      simp only [World.step, hb₀, hb, h.heap, observeHeaders_withStates]
      exact ⟨trivial, h.update b _ rfl⟩
  | completeAttempt b handle outcome =>
    cases hb₀ : w₀.breakers.get? b with
    | none =>
      simp only [World.step, hb₀, (h.absent b).mp hb₀]
      exact ⟨trivial, h⟩
    | some breaker₀ =>
      obtain ⟨states, hb⟩ := hcells b breaker₀ hb₀
      obtain ⟨states', hcomplete⟩ :=
        completeAttempt_withStates breaker₀ w.heap states handle outcome
      simp only [World.step, hb₀, hb, h.heap, hcomplete]
      exact ⟨trivial, h.update b _ rfl⟩
  | reset b =>
    cases hb₀ : w₀.breakers.get? b with
    | none =>
      simp only [World.step, hb₀, (h.absent b).mp hb₀]
      exact ⟨trivial, h⟩
    | some breaker₀ =>
      obtain ⟨states, hb⟩ := hcells b breaker₀ hb₀
      simp only [World.step, hb₀, hb, h.heap, reset_withStates]
      exact ⟨trivial, h.update b _ rfl⟩

end World.SameLifecycle

/-! ## The cells are the writes -/

@[simp] theorem writeLog_snoc (b : Ref) (events : List (Operation × Answer))
    (event : Operation × Answer) :
    writeLog b (events ++ [event]) = (writeLog b events).record b event := by
  simp [writeLog]

/-- The cells of a breaker; a breaker that does not exist has none. -/
def World.statesOf (w : World) (b : Ref) : CircuitStates :=
  ((w.breakers.get? b).map (·.states)).getD .empty

variable {breaker : CircuitBreaker}

theorem World.statesOf_of_some {w : World} {b : Ref}
    (h : w.breakers.get? b = some breaker) : w.statesOf b = breaker.states := by
  simp [statesOf, h]

@[simp] theorem World.statesOf_update (w : World) (b b' : Ref) (heap : HandleHeap)
    (breaker : CircuitBreaker) :
    (w.update b heap breaker).statesOf b' = if b = b' then breaker.states else w.statesOf b' := by
  simp only [statesOf, update, OrderedMap.get?_set]
  split <;> rfl

theorem CircuitBreaker.states_beginAttempt (breaker : CircuitBreaker) (heap : HandleHeap)
    (target : ProviderTargetIdentity) (start : AttemptStartOptions) (dateNow : Number) :
    (breaker.beginAttempt heap target start dateNow).2.2.states = breaker.states := by
  rcases breaker.beginAttempt_cases heap target start dateNow with
    ⟨failure, hfail⟩ | ⟨known, lifecycle, starts, -, hok⟩
  · rw [hfail]
  · rw [hok]

theorem CircuitBreaker.states_observeHeaders (breaker : CircuitBreaker) (heap : HandleHeap)
    (handle : AttemptHandle) (observation : HeaderObservation) :
    (breaker.observeHeaders heap handle observation).2.states = breaker.states := by
  rcases breaker.observeHeaders_cases heap handle observation with
    ⟨failure, hfail⟩ | ⟨ref, record, -, -, -, hok⟩
  · rw [hfail]
  · rw [hok]

/-- A world and its history: another world, where only the lifecycle was called, has
the same lifecycle, and the cells are the writes. -/
structure World.Written [Url] (w₀ w : World) (calls : List (Call × Reply))
    (events : List (Operation × Answer)) : Prop where
  consistent : w₀.Consistent calls
  same : w₀.SameLifecycle w
  ledger : ∀ b, (writeLog b events).ledger = ledgerOf b calls
  states : ∀ b, w.statesOf b = applyWrites .empty (writesOf b events)

namespace World.Written

variable [Url] {w₀ w : World} {calls : List (Call × Reply)} {events : List (Operation × Answer)}

theorem initial : World.Written World.initial World.initial [] [] where
  consistent := .initial
  same := .refl _
  ledger := fun _ => rfl
  states := fun _ => rfl

variable (h : World.Written w₀ w calls events)

include h

theorem get?_nextRef : w.breakers.get? w.heap.nextRef = none := by
  rw [← h.same.absent, ← h.same.heap]
  cases hb : w₀.breakers.get? w₀.heap.nextRef with
  | none => rfl
  | some breaker => exact absurd (h.consistent.breakers _ breaker hb).1 (lt_irrefl _)

theorem lease_eq {b ref : Ref}
    {record : BreakerAttemptRecord} (hb : w.breakers.get? b = some breaker)
    (hrecord : breaker.attempts.get? ref = some record)
    (hgeneration : record.generation = breaker.generation) :
    (ledgerOf b calls).leases.get? ref = some record.lease := by
  cases hb₀ : w₀.breakers.get? b with
  | none =>
    rw [h.same.absent, hb] at hb₀
    cases hb₀
  | some breaker₀ =>
    have hsame := h.same.breakers b _ _ hb₀ hb
    have hattempts : breaker₀.attempts = breaker.attempts := by rw [hsame]
    have hgen : breaker₀.generation = breaker.generation := by rw [hsame]
    exact (h.consistent.breakers b _ hb₀).2.lease_eq (hattempts ▸ hrecord) (hgen ▸ hgeneration)

theorem statesOf_operate (op : Operation) (b : Ref) :
    (w.operate op).1.statesOf b
      = applyWrites (w.statesOf b)
          (Operation.writes b (ledgerOf b calls) (op, (w.operate op).2)) := by
  cases op with
  | direct b' write =>
    cases hb : w.breakers.get? b' with
    | none => simp only [operate, hb, Operation.writes, applyWrites, List.foldl_nil]
    | some breaker =>
      simp only [operate, hb, Operation.writes]
      by_cases heq : b' = b
      · subst heq
        simp [statesOf_of_some hb, applyWrites, CellWrite.apply]
      · simp [heq, applyWrites]
  | lifecycle call =>
    cases call with
    | construct =>
      -- the new breaker has no cells, and neither had its identity
      simp only [operate, World.step, statesOf_update]
      split
      · rename_i heq
        rw [← heq, statesOf, h.get?_nextRef]
        rfl
      · rfl
    | beginAttempt b' target start dateNow =>
      cases hb : w.breakers.get? b' with
      | none => simp only [operate, World.step, hb, Operation.writes, applyWrites, List.foldl_nil]
      | some breaker =>
        simp only [operate, World.step, hb, Operation.writes, applyWrites, List.foldl_nil,
          statesOf_update, CircuitBreaker.states_beginAttempt]
        split
        · rename_i heq
          rw [← heq, statesOf_of_some hb]
        · rfl
    | observeHeaders b' handle observation =>
      cases hb : w.breakers.get? b' with
      | none => simp only [operate, World.step, hb, Operation.writes, applyWrites, List.foldl_nil]
      | some breaker =>
        simp only [operate, World.step, hb, Operation.writes, applyWrites, List.foldl_nil,
          statesOf_update, CircuitBreaker.states_observeHeaders]
        split
        · rename_i heq
          rw [← heq, statesOf_of_some hb]
        · rfl
    | completeAttempt b' handle outcome =>
      cases hb : w.breakers.get? b' with
      | none =>
        simp only [operate, World.step, hb]
        cases handle <;> rfl
      | some breaker =>
        rcases breaker.completeAttempt_cases w.heap handle outcome with ⟨failure, hfail⟩ |
          ⟨ref, record, known, done, rfl, hrecord, hgeneration, -, -, -, hok⟩
        · simp only [operate, World.step, hb, hfail, update_self hb]
          cases handle <;> rfl
        · have hlease := h.lease_eq hb hrecord hgeneration
          simp only [operate, World.step, hb, hok, Operation.writes]
          by_cases heq : b' = b
          · subst heq
            simp [hlease, applyWrites, CellWrite.apply, statesOf_of_some hb,
              BreakerAttemptRecord.lease]
          · simp [heq, applyWrites]
    | reset b' =>
      cases hb : w.breakers.get? b' with
      | none => simp only [operate, World.step, hb, Operation.writes, applyWrites, List.foldl_nil]
      | some breaker =>
        obtain ⟨-, -, hstates, -⟩ := breaker.reset_spec w.heap
        simp only [operate, World.step, hb, Operation.writes, statesOf_update, hstates]
        by_cases heq : b' = b
        · simp [heq, applyWrites, CellWrite.apply]
        · simp [heq, applyWrites]

/-- **One operation** is written down. -/
theorem operate (op : Operation) :
    ∃ w₀' calls', World.Written w₀' (w.operate op).1 calls'
      (events ++ [(op, (w.operate op).2)]) := by
  have hstates : ∀ b, (w.operate op).1.statesOf b
      = applyWrites .empty (writesOf b (events ++ [(op, (w.operate op).2)])) := by
    intro b
    rw [h.statesOf_operate, h.states, writesOf, writesOf, writeLog_snoc, ← h.ledger,
      ← applyWrites_append]
    rfl
  cases op with
  | lifecycle call =>
    obtain ⟨hreply, hsame⟩ := h.same.step call
    refine ⟨(w₀.step call).1, calls ++ [(call, (w₀.step call).2)], h.consistent.step call,
      hsame, fun b => ?_, hstates⟩
    rw [writeLog_snoc, ledgerOf_snoc, hreply, ← h.ledger]
    rfl
  | direct b' write =>
    refine ⟨w₀, calls, h.consistent, ?_, fun b => ?_, hstates⟩
    · cases hb : w.breakers.get? b' with
      | none => simpa only [World.operate, hb] using h.same
      | some breaker => simpa only [World.operate, hb] using h.same.update_states hb _
    · rw [writeLog_snoc, ← h.ledger]
      rfl

end World.Written

/-- **The cells are the writes**: after any operations, the cells of a breaker are what
its completions, resets and direct writers wrote, in order. -/
theorem World.states_eq_writes [Url] (ops : List Operation) (b : Ref) :
    (finalState World.operate World.initial ops).statesOf b
      = applyWrites .empty (writesOf b (history World.operate World.initial ops)) := by
  have h : ∃ w₀ calls, World.Written w₀ (finalState World.operate World.initial ops) calls
      (history World.operate World.initial ops) := by
    refine run_invariant (I := fun w events => ∃ w₀ calls, World.Written w₀ w calls events)
      World.operate ⟨_, _, .initial⟩ ?_ ops
    rintro w events op ⟨w₀, calls, hw⟩
    exact hw.operate op
  obtain ⟨w₀, calls, hw⟩ := h
  exact hw.states b

/-! ## What writes carry -/

/-- Conditions on what operations carry. -/
structure Conditions where
  target : ProviderTargetIdentity → Prop
  observation : HeaderObservation → Prop
  outcome : AttemptOutcome → Prop
  direct : DirectWrite → Prop

/-- What an operation carries meets the conditions. -/
def Operation.Meets (conditions : Conditions) : Operation → Prop
  | .lifecycle (.beginAttempt _ target _ _) => conditions.target target
  | .lifecycle (.observeHeaders _ _ observation) => conditions.observation observation
  | .lifecycle (.completeAttempt _ _ outcome) => conditions.outcome outcome
  | .lifecycle _ => True
  | .direct _ write => conditions.direct write

/-- What a write carries meets the conditions. -/
def CellWrite.Meets (conditions : Conditions) : CellWrite → Prop
  | terminal target outcome observation =>
    conditions.target target ∧ conditions.outcome outcome ∧
      ∀ o, observation = some o → conditions.observation o
  | reset => True
  | direct write => conditions.direct write

/-- The leases of a ledger meet the conditions. -/
def Ledger.Meets (conditions : Conditions) (ledger : Ledger) : Prop :=
  ∀ h lease, ledger.leases.get? h = some lease →
    conditions.target lease.target ∧ ∀ o, lease.observation = some o → conditions.observation o

section Meets

variable {conditions : Conditions} {ledger : Ledger}

theorem Ledger.Meets.set (h : ledger.Meets conditions) {handle : Ref} {lease : Lease}
    (htarget : conditions.target lease.target)
    (hobservation : ∀ o, lease.observation = some o → conditions.observation o)
    {completions : List Ref} {effects : List Effect} :
    Ledger.Meets conditions ⟨ledger.leases.set handle lease, completions, effects⟩ := by
  intro handle' lease' hget
  simp only [OrderedMap.get?_set] at hget
  split_ifs at hget
  · rw [← Option.some.inj hget]
    exact ⟨htarget, hobservation⟩
  · exact h handle' lease' hget

theorem Ledger.Meets.record (h : ledger.Meets conditions) (b : Ref) {call : Call}
    (hcall : Operation.Meets conditions (.lifecycle call)) {reply : Reply}
    (hreply : ∀ handle o o', call = .observeHeaders b handle o → reply = .observed (.ok o') → o' = o) :
    (ledger.record b (call, reply)).Meets conditions := by
  unfold Ledger.record
  split
  · rename_i heq
    cases heq
    split
    · refine h.set ?_ fun _ ho => (by cases ho)
      exact hcall
    · exact h
  · rename_i heq
    cases heq
    split
    · rename_i hb
      subst hb
      unfold Ledger.observe
      split
      · exact h
      · rename_i lease hlease
        refine h.set ?_ fun o ho => ?_
        · exact (h _ lease hlease).1
        · rw [← Option.some.inj ho, hreply _ _ _ rfl rfl]
          exact hcall
    · exact h
  · split
    · unfold Ledger.complete
      split
      · exact h
      · rename_i lease hlease
        refine h.set ?_ ?_
        · exact (h _ lease hlease).1
        · exact (h _ lease hlease).2
    · exact h
  · split
    · exact fun _ _ hget => by cases hget
    · exact h
  · exact h

/-- An answered operation writes what it carries. -/
theorem Operation.Meets.writes {op : Operation} (h : op.Meets conditions) (b : Ref)
    (hledger : ledger.Meets conditions) (answer : Answer) :
    ∀ write ∈ Operation.writes b ledger (op, answer), write.Meets conditions := by
  intro write hwrite
  unfold Operation.writes at hwrite
  split at hwrite
  · rename_i heq
    cases heq
    split at hwrite
    · rw [List.mem_map] at hwrite
      obtain ⟨lease, hlease, rfl⟩ := hwrite
      obtain ⟨htarget, hobservation⟩ := hledger _ lease (Option.mem_toList.mp hlease)
      exact ⟨htarget, h, hobservation⟩
    · cases hwrite
  · split at hwrite
    · rw [List.mem_singleton.mp hwrite]
      trivial
    · cases hwrite
  · rename_i heq
    cases heq
    split at hwrite
    · rw [List.mem_singleton.mp hwrite]
      exact h
    · cases hwrite
  · cases hwrite

theorem World.observed_eq [Url] {w : World} {b : Ref} {handle : AttemptHandle}
    {observation o : HeaderObservation}
    (h : (w.step (.observeHeaders b handle observation)).2 = .observed (.ok o)) :
    o = observation := by
  cases hb : w.breakers.get? b with
  | none =>
    simp only [World.step, hb] at h
    cases h
  | some breaker =>
    rcases breaker.observeHeaders_cases w.heap handle observation with
      ⟨failure, hfail⟩ | ⟨ref, record, -, -, -, hok⟩
    · simp only [World.step, hb, hfail] at h
      cases h
    · simp only [World.step, hb, hok] at h
      cases h
      rfl

/-- **Operations write what they carry**: where the operations of a run meet some
conditions, so do the writes. -/
theorem World.meets_writesOf [Url] {ops : List Operation} (h : ∀ op ∈ ops, op.Meets conditions)
    (b : Ref) :
    ∀ write ∈ writesOf b (history World.operate World.initial ops), write.Meets conditions := by
  have hlog : (writeLog b (history World.operate World.initial ops)).ledger.Meets conditions ∧
      ∀ write ∈ writesOf b (history World.operate World.initial ops),
        write.Meets conditions := by
    induction ops using List.reverseRecOn with
    | nil => exact ⟨fun _ _ hget => (by cases hget), fun _ hmem => absurd hmem List.not_mem_nil⟩
    | append_singleton ops op ih =>
      obtain ⟨hledger, hwrites⟩ := ih fun op' hop' => h op' (List.mem_append_left _ hop')
      have hop := h op (by simp)
      rw [writesOf, history_snoc, writeLog_snoc]
      constructor
      · cases op with
        | direct b' write =>
          cases hb : (finalState World.operate World.initial ops).breakers.get? b' with
          | none => simpa only [WriteLog.record] using hledger
          | some breaker => simpa only [WriteLog.record] using hledger
        | lifecycle call =>
          refine hledger.record b hop ?_
          rintro handle o o' rfl hreply
          exact World.observed_eq hreply
      · intro write hwrite
        rcases List.mem_append.mp hwrite with hold | hnew
        · exact hwrites write hold
        · exact hop.writes b hledger _ write hnew
  exact hlog.2

end Meets

end LlmRelay
