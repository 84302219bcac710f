import LlmRelay.Ecma.OrderedMap
import LlmRelay.Ecma.Url
import LlmRelay.Kernel.Contracts

/-!
# Circuit-breaker cells

The health state a breaker keeps for one credential and model, and what a
terminal outcome does to it (`circuit-breaker.ts`).

## Main definitions

* `CircuitState`: the state of a cell;
* `CircuitState.recordHealth`, `CircuitState.recordCredentialFault`,
  `CircuitState.recordQuota`: the three writers, on one cell;
* `applyTerminalOutcome`: what a completed attempt does to the cells;
* `recordAttemptStart`: the attempt-start log of a cell.

## Main results

* `get?_applyTerminalOutcome_of_ne`: a terminal outcome leaves every cell but
  its own alone.
-/

namespace LlmRelay

open Ecma

/-! ## Constants -/

def DEFAULT_COOLDOWN_MS : Number := 60000

def CANCELLATION_EVIDENCE_MS : Number := DEFAULT_COOLDOWN_MS

def RATE_LIMIT_ESCALATION_MS : List Number := [120000, 600000, 3600000, 86400000]

def FAILURE_ESCALATION_MS : List Number := [600000, 3600000, 21600000, 86400000]

def LOOPBACK_RATE_LIMIT_COOLDOWN_MS : Number := 5000

def QUOTA_EXHAUSTED_COOLDOWN_MS : Number := 3600000

def MAX_FAILURES_BEFORE_TRIP : Nat := 2

def MAX_PING_HISTORY : Nat := 10

def CREDENTIAL_FAULT_TTL_MS : Number := 300000

def MIN_RETRY_AFTER_MS : Number := 1000

def MAX_RETRY_AFTER_MS : Number := 900000

def ATTEMPT_START_WINDOW_MS : Number := 86400000

def MAX_ATTEMPT_STARTS : Nat := 10000

/-! ## The cell -/

/-- Why a cell is cooling. -/
inductive CooldownSource where
  | default
  | escalation
  | retryAfter
  | loopback
  | quota
  | elapsed
  | failureEscalation
  deriving DecidableEq, Repr

/-- Where a health sample comes from. -/
inductive PingSource where
  | probe
  | request
  deriving DecidableEq, Repr

/-- One health sample; the breaker states neither tokens nor a source. -/
structure PingRecord where
  ms : Number
  code : String
  timestamp : Number
  tokens : Option Number := none
  source : Option PingSource := none
  deriving DecidableEq

/-- The state of one credential/model cell. -/
structure CircuitState where
  target : ProviderTargetIdentity
  consecutiveFailures : Nat
  lastFailureTime : Number
  cooldownUntil : Number
  cooldownSource : Option CooldownSource
  unexplained429s : Nat
  lastStatus : Option Nat
  pings : List PingRecord
  quotaObservations : List QuotaObservation
  credentialFailures : Nat
  lastCredentialStatus : Option Nat
  credentialFaultUntil : Number
  deriving DecidableEq

/-- The state a cell is created with. -/
def CircuitState.fresh (target : ProviderTargetIdentity) : CircuitState where
  target
  consecutiveFailures := 0
  lastFailureTime := 0
  cooldownUntil := 0
  cooldownSource := none
  unexplained429s := 0
  lastStatus := none
  pings := []
  quotaObservations := []
  credentialFailures := 0
  lastCredentialStatus := none
  credentialFaultUntil := 0

/-- The cells of a breaker, by cell key. -/
abbrev CircuitStates := OrderedMap String CircuitState

/-- The cell key of a credential and model. -/
def cellKey (credentialId : String) : Option String → String
  | none => credentialId
  | some model => credentialId ++ "/" ++ model

/-- The cell key of a target. -/
def getKey (target : ProviderTargetIdentity) : String :=
  cellKey target.credentialId target.model

/-- The cell of a target, created fresh where it is missing. -/
def cellOf (states : CircuitStates) (target : ProviderTargetIdentity) : CircuitState :=
  (states.get? (getKey target)).getD (CircuitState.fresh target)

/-- Applies a writer to the cell of a target, creating the cell first. -/
def updateCell (states : CircuitStates) (target : ProviderTargetIdentity)
    (write : CircuitState → CircuitState) : CircuitStates :=
  states.set (getKey target) (write (cellOf states target))

@[simp] theorem get?_updateCell (states : CircuitStates) (target : ProviderTargetIdentity)
    (write : CircuitState → CircuitState) :
    (updateCell states target write).get? (getKey target)
      = some (write (cellOf states target)) := by
  simp [updateCell]

theorem get?_updateCell_of_ne (states : CircuitStates) {target : ProviderTargetIdentity}
    {key : String} (write : CircuitState → CircuitState) (h : getKey target ≠ key) :
    (updateCell states target write).get? key = states.get? key :=
  states.get?_set_of_ne _ h

/-! ## Health writers -/

/-- A health outcome, as the writers of a cell take it. -/
structure HealthOutcome where
  ok : Bool
  status : Option Nat
  elapsedMs : Number
  at_ : Number
  quotaObservations : Option (List QuotaObservation)
  retryAfterMs : Option Number
  deriving DecidableEq

/-- The code a health sample is stored under. -/
def outcomeCode (ok : Bool) : Option Nat → String
  | none => if ok then "200" else "500"
  | some status => if 200 ≤ status && status < 300 then "200" else toString status

/-- How long a generic failure cools a cell, and why. -/
def failureCooldown (elapsedMs : Number) : Number × CooldownSource :=
  let wasted := if elapsedMs.isFinite then MAX_RETRY_AFTER_MS.min (Number.max 0 elapsedMs) else 0
  if DEFAULT_COOLDOWN_MS.lt wasted then (wasted, .elapsed) else (DEFAULT_COOLDOWN_MS, .default)

/-- The escalation floor of a consecutive-failure count. -/
def failureEscalationMs (consecutiveFailures : Nat) : Option Number :=
  if consecutiveFailures < MAX_FAILURES_BEFORE_TRIP + 1 then none
  else
    let index := consecutiveFailures - (MAX_FAILURES_BEFORE_TRIP + 1)
    FAILURE_ESCALATION_MS[Nat.min index (FAILURE_ESCALATION_MS.length - 1)]?

/-- Does the target's base address the local machine? -/
def isLoopbackTarget [Url] (target : ProviderTargetIdentity) : Bool :=
  match target.base with
  | none => false
  | some base =>
    match Url.hostname base with
    | none => false
    | some hostname => hostname.toLower = "127.0.0.1" || hostname.toLower = "localhost"

/-- Merges observations by axis and period; a later one replaces an earlier one
in its place. -/
def mergeQuotaObservations (sets : List (List QuotaObservation)) : List QuotaObservation :=
  (sets.flatten.foldl
    (fun (merged : OrderedMap (QuotaAxis × QuotaPeriod) QuotaObservation) observation =>
      merged.set (observation.axis, observation.period) observation)
    OrderedMap.empty).values

namespace CircuitState

/-- Merges a batch of quota observations into the cell. -/
def recordQuota (state : CircuitState) (observations : List QuotaObservation) : CircuitState :=
  { state with
    quotaObservations := mergeQuotaObservations [state.quotaObservations, observations] }

/-- The clamped `Retry-After` of an outcome. -/
def asked (outcome : HealthOutcome) : Option Number :=
  outcome.retryAfterMs.map fun ms => MAX_RETRY_AFTER_MS.min (MIN_RETRY_AFTER_MS.max ms)

/-- Sets a cooldown that ends `ms` after `now`. -/
def coolFor (state : CircuitState) (now ms : Number) (source : CooldownSource) : CircuitState :=
  { state with cooldownUntil := now.add ms, cooldownSource := some source }

/-- The cooldown of a 429. -/
def coolRateLimited [Url] (state : CircuitState) (target : ProviderTargetIdentity)
    (outcome : HealthOutcome) : CircuitState :=
  match asked outcome with
  | some ms => state.coolFor outcome.at_ ms .retryAfter
  | none =>
    if isLoopbackTarget target then
      state.coolFor outcome.at_ LOOPBACK_RATE_LIMIT_COOLDOWN_MS .loopback
    else
      let unexplained429s := state.unexplained429s + 1
      let index := Nat.min (unexplained429s - 1) (RATE_LIMIT_ESCALATION_MS.length - 1)
      { state with unexplained429s }.coolFor outcome.at_ (RATE_LIMIT_ESCALATION_MS.getD index 0)
        (if unexplained429s = 1 then .default else .escalation)

/-- The cooldown of a 402. -/
def coolQuotaExhausted (state : CircuitState) (outcome : HealthOutcome) : CircuitState :=
  match asked outcome with
  | some ms => state.coolFor outcome.at_ ms .retryAfter
  | none =>
    let escalated := failureEscalationMs state.consecutiveFailures
    let ms := QUOTA_EXHAUSTED_COOLDOWN_MS.max (escalated.getD 0)
    state.coolFor outcome.at_ ms
      (if escalated.any QUOTA_EXHAUSTED_COOLDOWN_MS.lt then .failureEscalation else .default)

/-- The cooldown of every other failure. -/
def coolFailed (state : CircuitState) (outcome : HealthOutcome) : CircuitState :=
  match asked outcome with
  | some ms => state.coolFor outcome.at_ ms .retryAfter
  | none =>
    if MAX_FAILURES_BEFORE_TRIP ≤ state.consecutiveFailures then
      let cooling := failureCooldown outcome.elapsedMs
      match failureEscalationMs state.consecutiveFailures with
      | some escalated =>
        if cooling.1.lt escalated then state.coolFor outcome.at_ escalated .failureEscalation
        else state.coolFor outcome.at_ cooling.1 cooling.2
      | none => state.coolFor outcome.at_ cooling.1 cooling.2
    else state

/-- Appends a health sample, keeping the newest ones. -/
def pushPing (state : CircuitState) (outcome : HealthOutcome) : CircuitState :=
  let pings := state.pings ++
    [{ ms := outcome.elapsedMs
       code := outcomeCode outcome.ok outcome.status
       timestamp := outcome.at_ }]
  { state with
    lastStatus := outcome.status.or (if outcome.ok then some 200 else none)
    pings := if MAX_PING_HISTORY < pings.length then pings.drop 1 else pings }

/-- What a success proves: every demotion of the cell is lifted. -/
def recovered (state : CircuitState) : CircuitState :=
  { state with
    consecutiveFailures := 0
    cooldownUntil := 0
    cooldownSource := none
    unexplained429s := 0
    credentialFailures := 0
    credentialFaultUntil := 0
    lastCredentialStatus := none }

/-- `applyHealthOutcome`, on the cell it writes. -/
def recordHealth [Url] (state : CircuitState) (target : ProviderTargetIdentity)
    (outcome : HealthOutcome) : CircuitState :=
  let state := match outcome.quotaObservations with
    | none | some [] => state
    | some observations => state.recordQuota observations
  let state := state.pushPing outcome
  if outcome.ok then state.recovered
  else
    let state := { state with
      consecutiveFailures := state.consecutiveFailures + 1
      lastFailureTime := outcome.at_ }
    match outcome.status with
    | some 429 => state.coolRateLimited target outcome
    | some 402 => state.coolQuotaExhausted outcome
    | _ => state.coolFailed outcome

/-- `applyCredentialFault`, on the cell it writes. -/
def recordCredentialFault (state : CircuitState) (status : Nat) (now : Number) : CircuitState :=
  { state with
    credentialFailures := state.credentialFailures + 1
    lastCredentialStatus := some status
    credentialFaultUntil := now.add CREDENTIAL_FAULT_TTL_MS }

end CircuitState

/-! ## Terminal outcomes -/

/-- Which provenances reach the provider-health path. -/
def PROVENANCE_REACHES_HEALTH_PATH : OutcomeProvenance → Bool
  | .upstream => true
  | .invalidUpstreamEnvelope => true
  | .deadline => true
  | .clientCancellation => true
  | .relayMapperDefect => false

/-- Which cancellation causes reach the provider-health path. -/
def CANCELLATION_REACHES_HEALTH_PATH : AttemptCancellationCause → Bool
  | .clientGoneBeforeResponse => true
  | .clientGoneMidResponse => false
  | .relayAbandoned => false

/-- Writes a health outcome to the target's cell. -/
def applyHealthOutcome [Url] (states : CircuitStates) (target : ProviderTargetIdentity)
    (outcome : HealthOutcome) : CircuitStates :=
  updateCell states target fun state => state.recordHealth target outcome

/-- Records a credential fault on the target's cell. -/
def applyCredentialFault (states : CircuitStates) (target : ProviderTargetIdentity)
    (status : Nat) (now : Number) : CircuitStates :=
  updateCell states target fun state => state.recordCredentialFault status now

/-- Records quota observations on the target's cell; nothing to record creates
no cell. -/
def recordQuotaObservations (states : CircuitStates) (target : ProviderTargetIdentity) :
    Option (List QuotaObservation) → CircuitStates
  | none => states
  | some [] => states
  | some (observation :: rest) =>
    updateCell states target fun state => state.recordQuota (observation :: rest)

/-- What a cancellation teaches: a client that waited longer than the evidence
threshold and got nothing is a failure, anything else is silence. -/
def applyCancelledOutcome [Url] (states : CircuitStates) (target : ProviderTargetIdentity)
    (outcome : AttemptOutcome) (cause : AttemptCancellationCause) : CircuitStates :=
  if !CANCELLATION_REACHES_HEALTH_PATH cause then states
  else if !outcome.elapsedMs.isFinite || outcome.elapsedMs.le CANCELLATION_EVIDENCE_MS then states
  else
    applyHealthOutcome states target
      { ok := false
        status := none
        elapsedMs := outcome.elapsedMs
        at_ := outcome.completedAt
        quotaObservations := none
        retryAfterMs := none }

/-- A 4xx answer that says nothing about the provider's health. -/
def isNeutralClientError (status : Nat) : Bool :=
  400 ≤ status && status < 500
    && status ≠ 400 && status ≠ 402 && status ≠ 404 && status ≠ 429

/-- What a terminal outcome, with the headers observed for its attempt, does to
the cells. -/
def applyTerminalOutcome [Url] (states : CircuitStates) (target : ProviderTargetIdentity)
    (outcome : AttemptOutcome) (observation : Option HeaderObservation) : CircuitStates :=
  match outcome.terminal with
  | .cancelled cause _ => applyCancelledOutcome states target outcome cause
  | .succeeded status =>
    let states := recordQuotaObservations states target (observation.bind (·.quotaObservations))
    if !PROVENANCE_REACHES_HEALTH_PATH outcome.provenance then states
    else
      applyHealthOutcome states target
        { ok := true
          status := some status
          elapsedMs := outcome.elapsedMs
          at_ := outcome.completedAt
          quotaObservations := none
          retryAfterMs := none }
  | .failed _ status retryAfterMs =>
    let states := recordQuotaObservations states target (observation.bind (·.quotaObservations))
    if !PROVENANCE_REACHES_HEALTH_PATH outcome.provenance then states
    else if status = some 401 || status = some 403 then
      applyCredentialFault states target (status.getD 0) outcome.completedAt
    else if status.any isNeutralClientError then states
    else
      applyHealthOutcome states target
        { ok := false
          status
          elapsedMs := outcome.elapsedMs
          at_ := outcome.completedAt
          quotaObservations := none
          retryAfterMs := retryAfterMs.or (observation.bind (·.retryAfterMs)) }

/-! ## Health answers -/

/-- Is the target's cell out of its cooldown? -/
def isHealthy (states : CircuitStates) (target : ProviderTargetIdentity) (now : Number) : Bool :=
  (states.get? (getKey target)).all fun state => state.cooldownUntil.le now

/-- Has the target's cell an active credential fault? -/
def hasCredentialFault (states : CircuitStates) (target : ProviderTargetIdentity)
    (now : Number) : Bool :=
  (states.get? (getKey target)).any fun state => now.lt state.credentialFaultUntil

/-- Cools the target's cell until a known reset; a longer cooldown stays. -/
def recordQuotaCooldown (states : CircuitStates) (target : ProviderTargetIdentity)
    (until_ now : Number) : CircuitStates :=
  if !until_.isFinite || until_.le now then states
  else
    updateCell states target fun state =>
      if until_.le state.cooldownUntil then state
      else { state with cooldownUntil := until_, cooldownSource := some .quota }

/-! ### Framing -/

section Framing

variable (states : CircuitStates) {target : ProviderTargetIdentity} {key : String}
  (h : getKey target ≠ key)
include h

theorem get?_applyCredentialFault_of_ne (status : Nat) (now : Number) :
    (applyCredentialFault states target status now).get? key = states.get? key :=
  get?_updateCell_of_ne states _ h

theorem get?_recordQuotaObservations_of_ne (observations : Option (List QuotaObservation)) :
    (recordQuotaObservations states target observations).get? key = states.get? key := by
  match observations with
  | none => rfl
  | some [] => rfl
  | some (observation :: rest) => exact get?_updateCell_of_ne states _ h

variable [Url]

theorem get?_applyHealthOutcome_of_ne (outcome : HealthOutcome) :
    (applyHealthOutcome states target outcome).get? key = states.get? key :=
  get?_updateCell_of_ne states _ h

theorem get?_applyCancelledOutcome_of_ne (outcome : AttemptOutcome)
    (cause : AttemptCancellationCause) :
    (applyCancelledOutcome states target outcome cause).get? key = states.get? key := by
  unfold applyCancelledOutcome
  split_ifs
  · rfl
  · rfl
  · exact get?_applyHealthOutcome_of_ne states h _

/-- **A terminal outcome is local**: it leaves every cell but its own alone. -/
theorem get?_applyTerminalOutcome_of_ne (outcome : AttemptOutcome)
    (observation : Option HeaderObservation) :
    (applyTerminalOutcome states target outcome observation).get? key = states.get? key := by
  have hquota := get?_recordQuotaObservations_of_ne states h
    (observation.bind (·.quotaObservations))
  unfold applyTerminalOutcome
  cases outcome.terminal with
  | cancelled cause reason => exact get?_applyCancelledOutcome_of_ne states h outcome cause
  | succeeded status =>
    split_ifs
    · exact hquota
    · rw [get?_applyHealthOutcome_of_ne _ h, hquota]
  | failed failure status retryAfterMs =>
    simp only
    split_ifs
    · exact hquota
    · rw [get?_applyCredentialFault_of_ne _ h, hquota]
    · exact hquota
    · rw [get?_applyHealthOutcome_of_ne _ h, hquota]

end Framing

/-! ## The attempt-start log -/

/-- One started attempt. -/
structure AttemptStart where
  at_ : Number
  estimatedInputTokens : Option Number
  deriving DecidableEq

/-- The attempt-start logs of a breaker, by cell key. -/
abbrev AttemptStarts := OrderedMap String (List AttemptStart)

/-- An estimate, kept only where it is finite and not negative. -/
def usableEstimate (estimatedInputTokens : Option Number) : Option Number :=
  estimatedInputTokens.filter fun tokens => tokens.isFinite && Number.le 0 tokens

/-- Drops the starts before the window and then the oldest over the cap. -/
def pruneAttemptStarts (log : List AttemptStart) (now : Number) : List AttemptStart :=
  let kept := log.dropWhile fun start => start.at_.lt (now.sub ATTEMPT_START_WINDOW_MS)
  kept.drop (kept.length - MAX_ATTEMPT_STARTS)

/-- Appends one start to the cell's log and prunes it. -/
def recordAttemptStart (logs : AttemptStarts) (target : ProviderTargetIdentity)
    (now : Number) (estimatedInputTokens : Option Number) : AttemptStarts :=
  if !now.isFinite then logs
  else
    let key := getKey target
    let log := (logs.get? key).getD []
    logs.set key
      (pruneAttemptStarts (log ++ [⟨now, usableEstimate estimatedInputTokens⟩]) now)

end LlmRelay
