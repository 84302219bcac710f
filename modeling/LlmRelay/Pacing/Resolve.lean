import LlmRelay.Candidates.CredentialSelect
import LlmRelay.Pacing.AttemptLog

/-!
# Pacing against a stated rate limit

The relay steps aside from a cell once it started as many attempts in the trailing window
of a stated period as the limit allows (`pacing.ts`, with the quota buckets and the limit
ladder of `availability.ts`). The configured limits of a deployment and the learned ones
are read through `PacingDeps`.

## Main definitions

* `collectQuotaBuckets`, `resolveLimit`: the evidence by axis and period, and its limit;
* `pacingCounts`, `resolvePacing`: what is counted against a limit, and the verdict.

## Main results

* `counted_eq_requests`: what is counted on the requests axis.
-/

namespace LlmRelay

open Ecma Transition

/-! ## Buckets -/

/-- The axes an operator declares limits for. -/
inductive ConfiguredLimitAxis where
  | rpm
  | rpd
  | tpm
  | tpd
  deriving DecidableEq, Repr

def CONFIGURED_LIMIT_AXES : List ConfiguredLimitAxis := [.rpm, .rpd, .tpm, .tpd]

/-- The axis and period of a declared limit. -/
def configuredLimitQuotaShape : ConfiguredLimitAxis → QuotaAxis × QuotaPeriod
  | .rpm => (.requests, .minute)
  | .rpd => (.requests, .day)
  | .tpm => (.tokens, .minute)
  | .tpd => (.tokens, .day)

/-- The limits a bucket knows beside the provider's own. -/
structure LimitInputs where
  configured : Option Number := none
  learned : Option Number := none
  published : Option Number := none

/-- The evidence of one axis and period. -/
structure QuotaBucket where
  axis : QuotaAxis
  period : QuotaPeriod
  observations : List QuotaObservation
  limits : LimitInputs

/-- A limit learned from the text of a refusal. -/
structure LearnedRateLimit where
  axis : QuotaAxis
  period : QuotaPeriod
  limit : Number

/-- The buckets, by axis and period. -/
abbrev QuotaBuckets := OrderedMap (QuotaAxis × QuotaPeriod) QuotaBucket

/-- Changes the bucket of an axis and period, created where it is missing. -/
def QuotaBuckets.modify (buckets : QuotaBuckets) (axis : QuotaAxis) (period : QuotaPeriod)
    (change : QuotaBucket → QuotaBucket) : QuotaBuckets :=
  buckets.set (axis, period)
    (change ((buckets.get? (axis, period)).getD ⟨axis, period, [], {}⟩))

/-- The evidence by axis and period; an observation of an unknown period counts only with
a reset of its own. -/
def collectQuotaBuckets (observations : List QuotaObservation) (learned : List LearnedRateLimit)
    (configured : Option (ConfiguredLimitAxis → Option Number)) : QuotaBuckets :=
  let admitted := observations.filter fun observation =>
    observation.period ≠ .unknown || observation.resetsAt.any Number.isFinite
  let buckets := admitted.foldl
    (fun (buckets : QuotaBuckets) observation =>
      buckets.modify observation.axis observation.period fun bucket =>
        { bucket with observations := bucket.observations ++ [observation] })
    OrderedMap.empty
  let buckets := learned.foldl
    (fun (buckets : QuotaBuckets) entry =>
      buckets.modify entry.axis entry.period fun bucket =>
        { bucket with limits := { bucket.limits with learned := some entry.limit } })
    buckets
  match configured with
  | none => buckets
  | some configured =>
    CONFIGURED_LIMIT_AXES.foldl
      (fun (buckets : QuotaBuckets) axis =>
        match configured axis with
        | none => buckets
        | some value =>
          let shape := configuredLimitQuotaShape axis
          buckets.modify shape.1 shape.2 fun bucket =>
            { bucket with limits := { bucket.limits with configured := some value } })
      buckets

/-! ## Limits -/

/-- Who stated a limit. -/
inductive LimitProvenance where
  | providerStated
  | configured
  | learned
  | published
  deriving DecidableEq, Repr

/-- A figure that can be a limit. -/
def usableLimit (limit : Option Number) : Option Number :=
  limit.filter fun limit => limit.isFinite && Number.lt 0 limit

/-- The limit of a bucket: the provider's own, then a configured, a learned and a
published one. -/
def resolveLimit (bucket : QuotaBucket) : Option (Number × LimitProvenance) :=
  let stated := (bucket.observations.find? fun observation =>
    observation.axis = bucket.axis && observation.period = bucket.period).map (·.limit)
  ((usableLimit stated).map (·, .providerStated)).or
    (((usableLimit bucket.limits.configured).map (·, .configured)).or
      (((usableLimit bucket.limits.learned).map (·, .learned)).or
        ((usableLimit bucket.limits.published).map (·, .published))))

def PERIOD_RANK : QuotaPeriod → Nat
  | .minute => 0
  | .day => 1
  | .month => 2
  | .unknown => 3

/-- Requests before tokens, and the shorter period first. -/
def bucketRank (axis : QuotaAxis) (period : QuotaPeriod) : Nat :=
  let axisRank := if axis = .requests then 0 else 1
  axisRank * 10 + PERIOD_RANK period

/-! ## Pacing -/

/-- The periods that are paced. -/
inductive PacingPeriod where
  | minute
  | day
  deriving DecidableEq, Repr

/-- The width of the trailing window of a period, in milliseconds. -/
def PACING_WINDOW_MS : PacingPeriod → ℚ
  | .minute => ((60000 : Nat) : ℚ)
  | .day => ((86400000 : Nat) : ℚ)

/-- Which provenances of a limit may pace. -/
def PACES_ON_LIMIT_BASIS : LimitProvenance → Bool
  | .providerStated => true
  | .configured => true
  | .learned => true
  | .published => false

/-- The provenances a verdict may carry. -/
abbrev PacingLimitBasis := { basis : LimitProvenance // PACES_ON_LIMIT_BASIS basis = true }

/-- What was counted against a limit; as a verdict, at or over it. -/
structure PacingVerdict where
  axis : QuotaAxis
  period : PacingPeriod
  limit : Number
  limitBasis : PacingLimitBasis
  counted : Number
  deriving DecidableEq

/-- The pacing settings; absent means enabled. -/
structure PacingConfig where
  enabled : Option Bool

def resolvePacingSettings (settings : Option PacingConfig) : Bool :=
  (settings.bind (·.enabled)).getD true

/-- What the pacing reads: its settings, the cells and the logs of the breaker, and the
limits configured and learned for a deployment. -/
structure PacingDeps where
  settings : Option PacingConfig
  states : CircuitStates
  attemptStarts : AttemptStarts
  resolveConfiguredLimits : (provider : String) → (label : Option String) → (model : String) →
    Option (ConfiguredLimitAxis → Option Number)
  observedRateLimits : (provider credentialId model : String) → (now : Number) →
    List LearnedRateLimit

def pacingPeriod? : QuotaPeriod → Option PacingPeriod
  | .minute => some .minute
  | .day => some .day
  | .month => none
  | .unknown => none

/-- The count of an axis; a token sum may be unknown. -/
def AttemptWindow.counted (window : AttemptWindow) : QuotaAxis → Option Number
  | .requests => some (.fin window.requests)
  | .tokens => window.estimatedInputTokens

/-- The identity whose cell the pacing reads. -/
def pacingIdentity (attempt : ResolvedAttempt) (model : String) : ProviderTargetIdentity where
  provider := attempt.target.provider
  model := some model
  kind := attempt.target.kind
  credentialId := attempt.credentialId
  base := if attempt.target.base = "" then none else some attempt.target.base

namespace PacingDeps

variable (deps : PacingDeps)

/-- The buckets of a deployment, by rank. -/
def buckets (attempt : ResolvedAttempt) (model : String) (now : Number) : List QuotaBucket :=
  let identity := pacingIdentity attempt model
  let observations := ((deps.states.get? (getKey identity)).map (·.quotaObservations)).getD []
  let configured := deps.resolveConfiguredLimits attempt.target.provider
    ((parseCredentialId attempt.credentialId).map (·.label)) model
  let learned := deps.observedRateLimits attempt.target.provider attempt.credentialId model now
  (collectQuotaBuckets observations learned configured).values.insertionSort fun a b =>
    bucketRank a.axis a.period ≤ bucketRank b.axis b.period

/-- What the cell holds against the limit of a bucket, where there is a limit that paces
and an honest count. -/
def countBucket (identity : ProviderTargetIdentity) (now : Number) (bucket : QuotaBucket) :
    Option PacingVerdict := do
  let period ← pacingPeriod? bucket.period
  let (limit, basis) ← resolveLimit bucket
  if hbasis : PACES_ON_LIMIT_BASIS basis = true then
    let window := attemptsInWindow deps.attemptStarts identity.credentialId identity.model
      (.fin (PACING_WINDOW_MS period)) now
    let counted ← window.counted bucket.axis
    if counted.isFinite then some ⟨bucket.axis, period, limit, ⟨basis, hbasis⟩, counted⟩
    else none
  else none

/-- Everything that is counted for an attempt, by rank. -/
def pacingCounts (attempt : ResolvedAttempt) (now : Number) : List PacingVerdict :=
  if !resolvePacingSettings deps.settings then []
  else
    match attempt.target.model with
    | none => []
    | some model =>
      (deps.buckets attempt model now).filterMap
        (deps.countBucket (pacingIdentity attempt model) now)

/-- The pacing verdict of a cell: the first count that is not below its limit. -/
def resolvePacing (attempt : ResolvedAttempt) (now : Number) : Option PacingVerdict :=
  (deps.pacingCounts attempt now).find? fun verdict => !verdict.counted.lt verdict.limit

variable {attempt : ResolvedAttempt} {verdict : PacingVerdict}

/-- What is counted on the requests axis is the window of the cell. -/
theorem counted_eq_requests {now : Number} (h : verdict ∈ deps.pacingCounts attempt now)
    (haxis : verdict.axis = .requests) :
    verdict.counted = .fin (attemptsInWindow deps.attemptStarts attempt.credentialId
      attempt.target.model (.fin (PACING_WINDOW_MS verdict.period)) now).requests := by
  unfold pacingCounts at h
  split at h
  · exact absurd h List.not_mem_nil
  · split at h
    · exact absurd h List.not_mem_nil
    · rename_i model hmodel
      obtain ⟨bucket, -, hcount⟩ := List.mem_filterMap.mp h
      rw [hmodel]
      simp only [countBucket, Option.bind_eq_bind, Option.bind_eq_some_iff] at hcount
      obtain ⟨period, -, ⟨limit, basis⟩, -, hcount⟩ := hcount
      split at hcount
      · obtain ⟨counted, hcounted, hverdict⟩ := Option.bind_eq_some_iff.mp hcount
        split at hverdict
        · cases hverdict
          change bucket.axis = .requests at haxis
          rw [haxis] at hcounted
          exact (Option.some.inj hcounted).symm
        · cases hverdict
      · cases hcount

/-- Both reads of the breaker come from `b` in the world `w`. -/
def ReadsBreaker (w : World) (b : Ref) : Prop :=
  deps.states = w.statesOf b ∧ deps.attemptStarts = w.attemptStartsOf b

end PacingDeps

end LlmRelay
