import LlmRelay.Ecma.Number

/-!
# Attempt contracts

The vocabulary shared by the attempt lifecycle and the circuit breaker
(`kernel/contracts.ts`, `quota-observation.ts`).

## Main definitions

* `ProviderTargetIdentity`, `sameProviderTarget`: the deployment an attempt is
  made against, and its equality;
* `AttemptOutcome`: how an attempt ended;
* `AttemptBeginFailure`, `AttemptCompletionFailure`: the typed rejections;
* `QuotaObservation`: one quota statement of a provider.
-/

namespace LlmRelay

open Ecma

/-- The two wire kinds of a provider. -/
inductive ProviderKind where
  | anthropic
  | openai
  deriving DecidableEq, Repr, Inhabited

/-- The deployment identity used for attribution and lifecycle ownership. -/
structure ProviderTargetIdentity where
  provider : String
  model : Option String
  kind : ProviderKind
  credentialId : String
  base : Option String
  deriving DecidableEq, Repr

/-- Target equality; the routing metadata `base` does not take part. -/
def sameProviderTarget (a b : ProviderTargetIdentity) : Bool :=
  decide (a.provider = b.provider) && decide (a.model = b.model)
    && decide (a.kind = b.kind) && decide (a.credentialId = b.credentialId)

/-- Where the cause of an outcome lies. -/
inductive OutcomeProvenance where
  | upstream
  | invalidUpstreamEnvelope
  | relayMapperDefect
  | clientCancellation
  | deadline
  deriving DecidableEq, Repr

/-- The failure classes of a failed attempt. -/
inductive AttemptFailureClass where
  | http
  | transport
  | invalidResponse
  | mapping
  | protocol
  deriving DecidableEq, Repr

/-- Who abandoned a cancelled attempt, and on which side of the commit. -/
inductive AttemptCancellationCause where
  | clientGoneBeforeResponse
  | clientGoneMidResponse
  | relayAbandoned
  deriving DecidableEq, Repr

/-- The terminal part of an outcome. -/
inductive AttemptTerminal where
  | succeeded (status : Nat)
  | failed (failure : AttemptFailureClass) (status : Option Nat) (retryAfterMs : Option Number)
  | cancelled (cause : AttemptCancellationCause) (reason : Option String)
  deriving DecidableEq

/-- How an attempt ended. -/
structure AttemptOutcome where
  target : ProviderTargetIdentity
  provenance : OutcomeProvenance
  completedAt : Number
  elapsedMs : Number
  terminal : AttemptTerminal
  deriving DecidableEq

/-- An attempt id, `generation:ordinal`. -/
abbrev AttemptId := String

/-- A completed attempt, as reported to the caller. -/
structure CompletedAttempt where
  id : AttemptId
  target : ProviderTargetIdentity
  outcome : AttemptOutcome
  deriving DecidableEq

/-- Why an attempt could not begin. -/
inductive AttemptBeginFailure where
  | lifecycleClosed
  deriving DecidableEq, Repr

/-- Why a completion was rejected. -/
inductive AttemptCompletionFailure where
  | duplicateCompletion (id : AttemptId)
  | foreignHandle
  | staleHandle
  | crossTarget (expected received : ProviderTargetIdentity)
  deriving DecidableEq, Repr

/-- Why a header observation was rejected. -/
inductive HeaderObservationFailure where
  | completion (failure : AttemptCompletionFailure)
  | duplicateObservation
  deriving DecidableEq, Repr

/-! ## Quota observations -/

/-- The quota dimensions. -/
inductive QuotaAxis where
  | requests
  | tokens
  deriving DecidableEq, Repr

/-- The quota periods. -/
inductive QuotaPeriod where
  | minute
  | day
  | month
  | unknown
  deriving DecidableEq, Repr

/-- One provider-stated quota figure. -/
structure QuotaObservation where
  axis : QuotaAxis
  period : QuotaPeriod
  limit : Number
  remaining : Number
  resetsAt : Option Number
  observedAt : Number
  deriving DecidableEq

/-- Provisional upstream metadata, committed only with a terminal outcome. -/
structure HeaderObservation where
  target : ProviderTargetIdentity
  status : Nat
  elapsedMs : Number
  observedAt : Number
  quotaObservations : Option (List QuotaObservation)
  retryAfterMs : Option Number
  deriving DecidableEq

end LlmRelay
