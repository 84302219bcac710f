import LlmRelay.Accounting.Cells
import LlmRelay.Ecma.OrderedMap
import LlmRelay.Transition.GuardedChain

/-!
# Folding an event into the aggregates

A terminal request is folded into the aggregate of its minute, into a row of that minute for
the request and one for each attempt, and into the aggregates of the lifetime and of the month
(`accounting-store.ts`). The additions are chained: `exact &&= add(..)`.

An aggregate is the map of its counters and cells. A spend object that an aggregate lacks
stands for four empty cells.

## Main definitions

* `MutableAggregate`: the counters and cells of an aggregate;
* `addRequest`, `addRootAttempt`, `addAttempt`: what an event adds to one aggregate;
* `MutableCell`, `findRow`, `foldCell`: a minute, its rows, and the fold into them;
* `MutableLifetime`, `addLifetime`: the aggregates over all days.
-/

namespace LlmRelay.Accounting

open Ecma Transition

/-! ## Aggregates -/

inductive Counter where
  | requests | attempts | served | errored | cancelled | partiallyPricedRequests
  | unpricedRequests
  deriving DecidableEq

inductive ReportedField where
  | reportedInput | reportedOutput | reportedCachedInput | cacheCreationInputTokens
  | cacheReadInputTokens
  deriving DecidableEq

inductive EstimatedField where
  | estimatedInput | estimatedOutput
  deriving DecidableEq

inductive TokenScope where
  | tokens | requestTokens
  deriving DecidableEq

inductive MetricField where
  | latency | commit
  deriving DecidableEq

inductive SpendScope where
  | spend | requestSpend | abandonedSpend
  deriving DecidableEq

inductive SpendField where
  | providerPublishedReported | providerPublishedEstimated | referenceReported
  | referenceEstimated
  deriving DecidableEq

/-- A counter or cell of an aggregate. -/
inductive AggregateField where
  | counter (counter : Counter)
  | reported (scope : TokenScope) (cell : ReportedField)
  | estimated (scope : TokenScope) (cell : EstimatedField)
  | metric (metric : MetricField)
  | spend (scope : SpendScope) (cell : SpendField)
  deriving DecidableEq

/-- What the field holds. -/
abbrev AggregateField.Value : AggregateField → Type
  | counter _ => Nat
  | reported _ _ => TokenCell
  | estimated _ _ => EstimatedTokenCell
  | metric _ => Metric
  | spend _ _ => SpendCell

abbrev MutableAggregate := ∀ field : AggregateField, field.Value

def emptyAggregate : MutableAggregate
  | .counter _ => (0 : Nat)
  | .reported _ _ => emptyTokenCell
  | .estimated _ _ => { emptyTokenCell with method := none }
  | .metric _ => emptyMetric
  | .spend _ _ => emptySpendCell

/-- What the field has counted. -/
def AggregateField.counted : ∀ field : AggregateField, field.Value → Nat
  | counter _ => fun value : Nat => value
  | reported _ _ => TokenCell.counted
  | estimated _ _ => fun cell => cell.toTokenCell.counted
  | metric _ => Metric.counted
  | spend _ _ => SpendCell.known

/-- The aggregates at several places. -/
abbrev Aggregates (π : Type) := ∀ slot : π × AggregateField, slot.2.Value

/-- Additions to aggregates, each guarded by the success of those before. -/
abbrev AggregateChain (π : Type) := Chain fun slot : π × AggregateField => slot.2.Value

/-! ## Events -/

inductive Outcome where
  | success | error | cancelled | unknown
  deriving DecidableEq

inductive AttemptRole where
  | serve | repair
  deriving DecidableEq

inductive Attribution where
  | relay_held | caller_operated | unknown
  deriving DecidableEq

/-- The token facts of an event, read by `sourceCell`. -/
structure AccountingTokenTotals where
  reported : ReportedField → SourceCell
  estimated : EstimatedField → SourceCell

/-- `RequestCompletedEvent`, with the fields that are aggregated. -/
structure RequestCompletedEvent where
  endedAt : Text
  latencyMs : Option Nat
  commitMs : Option Nat
  tokens : AccountingTokenTotals
  spend : Option Spend
  abandonedSpend : List Spend

/-- `AttemptCompletedEvent` once it has passed the checks of `makeAttempt`. -/
structure AttemptCompletedEvent where
  role : AttemptRole
  endedAt : Text
  outcome : Outcome
  failureKind : Option Text
  attribution : Attribution
  latencyMs : Option Nat
  commitMs : Option Nat
  provider : Option Text
  model : Option Text
  credentialId : Option Text
  tokens : AccountingTokenTotals
  spend : Option Spend

/-- The token cells of one packet. -/
structure AggregateTokenTotals where
  reported : ReportedField → TokenCell
  estimated : EstimatedField → EstimatedTokenCell

/-- `AccountingAttemptPacketV1`, with the fields that are aggregated. -/
structure AttemptPacket where
  role : AttemptRole
  endedAt : Text
  outcome : Outcome
  failureKind : Option Text
  attribution : Attribution
  latencyMs : Option Nat
  commitMs : Option Nat
  provider : Option Text
  model : Option Text
  credentialId : Option Text
  tokens : AggregateTokenTotals
  spend : Option Spend

/-! ## Additions to one aggregate -/

section Additions

variable {π : Type} (target : π)

/-- An addition to a cell, made on the cell that an estimated cell extends. -/
def addEstimated (add : TokenCell → TokenCell × Bool) (cell : EstimatedTokenCell) :
    EstimatedTokenCell × Bool :=
  ({ cell with toTokenCell := (add cell.toTokenCell).1 }, (add cell.toTokenCell).2)

def addRawTokens (scope : TokenScope) (source : AccountingTokenTotals) (fallback : Text) :
    AggregateChain π :=
  let input := source.estimated .estimatedInput
  let output := source.estimated .estimatedOutput
  .add (target, .reported scope .reportedInput)
    (addRawTokenCell (source.reported .reportedInput) fallback) id <|
  .add (target, .reported scope .reportedOutput)
    (addRawTokenCell (source.reported .reportedOutput) fallback) id <|
  .add (target, .reported scope .reportedCachedInput)
    (addRawTokenCell (source.reported .reportedCachedInput) fallback) id <|
  .add (target, .reported scope .cacheCreationInputTokens)
    (addRawTokenCell (source.reported .cacheCreationInputTokens) fallback) id <|
  .add (target, .reported scope .cacheReadInputTokens)
    (addRawTokenCell (source.reported .cacheReadInputTokens) fallback) id <|
  -- the method is updated also where the addition before it is skipped
  .add (target, .estimated scope .estimatedInput)
    (addEstimated (addRawTokenCell input fallback)) (updateMethod input.method) <|
  .add (target, .estimated scope .estimatedOutput)
    (addEstimated (addRawTokenCell output fallback)) (updateMethod output.method) <|
  .done

def addAggregateTokens (scope : TokenScope) (source : AggregateTokenTotals) :
    AggregateChain π :=
  let input := source.estimated .estimatedInput
  let output := source.estimated .estimatedOutput
  .add (target, .reported scope .reportedInput)
    (addAggregateTokenCell (source.reported .reportedInput)) id <|
  .add (target, .reported scope .reportedOutput)
    (addAggregateTokenCell (source.reported .reportedOutput)) id <|
  .add (target, .reported scope .reportedCachedInput)
    (addAggregateTokenCell (source.reported .reportedCachedInput)) id <|
  .add (target, .reported scope .cacheCreationInputTokens)
    (addAggregateTokenCell (source.reported .cacheCreationInputTokens)) id <|
  .add (target, .reported scope .cacheReadInputTokens)
    (addAggregateTokenCell (source.reported .cacheReadInputTokens)) id <|
  .add (target, .estimated scope .estimatedInput)
    (addEstimated (addAggregateTokenCell input.toTokenCell)) (updateMethod input.method) <|
  .add (target, .estimated scope .estimatedOutput)
    (addEstimated (addAggregateTokenCell output.toTokenCell)) (updateMethod output.method) <|
  .done

def addOutcome : Outcome → AggregateChain π
  | .success => .add (target, .counter .served) increaseCounter id .done
  | .error => .add (target, .counter .errored) increaseCounter id .done
  | .cancelled => .add (target, .counter .cancelled) increaseCounter id .done
  | .unknown => .done

/-- Where a spend belongs, by price source and token basis. -/
def spendCell (record : Spend) : SpendField :=
  match record.priceSource, record.tokenBasis with
  | .provider_published, .reported => .providerPublishedReported
  | .provider_published, .estimated => .providerPublishedEstimated
  | .reference, .reported => .referenceReported
  | .reference, .estimated => .referenceEstimated

def addSpendIntoCells (scope : SpendScope) (record : Spend) : AggregateChain π :=
  .add (target, .spend scope (spendCell record)) (addSpendCell record) id .done

def addAttemptSpend : Option Spend → AggregateChain π
  | none => .done
  | some record => addSpendIntoCells target .spend record

/-- The loop over the spends of abandoned attempts. -/
def addAbandonedSpend : List Spend → AggregateChain π
  | [] => .done
  | abandoned :: rest =>
    .call (addSpendIntoCells target .abandonedSpend abandoned) (addAbandonedSpend rest)

def addRequest (event : RequestCompletedEvent) (outcome : Outcome) : AggregateChain π :=
  .add (target, .counter .requests) increaseCounter id <|
  .call (addOutcome target outcome) <|
  .add (target, .metric .latency)
    (addMetric (if outcome = .cancelled then none else safeCounter event.latencyMs)
      event.endedAt) id <|
  .add (target, .metric .commit)
    (addMetric (if outcome = .success then safeCounter event.commitMs else none)
      event.endedAt) id <|
  .call (addRawTokens target .requestTokens event.tokens event.endedAt) <|
  match event.spend with
  | some spend =>
    .call (addSpendIntoCells target .requestSpend spend) <|
    if spend.coverage ≠ .full then
      .add (target, .counter .partiallyPricedRequests) increaseCounter id <|
      addAbandonedSpend target event.abandonedSpend
    else
      addAbandonedSpend target event.abandonedSpend
  | none =>
    .add (target, .counter .unpricedRequests) increaseCounter id <|
    addAbandonedSpend target event.abandonedSpend

def addRootAttempt (attempt : AttemptPacket) : AggregateChain π :=
  .add (target, .counter .attempts) increaseCounter id <|
  .call (addAggregateTokens target .tokens attempt.tokens) <|
  .call (addAttemptSpend target attempt.spend) <|
  .done

def addAttempt (attempt : AttemptPacket) : AggregateChain π :=
  .add (target, .counter .attempts) increaseCounter id <|
  .call (addOutcome target attempt.outcome) <|
  .add (target, .metric .latency)
    (addMetric (if attempt.outcome = .cancelled then none else attempt.latencyMs)
      attempt.endedAt) id <|
  .add (target, .metric .commit)
    (addMetric
      (if attempt.outcome = .success ∧ attempt.role = .serve then attempt.commitMs else none)
      attempt.endedAt) id <|
  .call (addAggregateTokens target .tokens attempt.tokens) <|
  .call (addAttemptSpend target attempt.spend) <|
  .done

end Additions

/-- The cells of one event: its facts added to empty cells. -/
def tokenSnapshot (source : AccountingTokenTotals) (fallback : Text) : AggregateTokenTotals :=
  let target : Aggregates Unit :=
    ((addRawTokens () .tokens source fallback).run (fun slot => emptyAggregate slot.2) true).1
  { reported := fun cell => target ((), .reported .tokens cell)
    estimated := fun cell => target ((), .estimated .tokens cell) }

/-- The packet of `makeAttempt`. -/
def makeAttempt (event : AttemptCompletedEvent) : AttemptPacket where
  role := event.role
  endedAt := event.endedAt
  outcome := event.outcome
  failureKind := if event.outcome = .success then none else event.failureKind
  attribution := event.attribution
  latencyMs := safeCounter event.latencyMs
  commitMs := if event.role = .serve then safeCounter event.commitMs else none
  provider := event.provider
  model := event.model
  credentialId := event.credentialId
  tokens := tokenSnapshot event.tokens event.endedAt
  spend := event.spend

end LlmRelay.Accounting
