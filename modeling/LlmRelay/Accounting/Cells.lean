import LlmRelay.Ecma.Number
import LlmRelay.Ecma.Text
import Mathlib

/-!
# Cells of the accounting store

What an aggregate is made of (`accounting-store.ts`): counters, token cells, metrics and spend
cells. Each has an addition that says whether it fitted below the largest safe integer.

## Main definitions

* `TokenCell`, `EstimatedTokenCell`, `Metric`, `SpendCell`: the cells;
* `increase`, `addRawTokenCell`, `addAggregateTokenCell`, `addMetric`, `addSpendCell`: the
  additions.

## Main results

* `addRawTokenCell_grows`, `addAggregateTokenCell_grows`, `addMetric_grows`,
  `addSpendCell_grows`: an addition that fitted shows in what the cell has counted.
-/

namespace LlmRelay.Accounting

open Ecma

/-! ## Counters -/

/-- `increase` on a counter; `none` is an overflow, which leaves the counter. -/
def increase (current amount : Nat) : Option Nat :=
  if isSafeNat current && isSafeNat amount && decide (current ≤ maxSafeInteger - amount) then
    some (current + amount)
  else
    none

theorem increase_eq_some {current amount next : Nat} (h : increase current amount = some next) :
    next = current + amount := by
  unfold increase at h
  split at h
  · exact (Option.some.inj h).symm
  · cases h

/-- A counter after `increase`, which fails silently. -/
def increased (current amount : Nat) : Nat :=
  (increase current amount).getD current

/-- `increase` as an addition to a counter of its own. -/
def increaseCounter (current : Nat) : Nat × Bool :=
  (increased current 1, (increase current 1).isSome)

theorem increaseCounter_grows {current : Nat} (h : (increaseCounter current).2 = true) :
    current < (increaseCounter current).1 := by
  obtain ⟨next, hnext⟩ := Option.isSome_iff_exists.mp h
  have heq := increase_eq_some hnext
  show current < (increase current 1).getD current
  rw [hnext, Option.getD_some]
  omega

/-- The later of two timestamps. -/
def latest : Option Text → Option Text → Option Text
  | none, right => right
  | left, none => left
  | some left, some right => if right ≤ left then some left else some right

def safeCounter (value : Option Nat) : Option Nat :=
  value.filter isSafeNat

/-! ## Token cells -/

structure TokenCell where
  value : Option Nat
  known : Nat
  unknown : Nat
  lost : Nat
  overflow : Bool
  observedAt : Option Text
  deriving DecidableEq

structure EstimatedTokenCell extends TokenCell where
  method : Option Text
  deriving DecidableEq

def emptyTokenCell : TokenCell where
  value := none
  known := 0
  unknown := 0
  lost := 0
  overflow := false
  observedAt := none

/-- What the cell has counted. -/
def TokenCell.counted (cell : TokenCell) : Nat :=
  cell.known + cell.unknown + cell.lost

/-- Whether the cell's value is no measurement. -/
def TokenCell.uncertain (cell : TokenCell) : Bool :=
  decide (cell.unknown > 0) || decide (cell.lost > 0) || cell.overflow

/-- One token fact of an event, as `sourceCell` reads it. -/
structure SourceCell where
  value : Option Nat
  observedAt : Option Text
  method : Option Text
  deriving DecidableEq

def addRawTokenCell (source : SourceCell) (fallback : Text) (target : TokenCell) :
    TokenCell × Bool :=
  match safeCounter source.value with
  | none =>
    match increase target.unknown 1 with
    | none => ({ target with overflow := true, value := none }, false)
    | some unknown => ({ target with unknown, value := none }, true)
  | some value =>
    match increase target.known 1 with
    | none =>
      ({ target with overflow := true, value := none, lost := increased target.lost 1 },
        false)
    | some known =>
      let knownBefore := target.known
      let target :=
        { target with
          known
          observedAt := latest target.observedAt (some (source.observedAt.getD fallback)) }
      if target.uncertain then
        ({ target with value := none }, true)
      else
        match target.value with
        | none => ({ target with value := some value }, true)
        | some sum =>
          if knownBefore = 0 then
            ({ target with value := some value }, true)
          else if maxSafeInteger - value < sum then
            ({ target with
                value := none
                overflow := true
                lost := increased target.lost 1 }, false)
          else
            ({ target with value := some (sum + value) }, true)

def ACCOUNTING_UNSPECIFIED_ESTIMATION_METHOD : Text := text "unspecified"

def updateMethod (incoming : Option Text) (target : EstimatedTokenCell) : EstimatedTokenCell :=
  if target.known = 0 then
    { target with method := if target.uncertain then some (text "unknown") else none }
  else
    let method := incoming.getD ACCOUNTING_UNSPECIFIED_ESTIMATION_METHOD
    if target.method = none ∨ target.method = some (text "unknown") then
      { target with method := some method }
    else if method ≠ text "unknown" ∧ target.method ≠ some method then
      { target with method := some (text "mixed") }
    else
      target

def addAggregateTokenCell (source target : TokenCell) : TokenCell × Bool :=
  let known := increase target.known source.known
  let unknown := increase target.unknown source.unknown
  let lost := increase target.lost source.lost
  let exact := known.isSome && unknown.isSome && lost.isSome
  let sumOverflows :=
    match target.value, source.value with
    | some sum, some value => decide (maxSafeInteger - value < sum)
    | _, _ => false
  let added : TokenCell :=
    { target with
      known := known.getD target.known
      unknown := unknown.getD target.unknown
      lost := lost.getD target.lost
      overflow := target.overflow || !exact || source.overflow
      observedAt := latest target.observedAt source.observedAt }
  let result :=
    if target.known = 0 ∧ target.uncertain = false ∧ source.uncertain = false then
      ({ added with value := source.value }, exact)
    else if target.value = none ∨ source.value = none ∨ target.uncertain = true
        ∨ source.uncertain = true ∨ sumOverflows = true then
      ({ added with overflow := added.overflow || sumOverflows, value := none },
        exact && !sumOverflows)
    else
      ({ added with value := some (target.value.getD 0 + source.value.getD 0) }, exact)
  if result.1.uncertain then ({ result.1 with value := none }, result.2) else result

/-! ## Metrics -/

def ACCOUNTING_MAX_SAMPLES : Nat := 25

structure Metric where
  sumMs : Option Nat
  known : Nat
  unknown : Nat
  lost : Nat
  overflow : Bool
  samples : List Nat
  samplesDropped : Nat
  observedAt : Option Text
  deriving DecidableEq

def emptyMetric : Metric where
  sumMs := none
  known := 0
  unknown := 0
  lost := 0
  overflow := false
  samples := []
  samplesDropped := 0
  observedAt := none

/-- What the metric has counted. -/
def Metric.counted (metric : Metric) : Nat :=
  metric.known + metric.unknown + metric.lost

/-- The end of `addMetric`: the sample is kept, and the oldest one makes room. -/
def pushSample (value : Nat) (target : Metric) : Metric × Bool :=
  let samples := target.samples ++ [value]
  if samples.length > ACCOUNTING_MAX_SAMPLES then
    match increase target.samplesDropped 1 with
    | none => ({ target with samples := samples.tail, overflow := true }, false)
    | some samplesDropped => ({ target with samples := samples.tail, samplesDropped }, true)
  else
    ({ target with samples }, true)

def addMetric (value : Option Nat) (observedAt : Text) (target : Metric) : Metric × Bool :=
  match value with
  | none =>
    match increase target.unknown 1 with
    | none => ({ target with overflow := true, sumMs := none }, false)
    | some unknown => ({ target with unknown, sumMs := none }, true)
  | some value =>
    match increase target.known 1 with
    | none =>
      ({ target with overflow := true, sumMs := none, lost := increased target.lost 1 },
        false)
    | some known =>
      let knownBefore := target.known
      let target :=
        { target with known, observedAt := latest target.observedAt (some observedAt) }
      if target.unknown > 0 ∨ target.lost > 0 ∨ target.overflow = true then
        pushSample value { target with sumMs := none }
      else
        match target.sumMs with
        | none => pushSample value { target with sumMs := some value }
        | some sum =>
          if knownBefore = 0 then
            pushSample value { target with sumMs := some value }
          else if maxSafeInteger - value < sum then
            ({ target with
                sumMs := none
                overflow := true
                lost := increased target.lost 1 }, false)
          else
            pushSample value { target with sumMs := some (sum + value) }

/-! ## Spend -/

inductive PriceSource where
  | provider_published | reference
  deriving DecidableEq

inductive TokenBasis where
  | reported | estimated
  deriving DecidableEq

inductive SpendCoverage where
  | full | input_only | partial_
  deriving DecidableEq

/-- One priced spend, with the fields that are aggregated. -/
structure Spend where
  amountMicrousd : Nat
  priceSource : PriceSource
  tokenBasis : TokenBasis
  coverage : SpendCoverage
  observedAt : Text
  deriving DecidableEq

structure SpendCell where
  amountMicrousd : Option Nat
  known : Nat
  observedAt : Option Text
  deriving DecidableEq

def emptySpendCell : SpendCell where
  amountMicrousd := none
  known := 0
  observedAt := none

def mergeAccountingSpendCells (left right : SpendCell) : Option SpendCell :=
  match increase left.known right.known with
  | none => none
  | some known =>
    let amountMicrousd :=
      match left.amountMicrousd, right.amountMicrousd with
      | some a, some b => if a ≤ maxSafeInteger - b then some (a + b) else none
      | _, _ => none
    some
      { amountMicrousd := if known > 0 then amountMicrousd else none
        known
        observedAt := latest left.observedAt right.observedAt }

/-- `addSpendIntoCells`, on the cell of the record. -/
def addSpendCell (record : Spend) (cell : SpendCell) : SpendCell × Bool :=
  match increase cell.known 1 with
  | none => (cell, false)
  | some known =>
    if cell.known = 0 then
      ({ amountMicrousd := some record.amountMicrousd
         known
         observedAt := some record.observedAt }, true)
    else
      match mergeAccountingSpendCells { cell with known }
        { amountMicrousd := some record.amountMicrousd
          known := 1
          observedAt := some record.observedAt } with
      | none => ({ cell with known }, false)
      | some merged =>
        ({ amountMicrousd := merged.amountMicrousd
           known
           observedAt := merged.observedAt }, true)

/-! ## An addition that fitted is counted -/

theorem addRawTokenCell_grows {source : SourceCell} {fallback : Text} {target : TokenCell}
    (h : (addRawTokenCell source fallback target).2 = true) :
    (addRawTokenCell source fallback target).1.counted = target.counted + 1 := by
  unfold addRawTokenCell at h ⊢
  split at h
  · split at h
    · cases h
    · rename_i unknown hunknown
      have := increase_eq_some hunknown
      simp only [TokenCell.counted]
      omega
  · split at h
    · cases h
    · rename_i known hknown
      have := increase_eq_some hknown
      dsimp only at h ⊢
      -- the ways that go on only set the value
      repeat' split
      all_goals first
        | (simp only [TokenCell.counted]; omega)
        | simp_all

theorem addAggregateTokenCell_grows {source target : TokenCell}
    (h : (addAggregateTokenCell source target).2 = true) :
    (addAggregateTokenCell source target).1.counted = target.counted + source.counted := by
  have hexact : ((increase target.known source.known).isSome
      && (increase target.unknown source.unknown).isSome
      && (increase target.lost source.lost).isSome) = true := by
    by_contra hno
    rw [Bool.not_eq_true] at hno
    have hfalse : (addAggregateTokenCell source target).2 = false := by
      unfold addAggregateTokenCell
      simp only [hno]
      repeat' split
      all_goals rfl
    rw [hfalse] at h
    cases h
  rw [Bool.and_eq_true, Bool.and_eq_true] at hexact
  obtain ⟨known, hknown⟩ := Option.isSome_iff_exists.mp hexact.1.1
  obtain ⟨unknown, hunknown⟩ := Option.isSome_iff_exists.mp hexact.1.2
  obtain ⟨lost, hlost⟩ := Option.isSome_iff_exists.mp hexact.2
  have hknown' := increase_eq_some hknown
  have hunknown' := increase_eq_some hunknown
  have hlost' := increase_eq_some hlost
  -- every way through the function leaves the three counts the same
  have hcounts : (addAggregateTokenCell source target).1.known = known
      ∧ (addAggregateTokenCell source target).1.unknown = unknown
      ∧ (addAggregateTokenCell source target).1.lost = lost := by
    unfold addAggregateTokenCell
    simp only [hknown, hunknown, hlost]
    repeat' split
    all_goals exact ⟨rfl, rfl, rfl⟩
  simp only [TokenCell.counted]
  omega

@[simp] theorem counted_pushSample (value : Nat) (target : Metric) :
    (pushSample value target).1.counted = target.counted := by
  unfold pushSample
  dsimp only
  split
  · split <;> rfl
  · rfl

theorem addMetric_grows {value : Option Nat} {observedAt : Text} {target : Metric}
    (h : (addMetric value observedAt target).2 = true) :
    (addMetric value observedAt target).1.counted = target.counted + 1 := by
  unfold addMetric at h ⊢
  split at h
  · split at h
    · cases h
    · rename_i unknown hunknown
      have := increase_eq_some hunknown
      simp only [Metric.counted]
      omega
  · split at h
    · cases h
    · rename_i known hknown
      have := increase_eq_some hknown
      dsimp only at h ⊢
      repeat' split
      all_goals first
        | (rw [counted_pushSample]; simp only [Metric.counted]; omega)
        | simp_all

theorem addSpendCell_grows {record : Spend} {cell : SpendCell}
    (h : (addSpendCell record cell).2 = true) :
    (addSpendCell record cell).1.known = cell.known + 1 := by
  unfold addSpendCell at h ⊢
  split at h
  · cases h
  · rename_i known hknown
    have := increase_eq_some hknown
    split
    · exact this
    · split
      · simp_all
      · exact this

end LlmRelay.Accounting
