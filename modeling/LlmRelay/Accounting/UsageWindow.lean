import LlmRelay.Accounting.EventFold

/-!
# The usage window of a credential

`usedInWindow` sums the request rows of one credential over the current minute, or over the
minutes of the day so far (`accounting-store.ts`). Hard caps rely on the figures.

## Main definitions

* `plus`: the addition of two counts as numbers;
* `noteUsageCell`, `noteUsageTokens`, `usageReading`: the two sides of a token figure;
* `MutableDay`, `usedInWindow`: a day shard, and what is read off it.
-/

namespace LlmRelay.Accounting

open Ecma Transition

/-! ## Sums of counts -/

/-- The double nearest to a natural number, ties to even. -/
def roundToDouble (n : Nat) : Nat :=
  if n ≤ 2 ^ 53 then
    n
  else
    let spacing := 2 ^ (Nat.log2 n - 52)
    let below := n / spacing
    let rest := n % spacing
    if 2 * rest < spacing ∨ (2 * rest = spacing ∧ below % 2 = 0) then
      below * spacing
    else
      (below + 1) * spacing

/-- `a + b`, which is exact up to `2 ^ 53`. -/
def plus (a b : Nat) : Nat :=
  roundToDouble (a + b)

theorem plus_of_le {a b : Nat} (h : a + b ≤ 2 ^ 53) : plus a b = a + b := by
  rw [plus, roundToDouble, if_pos h]

/-! ## The two sides of a token figure -/

/-- One accumulating side: reported, or estimated. -/
structure UsageSide where
  seen : Bool
  exact_ : Bool
  value : Nat
  deriving DecidableEq

def newUsageSide : UsageSide where
  seen := false
  exact_ := true
  value := 0

/-- Folds a cell into a side, and says whether the cell carried a measured amount. -/
def noteUsageCell (side : UsageSide) (cell : TokenCell) : UsageSide × Bool :=
  if cell.known = 0 then
    (side, false)
  else
    let side := { side with seen := true }
    match cell.uncertain, cell.value with
    | false, some value => ({ side with value := plus side.value value }, true)
    | _, _ => ({ side with exact_ := false }, true)

def noteUsageTokens (side : UsageSide) (input output : TokenCell) : UsageSide × Bool :=
  let inputMeasured := noteUsageCell side input
  let outputMeasured := noteUsageCell inputMeasured.1 output
  (outputMeasured.1, inputMeasured.2 || outputMeasured.2)

/-- A safe counter, else zero. -/
def windowCounter (value : Nat) : Nat :=
  if isSafeNat value then value else 0

inductive UsageBasis where
  | reported | estimated | mixed
  deriving DecidableEq

structure UsedInWindowReading where
  requests : Option Nat
  tokens : Option Nat
  basis : Option UsageBasis
  deriving DecidableEq

def USED_WINDOW_EMPTY : UsedInWindowReading where
  requests := none
  tokens := none
  basis := none

def usageReading (requests : Option Nat) (reported estimated : UsageSide)
    (estimatedOnlyRequest : Bool) : UsedInWindowReading :=
  if !reported.seen && !estimated.seen then
    { requests, tokens := none, basis := none }
  else
    let blended := reported.seen && estimated.seen
    if blended && estimatedOnlyRequest then
      { requests, tokens := none, basis := some .mixed }
    else if blended || reported.seen then
      { requests
        tokens := if reported.exact_ then some reported.value else none
        basis := some .reported }
    else
      { requests
        tokens := if estimated.exact_ then some estimated.value else none
        basis := some .estimated }

/-! ## A day -/

/-- The shard of one day: its minutes, and the requests it knows. -/
structure MutableDay where
  cells : OrderedMap Text MutableCell
  requestIds : List Text

def emptyDay : MutableDay where
  cells := .empty
  requestIds := []

inductive WindowPeriod where
  | minute | day | month
  deriving DecidableEq

/-- `UsedInWindowOptions`; the minute is that of `now`. -/
structure UsedInWindowOptions where
  credentialId : Text
  model : Option Text
  period : WindowPeriod
  minute : Text
  deriving DecidableEq

/-- What the loop over the rows has found. -/
structure WindowTally where
  total : Nat
  reported : UsageSide
  estimated : UsageSide
  estimatedOnlyRequest : Bool
  deriving DecidableEq

def newWindowTally : WindowTally where
  total := 0
  reported := newUsageSide
  estimated := newUsageSide
  estimatedOnlyRequest := false

/-- Whether a row is asked for. -/
def UsedInWindowOptions.selects (options : UsedInWindowOptions) (row : RowKey) : Bool :=
  decide (row.kind = .request) && decide (row.credentialId = some options.credentialId)
    && (options.model.isNone || decide (row.model = options.model))

/-- One round of the loop over the rows. -/
def noteRow (options : UsedInWindowOptions) (tally : WindowTally)
    (row : RowKey × MutableAggregate) : WindowTally :=
  if options.selects row.1 then
    let reported := noteUsageTokens tally.reported
      (row.2 (.reported .requestTokens .reportedInput))
      (row.2 (.reported .requestTokens .reportedOutput))
    let estimated := noteUsageTokens tally.estimated
      (row.2 (.estimated .requestTokens .estimatedInput)).toTokenCell
      (row.2 (.estimated .requestTokens .estimatedOutput)).toTokenCell
    { total := plus tally.total (windowCounter (row.2 (.counter .requests)))
      reported := reported.1
      estimated := estimated.1
      estimatedOnlyRequest :=
        if !reported.2 && estimated.2 then true else tally.estimatedOnlyRequest }
  else
    tally

/-- The minutes that are summed. -/
def UsedInWindowOptions.minuteKeys (options : UsedInWindowOptions) (day : MutableDay) :
    List Text :=
  if options.period = .minute then [options.minute]
  else day.cells.keys.filter fun cellMinute => decide (cellMinute ≤ options.minute)

/-- The rows of a minute that is there. -/
def MutableDay.rowsAt (day : MutableDay) (minute : Text) : List (RowKey × MutableAggregate) :=
  match day.cells.get? minute with
  | none => []
  | some cell => cell.rows.entries

/-- `usedInWindow`, from the day shard of `now` where there is one. -/
def usedInWindow (options : UsedInWindowOptions) (day : Option MutableDay) :
    UsedInWindowReading :=
  if options.period = .month then
    USED_WINDOW_EMPTY
  else
    let tally :=
      match day with
      | none => newWindowTally
      | some day =>
        (options.minuteKeys day).foldl (fun tally cellMinute =>
          (day.rowsAt cellMinute).foldl (noteRow options) tally) newWindowTally
    usageReading (if tally.total > 0 then some tally.total else none) tally.reported
      tally.estimated tally.estimatedOnlyRequest

end LlmRelay.Accounting
