import LlmRelay.Accounting.UsageWindow

/-!
# The accounting store as a system

Day shards live in memory and on disk (`accounting-store.ts`). A terminal request is applied
to the shard of its day, which is loaded when it is not in memory; a flush writes the shards
that have changed; a shard that is clean may leave memory again, retention removes old days,
and a process that starts anew has what was written.

## Main definitions

* `applyToDay`: a terminal request is folded into the shard of its day;
* `AccountingStore`, `StoreStep`, `AccountingWorld.step`: the store and what happens to it;
* `AccountingWorld`: the store with the requests that were applied to it.
-/

namespace LlmRelay.Accounting

open Ecma

/-! ## One day -/

def ACCOUNTING_MAX_DAY_ROWS : Nat := 4096

def countDayRows (day : MutableDay) : Nat :=
  (day.cells.values.map fun cell => cell.rows.entries.length).sum

/-- The minute that `cellFor` creates. -/
def createdCell : MutableCell where
  aggregate := emptyAggregate
  rows := .empty
  coverage := emptyCellCoverage

/-- The minute of a day, created where it is missing. -/
def cellFor (day : MutableDay) (minute : Text) : MutableCell :=
  (day.cells.get? minute).getD createdCell

/-- The date of a timestamp. -/
def dayFor (timestamp : Text) : Text :=
  timestamp.take 10

/-- The hour and minute of a timestamp. -/
def minuteFor (timestamp : Text) : Text :=
  (timestamp.drop 11).take 5

/-- A terminal request, with the identity that the store accounts it under. -/
structure TerminalRequest where
  requestId : Text
  event : RequestCompletedEvent
  outcome : Outcome
  failureKind : Option Text
  client : Option Text
  provider : Option Text
  model : Option Text
  credentialId : Option Text
  attribution : Attribution
  attempts : List AttemptCompletedEvent

namespace TerminalRequest

/-- The row of the request. -/
def row (request : TerminalRequest) : RowKey where
  kind := .request
  role := none
  provider := request.provider
  model := request.model
  client := request.client
  credentialId := request.credentialId
  attribution := request.attribution
  outcome := request.outcome
  failureKind := request.failureKind

/-- What is folded. -/
def work (request : TerminalRequest) : TerminalWork where
  event := request.event
  outcome := request.outcome
  requestRow := request.row
  client := request.client
  attempts := request.attempts.map makeAttempt

def date (request : TerminalRequest) : Text :=
  dayFor request.event.endedAt

def minute (request : TerminalRequest) : Text :=
  minuteFor request.event.endedAt

end TerminalRequest

/-- `addDedup`: the request is remembered unless the list is full. -/
def addDedup (dedupLimit : Nat) (requestId : Text) (requestIds : List Text) : List Text :=
  if requestId ∈ requestIds then requestIds
  else if dedupLimit ≤ requestIds.length then requestIds
  else (requestIds ++ [requestId]).mergeSort fun a b => decide (a ≤ b)

/-- How many rows the day has room for. -/
def rowBudget (day : MutableDay) : Nat :=
  ACCOUNTING_MAX_DAY_ROWS - countDayRows day

/-- The part of `applyTerminal` behind the check for duplicates, on the day. -/
def applyToDay (dedupLimit : Nat) (day : MutableDay) (request : TerminalRequest) :
    MutableDay where
  cells := day.cells.set request.minute
    (foldCell (cellFor day request.minute) request.work (rowBudget day)).1
  requestIds := addDedup dedupLimit request.requestId day.requestIds

/-! ## The store -/

/-- The file of a day. -/
inductive Shard where
  | missing
  | unreadable
  | readable (day : MutableDay)

structure AccountingStore where
  days : Text → Option MutableDay
  dirtyDays : Text → Bool
  shards : Text → Shard
  closed : Bool

namespace AccountingStore

/-- The day as `loadDayForWrite` returns it; `none` is a shard that cannot be read. -/
def loadedDay (store : AccountingStore) (date : Text) : Option MutableDay :=
  match store.days date with
  | some day => some day
  | none =>
    match store.shards date with
    | .missing => some emptyDay
    | .unreadable => none
    | .readable day => some day

/-- `loadDayForWrite`: what was read stays in memory. -/
def loadDayForWrite (store : AccountingStore) (date : Text) : AccountingStore :=
  { store with days := Function.update store.days date (store.loadedDay date) }

/-- `usedInWindow`, on the day of `now`. A closed store reads what it has in memory. -/
def usedInWindow (store : AccountingStore) (options : UsedInWindowOptions) (date : Text) :
    UsedInWindowReading :=
  Accounting.usedInWindow options
    (if store.closed then store.days date else store.loadedDay date)

/-- Whether a flush writes the day. -/
def flushes (store : AccountingStore) (reached : List Text) (committed : Bool) (date : Text) :
    Bool :=
  store.dirtyDays date && (committed || decide (date ∈ reached)) && (store.days date).isSome

end AccountingStore

/-! ## What happens to a store -/

/-- A request that was applied to the store. -/
structure AppliedRequest where
  minute : Text
  row : RowKey
  tokens : AccountingTokenTotals

def TerminalRequest.applied (request : TerminalRequest) : AppliedRequest where
  minute := request.minute
  row := request.row
  tokens := request.event.tokens

inductive StoreStep where
  /-- A terminal request is recorded, or taken from the queue. -/
  | terminal (request : TerminalRequest)
  /-- A flush that commits, or fails behind the days it has reached. -/
  | flush (reached : List Text) (committed : Bool)
  /-- A day is read. -/
  | load (date : Text)
  /-- A clean day leaves memory. -/
  | evict (date : Text)
  /-- Retention removes a day. -/
  | prune (date : Text)
  /-- The file of a day becomes unreadable. -/
  | damage (date : Text)
  /-- The store is closed. -/
  | close
  /-- A new process opens the directory. -/
  | restart

/-- A store with the requests that were applied to it, and those that its files hold, day by
day. -/
structure AccountingWorld where
  store : AccountingStore
  applied : Text → List AppliedRequest
  written : Text → List AppliedRequest

namespace AccountingWorld

/-- A new store over an empty directory. -/
def opened : AccountingWorld where
  store :=
    { days := fun _ => none
      dirtyDays := fun _ => false
      shards := fun _ => .missing
      closed := false }
  applied := fun _ => []
  written := fun _ => []

/-- `applyTerminal`: nothing happens where the day cannot be read, or knows the request. -/
def applyTerminal (dedupLimit : Nat) (world : AccountingWorld) (request : TerminalRequest) :
    AccountingWorld :=
  match world.store.loadedDay request.date with
  | none => world
  | some day =>
    if request.requestId ∈ day.requestIds then
      { world with store := world.store.loadDayForWrite request.date }
    else
      { world with
        store :=
          { world.store with
            days := Function.update world.store.days request.date
              (some (applyToDay dedupLimit day request))
            dirtyDays := Function.update world.store.dirtyDays request.date true }
        applied := Function.update world.applied request.date
          (world.applied request.date ++ [request.applied]) }

/-- The shards that a flush leaves behind. -/
def flushedShards (world : AccountingWorld) (reached : List Text) (committed : Bool)
    (date : Text) : Shard :=
  if world.store.flushes reached committed date then
    ((world.store.days date).map Shard.readable).getD (world.store.shards date)
  else
    world.store.shards date

def step (dedupLimit : Nat) (world : AccountingWorld) : StoreStep → AccountingWorld
  | .terminal request =>
    if world.store.closed then world else world.applyTerminal dedupLimit request
  | .flush reached committed =>
    { world with
      store :=
        { world.store with
          shards := world.flushedShards reached committed
          dirtyDays := fun date => !committed && world.store.dirtyDays date }
      written := fun date =>
        if world.store.flushes reached committed date then world.applied date
        else world.written date }
  | .load date => { world with store := world.store.loadDayForWrite date }
  | .evict date =>
    if world.store.dirtyDays date then
      world
    else
      { world with
        store := { world.store with days := Function.update world.store.days date none } }
  | .prune date =>
    { world with
      store :=
        { world.store with
          days := Function.update world.store.days date none
          shards := Function.update world.store.shards date .missing } }
  | .damage date =>
    { world with
      store :=
        { world.store with shards := Function.update world.store.shards date .unreadable } }
  | .close => { world with store := { world.store with closed := true } }
  | .restart =>
    { world with
      store :=
        { world.store with
          days := fun _ => none
          dirtyDays := fun _ => false
          closed := false }
      applied := world.written }

/-- The world after a run. -/
def after (dedupLimit : Nat) (world : AccountingWorld) (steps : List StoreStep) :
    AccountingWorld :=
  steps.foldl (step dedupLimit) world

end AccountingWorld

end LlmRelay.Accounting
