import LlmRelay.Ecma.Promises

/-!
# The hedge race

A slow attempt raced against the candidate that would have been tried next
(`hedge-race.ts`). The async function is run by the jobs of its promises, and between any
two jobs its environment may settle promises.

## Main definitions

* `Settled`, `Side`, `HedgeRaceResult`: the data of a race;
* `Race.start`, `Race.resume`: `raceWithHedge`, up to its first wait and after each;
* `Race.step`: one event, of the environment or of the queue;
* `Race.run`: the state after any events.
-/

namespace LlmRelay

open Ecma

/-- A settled outcome, kept as data. -/
inductive Settled (α ε : Type*) where
  | ok (value : α)
  | error (error : ε)

/-- A side of the race. -/
inductive Side where
  | primary
  | hedge
  deriving DecidableEq

/-- The other side. -/
def Side.other : Side → Side
  | primary => hedge
  | hedge => primary

/-- What a race returns. -/
structure HedgeRaceResult (α ε : Type*) where
  winner : Side
  settled : Settled α ε
  hedgeStarted : Bool
  loser : Option Side

namespace Race

/-- The promises of a race: the entrants' own, the delay, and those the race derives. -/
inductive PromiseName where
  | entrant (side : Side)
  | delay
  | settled (side : Side)
  | firstOrDelay
  | tagged (side : Side)
  | first
  deriving DecidableEq

/-- The values of these promises. -/
inductive Value (α ε : Type*) where
  | settled (settled : Settled α ε)
  | delay
  | tagged (side : Side) (settled : Settled α ε)

/-- The reactions: both handlers of `settle`, the two `Promise.race`s, the tagging
handlers, and the resumption of the async function. -/
inductive Reaction where
  | settle (side : Side)
  | raceDelay
  | tag (side : Side)
  | raceTagged
  | resume
  deriving DecidableEq

/-- Where the async function waits, with its local values. -/
inductive Waiting (α ε : Type*) where
  | firstOrDelay
  | primaryOnly
  | race
  | other (first : Side) (settled : Settled α ε)
  | primaryFinal
  | done (result : HedgeRaceResult α ε)

/-- What the race does to its environment: it starts the hedge, noting whether the delay
is over and whether the primary is settled; it aborts an entrant; it clears the timer. -/
inductive Action where
  | startHedge (afterDelay primarySettled : Bool)
  | abort (side : Side)
  | clearTimer
  deriving DecidableEq

/-- The state of a race. `candidate` is what `startHedge` would return now: nothing, or an
entrant, whose promise may be settled already. -/
structure State (α ε : Type*) where
  jobs : Jobs PromiseName (Value α ε) Reaction
  timerArmed : Bool
  delayOver : Bool
  candidate : Option (Option (Settled α ε))
  hedgeStarted : Bool
  waiting : Waiting α ε
  log : List Action

variable {α ε : Type*}

namespace State

/-- Registers a reaction. -/
def react (s : State α ε) (name : PromiseName) (reaction : Reaction) : State α ε :=
  { s with jobs := s.jobs.react name reaction }

/-- Settles a promise. -/
def settle (s : State α ε) (name : PromiseName) (v : Value α ε) : State α ε :=
  { s with jobs := s.jobs.settle name v }

/-- Returns. -/
def return_ (s : State α ε) (winner : Side) (settled : Settled α ε) (hedgeStarted : Bool)
    (loser : Option Side) : State α ε :=
  { s with waiting := .done { winner, settled, hedgeStarted, loser } }

/-- The settlement of a side, once its promise is settled. -/
def settlement (s : State α ε) (side : Side) : Option (Settled α ε) :=
  match s.jobs.value (.entrant side) with
  | some (.settled settled) => some settled
  | _ => none

end State

/-- `raceWithHedge` up to its first wait: the primary's promise is settled into data, the
timer is armed, and the two are raced. -/
def start : State α ε :=
  { jobs := .idle
    timerArmed := true
    delayOver := false
    candidate := none
    hedgeStarted := false
    waiting := .firstOrDelay
    log := [] : State α ε }
    |>.react (.entrant .primary) (.settle .primary)
    |>.react (.settled .primary) .raceDelay
    |>.react .delay .raceDelay
    |>.react .firstOrDelay .resume

/-- The promise of a hedge that is settled already. -/
def State.enter (s : State α ε) : Option (Settled α ε) → State α ε
  | none => s
  | some settled => s.settle (.entrant .hedge) (.settled settled)

/-- The hedge's promise is settled into data, and the two tagged promises are raced. -/
def State.raceHedge (s : State α ε) : State α ε :=
  s.react (.entrant .hedge) (.settle .hedge)
    |>.react (.settled .primary) (.tag .primary)
    |>.react (.settled .hedge) (.tag .hedge)
    |>.react (.tagged .primary) .raceTagged
    |>.react (.tagged .hedge) .raceTagged
    |>.react .first .resume

/-- The delay is over: the hedge is started, where there is a candidate. -/
def startHedge (s : State α ε) : State α ε :=
  match s.candidate with
  | none => { s with waiting := .primaryOnly }.react (.settled .primary) .resume
  | some already =>
    let started := { s with
      hedgeStarted := true
      waiting := .race
      log := s.log ++ [Action.startHedge s.delayOver (s.jobs.value (.entrant .primary)).isSome] }
    (started.enter already).raceHedge

/-- The async function resumes with the value it waited for. -/
def resume (isWin : Settled α ε → Bool) (s : State α ε) (v : Value α ε) : State α ε :=
  match s.waiting, v with
  | .firstOrDelay, .settled settled =>
    { s with timerArmed := false, log := s.log ++ [Action.clearTimer] }.return_ .primary settled false none
  | .firstOrDelay, _ => startHedge s
  | .primaryOnly, .settled settled => s.return_ .primary settled false none
  | .race, .tagged side settled =>
    if isWin settled then
      { s with log := s.log ++ [Action.abort side.other] }.return_ side settled true (some side.other)
    else { s with waiting := .other side settled }.react (.settled side.other) .resume
  | .other side _, .settled settled =>
    if isWin settled then s.return_ side.other settled true (some side)
    else { s with waiting := .primaryFinal }.react (.settled .primary) .resume
  | .primaryFinal, .settled settled => s.return_ .primary settled true (some .hedge)
  | _, _ => s

/-- Runs one job. -/
def runJob (isWin : Settled α ε → Bool) (s : State α ε) : Reaction × Value α ε → State α ε
  | (.settle side, v) => s.settle (.settled side) v
  | (.raceDelay, v) => s.settle .firstOrDelay v
  | (.tag side, .settled settled) => s.settle (.tagged side) (.tagged side settled)
  | (.tag _, _) => s
  | (.raceTagged, v) => s.settle .first v
  | (.resume, v) => resume isWin s v

/-- What happens to a race: the timer fires, with what `startHedge` would return; the
promise of an entrant is settled; a job is run. -/
inductive Event (α ε : Type*) where
  | timer (candidate : Option (Option (Settled α ε)))
  | settle (side : Side) (settled : Settled α ε)
  | job

/-- Has the timer fired, with the async function not yet resumed? -/
def State.waking (s : State α ε) : Bool :=
  s.delayOver && match s.waiting with
    | .firstOrDelay => true
    | _ => false

/-- One event. The timer fires between jobs, when none is queued, and its callback only
settles the delay, so that nothing else happens before the function is resumed. A hedge
that was not started has no promise. -/
def step (isWin : Settled α ε → Bool) (s : State α ε) : Event α ε → State α ε
  | .timer candidate =>
    if s.timerArmed && s.jobs.queue.isEmpty then
      { s with timerArmed := false, delayOver := true, candidate }.settle .delay .delay
    else s
  | .settle side settled =>
    if s.waking || (side = .hedge && !s.hedgeStarted) then s
    else s.settle (.entrant side) (.settled settled)
  | .job =>
    match s.jobs.queue with
    | [] => s
    | job :: _ => runJob isWin { s with jobs := s.jobs.pop } job

/-- The state after some events. -/
def run (isWin : Settled α ε → Bool) (events : List (Event α ε)) : State α ε :=
  events.foldl (step isWin) start

end Race

end LlmRelay
