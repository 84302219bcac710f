import LlmRelay.Ecma.Number
import LlmRelay.Transition.Run

/-!
# The life of the ping loop

The ping loop probes deployments in the background (`ping/cadence.ts`). An iteration runs the
asynchronous tick and arms a timer for the next one when it ends; a change of the mode clears
the timer that is armed, and nothing arms another.

## Main definitions

* `PingLoop`, `LoopState`: the fields that control the loop, and what is under way;
* `setPingMode`, `noteUserActivity`, `refreshAutoPingMode`, `start`, `stop`: the operations;
* `PingEvent`, `LoopState.step`: one macrotask;
* `Harmless`: an event that neither clears a timer that is awaited nor starts a second loop.

## Main results

* `pingLoop_continues_iff`: in a run exactly one thing continues a started loop, at every
  moment, exactly where every event was harmless.
-/

namespace LlmRelay.Ping

open Ecma Transition

/-! ## The loop -/

inductive PingMode where
  | speed | normal | slow | forced
  deriving DecidableEq

def PING_MODE_INTERVALS : PingMode → Number
  | .speed => 2000
  | .normal => 10000
  | .slow => 30000
  | .forced => 4000

def SPEED_MODE_DURATION_MS : Number := 60000

def IDLE_SLOW_AFTER_MS : Number := 300000

/-- The fields of a loop that control it. -/
structure PingLoop where
  mode : PingMode
  modeSource : String
  intervalMs : Number
  speedUntil : Option Number
  lastActivityAt : Number
  resumeSpeedOnActivity : Bool
  timerObj : Option Nat
  running : Bool
  deriving DecidableEq

/-- An armed timer. -/
structure Timer where
  id : Nat
  delayMs : Number
  deriving DecidableEq

/-- A loop with the timers that are armed for it and the iterations in progress. -/
structure LoopState where
  loop : PingLoop
  timers : List Timer
  nextTimer : Nat
  iterations : Nat
  deriving DecidableEq

/-- What the clock says when an operation reads it, the first time and the second. -/
structure Readings where
  first : Number
  second : Number
  deriving DecidableEq

/-- A new loop. -/
def construct (clock : Readings) : LoopState where
  loop :=
    { mode := .speed
      modeSource := "startup"
      intervalMs := PING_MODE_INTERVALS .speed
      speedUntil := some (clock.first.add SPEED_MODE_DURATION_MS)
      lastActivityAt := clock.second
      resumeSpeedOnActivity := false
      timerObj := none
      running := false }
  timers := []
  nextTimer := 0
  iterations := 0

namespace LoopState

/-- Clears the timer the loop knows of. -/
def clearTimer (s : LoopState) : LoopState :=
  match s.loop.timerObj with
  | none => s
  | some id =>
    { s with
      loop := { s.loop with timerObj := none }
      timers := s.timers.filter fun t => t.id ≠ id }

/-- Changes the mode; the timer is cleared and not armed again. -/
def setPingMode (s : LoopState) (nextMode : PingMode) (source : String) (now : Number) :
    LoopState :=
  clearTimer
    { s with
      loop :=
        { s.loop with
          mode := nextMode
          modeSource := source
          intervalMs := PING_MODE_INTERVALS nextMode
          speedUntil := if nextMode = .speed then some (now.add SPEED_MODE_DURATION_MS) else none
          resumeSpeedOnActivity := source = "idle" } }

/-- A request was seen. -/
def noteUserActivity (s : LoopState) (clock : Readings) : LoopState :=
  let s := { s with loop := { s.loop with lastActivityAt := clock.first } }
  if s.loop.mode = .forced then s
  else if s.loop.resumeSpeedOnActivity || s.loop.mode = .slow then
    s.setPingMode .speed "activity" clock.second
  else s

/-- Is the time of the speed mode up? -/
def speedIsUp (loop : PingLoop) (now : Number) : Bool :=
  loop.speedUntil.any fun until_ => until_ ≠ 0 && until_.le now

/-- Has there been no activity for long? -/
def isIdle (loop : PingLoop) (now : Number) : Bool :=
  IDLE_SLOW_AFTER_MS.le (now.sub loop.lastActivityAt)

/-- Slows down after the speed mode and when idle. -/
def refreshAutoPingMode (s : LoopState) (clock : Readings) : LoopState :=
  if s.loop.mode = .forced then s
  else if speedIsUp s.loop clock.first then s.setPingMode .normal "auto" clock.second
  else if isIdle s.loop clock.first then
    if s.loop.mode ≠ .slow then s.setPingMode .slow "idle" clock.second
    else { s with loop := { s.loop with resumeSpeedOnActivity := true } }
  else s

/-- The synchronous part of an iteration; it begins only while the loop runs. -/
def beginIteration (s : LoopState) (clock : Readings) : LoopState × Bool :=
  if !s.loop.running then (s, false)
  else
    let s := s.refreshAutoPingMode clock
    ({ s with iterations := s.iterations + 1 }, true)

/-- The end of an iteration: the next one is armed while the loop runs. -/
def finishIteration (s : LoopState) : LoopState :=
  if s.iterations = 0 then s
  else
    let s := { s with iterations := s.iterations - 1 }
    if s.loop.running then
      { s with
        loop := { s.loop with timerObj := some s.nextTimer }
        timers := s.timers ++ [⟨s.nextTimer, s.loop.intervalMs⟩]
        nextTimer := s.nextTimer + 1 }
    else s

def start (s : LoopState) (clock : Readings) : LoopState × Bool :=
  if s.loop.running then (s, false)
  else beginIteration { s with loop := { s.loop with running := true } } clock

def stop (s : LoopState) : LoopState :=
  clearTimer { s with loop := { s.loop with running := false } }

/-- The armed timer `id` fires. -/
def fire (s : LoopState) (id : Nat) (clock : Readings) : LoopState × Bool :=
  if s.timers.any fun t => t.id = id then
    beginIteration { s with timers := s.timers.filter fun t => t.id ≠ id } clock
  else (s, false)

end LoopState

/-- One macrotask. A direct `tickOnce` belongs to no iteration, and only its first part touches
the control of the loop. -/
inductive PingEvent where
  | start (clock : Readings)
  | stop
  | setPingMode (nextMode : PingMode) (source : String) (now : Number)
  | noteUserActivity (clock : Readings)
  | tickOnce (clock : Readings)
  | timer (id : Nat) (clock : Readings)
  | tickCompleted
  deriving DecidableEq

/-- One macrotask, and whether an iteration began in it. -/
def LoopState.step (s : LoopState) : PingEvent → LoopState × Bool
  | .start clock => s.start clock
  | .stop => (s.stop, false)
  | .setPingMode nextMode source now => (s.setPingMode nextMode source now, false)
  | .noteUserActivity clock => (s.noteUserActivity clock, false)
  | .tickOnce clock => (s.refreshAutoPingMode clock, false)
  | .timer id clock => s.fire id clock
  | .tickCompleted => (s.finishIteration, false)

/-- What will continue the loop: the iterations in progress and the timers that are armed. -/
def LoopState.continuations (s : LoopState) : Nat :=
  s.iterations + s.timers.length

/-- Has the loop been started, and not stopped since? -/
def startedAfter (started : Bool) : PingEvent → Bool
  | .start _ => true
  | .stop => false
  | _ => started

/-- Is the loop started after some events? -/
def isStarted (events : List PingEvent) : Bool :=
  events.foldl startedAfter false

theorem isStarted_snoc (events : List PingEvent) (event : PingEvent) :
    isStarted (events ++ [event]) = startedAfter (isStarted events) event := by
  rw [isStarted, List.foldl_append]
  rfl

/-! ## What clears a timer -/

/-- Does the event change the mode? -/
def changesMode (loop : PingLoop) : PingEvent → Bool
  | .setPingMode _ _ _ => true
  | .noteUserActivity _ =>
    decide (loop.mode ≠ .forced) && (loop.resumeSpeedOnActivity || decide (loop.mode = .slow))
  | .tickOnce clock =>
    decide (loop.mode ≠ .forced) &&
      (LoopState.speedIsUp loop clock.first ||
        (LoopState.isIdle loop clock.first && decide (loop.mode ≠ .slow)))
  | _ => false

/-- A start finds no iteration of an earlier start in progress, and no other event changes the
mode while a timer of the running loop is armed. -/
def Harmless (s : LoopState) (event : PingEvent) : Prop :=
  (∀ clock, event = .start clock → s.loop.running = true ∨ s.iterations = 0) ∧
    (changesMode s.loop event = true → s.loop.running = false ∨ s.timers = [])

/-- What a run of harmless events keeps: the loop knows of the timer that is armed; running, one
thing continues it; stopped, at most an iteration that is about to end is left. -/
structure Alive (s : LoopState) : Prop where
  known : ∀ t ∈ s.timers, s.loop.timerObj = some t.id
  running : s.loop.running = true → s.continuations = 1
  stopped : s.loop.running = false → s.timers = [] ∧ s.iterations ≤ 1

namespace LoopState

variable {s : LoopState}

theorem timers_clearTimer (h : ∀ t ∈ s.timers, s.loop.timerObj = some t.id) :
    s.clearTimer.timers = [] := by
  unfold clearTimer
  cases hobj : s.loop.timerObj with
  | none =>
    refine List.eq_nil_iff_forall_not_mem.mpr fun t ht => ?_
    have := h t ht
    rw [hobj] at this
    cases this
  | some id =>
    refine List.filter_eq_nil_iff.mpr fun t ht => ?_
    have := h t ht
    rw [hobj] at this
    simp [Option.some.inj this]

@[simp] theorem running_clearTimer (s : LoopState) :
    s.clearTimer.loop.running = s.loop.running := by
  unfold clearTimer
  split <;> rfl

@[simp] theorem iterations_clearTimer (s : LoopState) : s.clearTimer.iterations = s.iterations := by
  unfold clearTimer
  split <;> rfl

@[simp] theorem running_setPingMode (s : LoopState) (nextMode : PingMode) (source : String)
    (now : Number) : (s.setPingMode nextMode source now).loop.running = s.loop.running := by
  rw [setPingMode, running_clearTimer]

@[simp] theorem iterations_setPingMode (s : LoopState) (nextMode : PingMode) (source : String)
    (now : Number) : (s.setPingMode nextMode source now).iterations = s.iterations := by
  rw [setPingMode, iterations_clearTimer]

theorem timers_setPingMode (h : ∀ t ∈ s.timers, s.loop.timerObj = some t.id)
    (nextMode : PingMode) (source : String) (now : Number) :
    (s.setPingMode nextMode source now).timers = [] :=
  timers_clearTimer h

end LoopState

/-- What an operation on the mode does to what continues the loop: it leaves it alone, or it
changes the mode and leaves no timer. -/
structure Moded (s s' : LoopState) (changed : Bool) : Prop where
  running : s'.loop.running = s.loop.running
  iterations : s'.iterations = s.iterations
  cleared : changed = true → s'.timers = []
  kept : changed = false → s'.timers = s.timers ∧ s'.loop.timerObj = s.loop.timerObj

theorem Moded.of_same {s s' : LoopState} (hrunning : s'.loop.running = s.loop.running)
    (hiterations : s'.iterations = s.iterations) (htimers : s'.timers = s.timers)
    (hobj : s'.loop.timerObj = s.loop.timerObj) : Moded s s' false where
  running := hrunning
  iterations := hiterations
  cleared := fun h => absurd h Bool.false_ne_true
  kept := fun _ => ⟨htimers, hobj⟩

namespace LoopState

variable {s : LoopState}

variable (h : ∀ t ∈ s.timers, s.loop.timerObj = some t.id)

include h

theorem moded_setPingMode (nextMode : PingMode) (source : String) (now : Number) :
    Moded s (s.setPingMode nextMode source now) true where
  running := running_setPingMode s nextMode source now
  iterations := iterations_setPingMode s nextMode source now
  cleared := fun _ => timers_setPingMode h nextMode source now
  kept := fun h => absurd h.symm Bool.false_ne_true

theorem moded_noteUserActivity (clock : Readings) :
    Moded s (s.noteUserActivity clock) (changesMode s.loop (.noteUserActivity clock)) := by
  unfold noteUserActivity changesMode
  by_cases hforced : s.loop.mode = .forced
  · rw [if_pos hforced, decide_eq_false (not_not.mpr hforced)]
    exact .of_same rfl rfl rfl rfl
  · rw [if_neg hforced, decide_eq_true hforced]
    by_cases hresume : (s.loop.resumeSpeedOnActivity || decide (s.loop.mode = .slow)) = true
    · rw [hresume]
      have hmoded := moded_setPingMode
        (s := { s with loop := { s.loop with lastActivityAt := clock.first } }) h .speed "activity"
        clock.second
      exact ⟨hmoded.running, hmoded.iterations, hmoded.cleared, hmoded.kept⟩
    · rw [if_neg hresume]
      rw [Bool.not_eq_true] at hresume
      rw [hresume]
      exact .of_same rfl rfl rfl rfl

theorem moded_refreshAutoPingMode (clock : Readings) :
    Moded s (s.refreshAutoPingMode clock) (changesMode s.loop (.tickOnce clock)) := by
  have hsame : ∀ resume : Bool, Moded s
      { s with loop := { s.loop with resumeSpeedOnActivity := resume } } false := fun _ =>
    .of_same rfl rfl rfl rfl
  have hself : Moded s s false := .of_same rfl rfl rfl rfl
  unfold refreshAutoPingMode changesMode
  dsimp only
  by_cases hforced : s.loop.mode = .forced
  · rw [if_pos hforced, decide_eq_false (not_not.mpr hforced)]
    exact hself
  · rw [if_neg hforced, decide_eq_true hforced]
    by_cases hup : speedIsUp s.loop clock.first = true
    · rw [hup]
      exact moded_setPingMode h .normal "auto" clock.second
    · rw [if_neg hup]
      rw [Bool.not_eq_true] at hup
      rw [hup]
      by_cases hidle : isIdle s.loop clock.first = true
      · rw [if_pos hidle, hidle]
        by_cases hslow : s.loop.mode = .slow
        · rw [if_neg (not_not.mpr hslow), decide_eq_false (not_not.mpr hslow)]
          exact hsame true
        · rw [if_pos hslow, decide_eq_true hslow]
          exact moded_setPingMode h .slow "idle" clock.second
      · rw [if_neg hidle]
        rw [Bool.not_eq_true] at hidle
        rw [hidle]
        exact hself

end LoopState

/-! ## One event -/

/-- A change of the mode that finds the loop alive keeps it alive exactly where no timer of the
running loop was armed. -/
theorem Moded.alive {s s' : LoopState} {changed : Bool} (h : Moded s s' changed) (halive : Alive s)
    (hharmless : changed = true → s.loop.running = false ∨ s.timers = []) : Alive s' := by
  cases changed with
  | true =>
    have hnone := h.cleared rfl
    refine ⟨fun t ht => ?_, fun hrun => ?_, fun hstop => ⟨hnone, ?_⟩⟩
    · rw [hnone] at ht
      exact absurd ht List.not_mem_nil
    · rw [h.running] at hrun
      rcases hharmless rfl with hstopped | htimers
      · rw [hrun] at hstopped
        cases hstopped
      · have hone := halive.running hrun
        rw [LoopState.continuations, htimers] at hone
        rw [LoopState.continuations, h.iterations, hnone]
        exact hone
    · rw [h.running] at hstop
      rw [h.iterations]
      exact (halive.stopped hstop).2
  | false =>
    obtain ⟨htimers, hobj⟩ := h.kept rfl
    refine ⟨fun t ht => ?_, fun hrun => ?_, fun hstop => ?_⟩
    · rw [hobj]
      exact halive.known t (htimers ▸ ht)
    · rw [LoopState.continuations, h.iterations, htimers]
      exact halive.running (h.running ▸ hrun)
    · rw [htimers, h.iterations]
      exact halive.stopped (h.running ▸ hstop)

namespace LoopState

variable {s : LoopState}

theorem alive_beginIteration (hrunning : s.loop.running = true) (htimers : s.timers = [])
    (hiterations : s.iterations = 0) (clock : Readings) :
    Alive (s.beginIteration clock).1 ∧ (s.beginIteration clock).2 = true := by
  have hknown : ∀ t ∈ s.timers, s.loop.timerObj = some t.id := by
    rw [htimers]
    exact fun t ht => absurd ht List.not_mem_nil
  have hmoded := moded_refreshAutoPingMode hknown clock
  have hnone : (s.refreshAutoPingMode clock).timers = [] := by
    cases hchanged : changesMode s.loop (.tickOnce clock) with
    | true => exact hmoded.cleared hchanged
    | false => rw [(hmoded.kept hchanged).1, htimers]
  have hstill : (s.refreshAutoPingMode clock).loop.running = true := by
    rw [hmoded.running, hrunning]
  unfold beginIteration
  rw [hrunning, Bool.not_true]
  refine ⟨⟨fun t ht => ?_, fun _ => ?_, fun hstop => ?_⟩, rfl⟩
  · change t ∈ (s.refreshAutoPingMode clock).timers at ht
    rw [hnone] at ht
    exact absurd ht List.not_mem_nil
  · change (s.refreshAutoPingMode clock).iterations + 1
      + (s.refreshAutoPingMode clock).timers.length = 1
    rw [hmoded.iterations, hiterations, hnone]
    rfl
  · change (s.refreshAutoPingMode clock).loop.running = false at hstop
    rw [hstill] at hstop
    cases hstop

theorem alive_finishIteration (halive : Alive s) : Alive s.finishIteration := by
  unfold finishIteration
  by_cases hnone : s.iterations = 0
  · rw [if_pos hnone]
    exact halive
  · rw [if_neg hnone]
    by_cases hrunning : s.loop.running = true
    · -- it was what continued the loop, so no timer is armed
      have hone := halive.running hrunning
      rw [continuations] at hone
      have htimers : s.timers = [] := List.length_eq_zero_iff.mp (by omega)
      rw [if_pos hrunning, htimers]
      refine ⟨fun t ht => ?_, fun _ => ?_, fun hstop => ?_⟩
      · rw [List.nil_append, List.mem_singleton] at ht
        rw [ht]
      · change s.iterations - 1 + 1 = 1
        omega
      · rw [hrunning] at hstop
        cases hstop
    · rw [if_neg hrunning]
      rw [Bool.not_eq_true] at hrunning
      obtain ⟨htimers, hiterations⟩ := halive.stopped hrunning
      refine ⟨halive.known, fun hrun => ?_, fun _ => ⟨htimers, ?_⟩⟩
      · rw [hrunning] at hrun
        cases hrun
      · change s.iterations - 1 ≤ 1
        omega

theorem alive_stop (halive : Alive s) : Alive s.stop := by
  have htimers : s.stop.timers = [] :=
    timers_clearTimer (s := { s with loop := { s.loop with running := false } }) halive.known
  have hrunning : s.stop.loop.running = false := running_clearTimer _
  have hiterations : s.stop.iterations = s.iterations := iterations_clearTimer _
  refine ⟨fun t ht => ?_, fun hrun => ?_, fun _ => ⟨htimers, ?_⟩⟩
  · rw [htimers] at ht
    exact absurd ht List.not_mem_nil
  · rw [hrunning] at hrun
    cases hrun
  · rw [hiterations]
    cases hrun : s.loop.running with
    | true =>
      have hone := halive.running hrun
      rw [continuations] at hone
      omega
    | false => exact (halive.stopped hrun).2

theorem alive_fire (halive : Alive s) (id : Nat) (clock : Readings) : Alive (s.fire id clock).1 := by
  unfold fire
  by_cases harmed : (s.timers.any fun t => t.id = id) = true
  · rw [if_pos harmed]
    obtain ⟨t, ht, -⟩ := List.any_eq_true.mp harmed
    cases hrunning : s.loop.running with
    | true =>
      -- the timer was what continued the loop
      have hone := halive.running hrunning
      rw [continuations] at hone
      have hpos : 0 < s.timers.length := List.length_pos_of_mem ht
      obtain ⟨t', htimers⟩ := List.length_eq_one_iff.mp (by omega : s.timers.length = 1)
      have hnone : (s.timers.filter fun t => t.id ≠ id) = [] := by
        rw [htimers] at harmed ⊢
        have hid : t'.id = id := by simpa using harmed
        simp [hid]
      exact (alive_beginIteration (s := { s with timers := s.timers.filter fun t => t.id ≠ id })
        hrunning hnone (by change s.iterations = 0; omega) clock).1
    | false =>
      rw [(halive.stopped hrunning).1] at ht
      exact absurd ht List.not_mem_nil
  · rw [if_neg harmed]
    exact halive

end LoopState

variable {event : PingEvent} {s : LoopState}

/-- **One harmless event** keeps the loop alive. -/
theorem Alive.step (halive : Alive s) (hharmless : Harmless s event) : Alive (s.step event).1 := by
  cases event with
  | start clock =>
    change Alive (s.start clock).1
    unfold LoopState.start
    by_cases hrunning : s.loop.running = true
    · rw [if_pos hrunning]
      exact halive
    · rw [if_neg hrunning]
      have hiterations := (hharmless.1 clock rfl).resolve_left hrunning
      rw [Bool.not_eq_true] at hrunning
      exact (LoopState.alive_beginIteration
        (s := { s with loop := { s.loop with running := true } }) rfl
        (halive.stopped hrunning).1 hiterations clock).1
  | stop => exact LoopState.alive_stop halive
  | setPingMode nextMode source now =>
    exact (LoopState.moded_setPingMode halive.known nextMode source now).alive halive hharmless.2
  | noteUserActivity clock =>
    exact (LoopState.moded_noteUserActivity halive.known clock).alive halive hharmless.2
  | tickOnce clock =>
    exact (LoopState.moded_refreshAutoPingMode halive.known clock).alive halive hharmless.2
  | timer id clock => exact LoopState.alive_fire halive id clock
  | tickCompleted => exact LoopState.alive_finishIteration halive

/-! ## The flag -/

namespace LoopState

variable (s : LoopState) (clock : Readings)

@[simp] theorem running_noteUserActivity :
    (s.noteUserActivity clock).loop.running = s.loop.running := by
  unfold noteUserActivity
  dsimp only
  split
  · rfl
  · split
    · rw [running_setPingMode]
    · rfl

@[simp] theorem running_refreshAutoPingMode :
    (s.refreshAutoPingMode clock).loop.running = s.loop.running := by
  unfold refreshAutoPingMode
  split
  · rfl
  · split
    · exact running_setPingMode s _ _ _
    · split
      · split
        · exact running_setPingMode s _ _ _
        · rfl
      · rfl

theorem running_beginIteration : (s.beginIteration clock).1.loop.running = s.loop.running := by
  unfold beginIteration
  split
  · rfl
  · exact running_refreshAutoPingMode s clock

end LoopState

/-- **The flag** says whether the loop is started. -/
theorem running_step (s : LoopState) (event : PingEvent) :
    (s.step event).1.loop.running = startedAfter s.loop.running event := by
  cases event with
  | start clock =>
    change (s.start clock).1.loop.running = true
    unfold LoopState.start
    split
    · assumption
    · rw [LoopState.running_beginIteration]
  | stop => exact LoopState.running_clearTimer _
  | setPingMode nextMode source now => exact LoopState.running_setPingMode s _ _ _
  | noteUserActivity clock => exact LoopState.running_noteUserActivity s clock
  | tickOnce clock => exact LoopState.running_refreshAutoPingMode s clock
  | timer id clock =>
    change (s.fire id clock).1.loop.running = s.loop.running
    unfold LoopState.fire
    split
    · rw [LoopState.running_beginIteration]
    · rfl
  | tickCompleted =>
    change s.finishIteration.loop.running = s.loop.running
    unfold LoopState.finishIteration
    dsimp only
    split
    · rfl
    · split <;> rfl

/-- **An event that is not harmless** leaves a started loop with nothing to continue it, or with
more than one thing. -/
theorem continuations_ne_one (halive : Alive s) (h : ¬ Harmless s event) :
    (s.step event).1.loop.running = true ∧ (s.step event).1.continuations ≠ 1 := by
  rw [Harmless, not_and_or] at h
  rcases h with hstart | hmode
  · -- an iteration of an earlier start is left, and another begins
    simp only [not_forall, not_or] at hstart
    obtain ⟨clock, rfl, hstopped, hiterations⟩ := hstart
    refine ⟨by rw [running_step]; rfl, ?_⟩
    rw [Bool.not_eq_true] at hstopped
    have hknown : ∀ t ∈ s.timers, s.loop.timerObj = some t.id := halive.known
    have hmoded := LoopState.moded_refreshAutoPingMode
      (s := { s with loop := { s.loop with running := true } }) hknown clock
    change (s.start clock).1.continuations ≠ 1
    unfold LoopState.start LoopState.beginIteration
    rw [hstopped]
    dsimp only
    rw [hmoded.iterations]
    change s.iterations + 1 + _ ≠ 1
    omega
  · -- the timer that was to continue the loop is cleared
    rw [Classical.not_imp, not_or] at hmode
    obtain ⟨hchanges, hrunning, htimers⟩ := hmode
    rw [Bool.not_eq_false] at hrunning
    have hone := halive.running hrunning
    rw [LoopState.continuations] at hone
    have hpos : 0 < s.timers.length := List.length_pos_iff.mpr htimers
    have hmoded : Moded s (s.step event).1 true := by
      cases event with
      | setPingMode nextMode source now =>
        exact LoopState.moded_setPingMode halive.known nextMode source now
      | noteUserActivity clock =>
        exact hchanges ▸ LoopState.moded_noteUserActivity halive.known clock
      | tickOnce clock => exact hchanges ▸ LoopState.moded_refreshAutoPingMode halive.known clock
      | _ => cases hchanges
    refine ⟨by rw [hmoded.running, hrunning], ?_⟩
    rw [LoopState.continuations, hmoded.iterations, hmoded.cleared rfl]
    change s.iterations + 0 ≠ 1
    omega

theorem begins_only_running (hstopped : s.loop.running = false)
    (hevent : ∀ clock, event ≠ .start clock) : (s.step event).2 = false := by
  cases event with
  | start clock => exact absurd rfl (hevent clock)
  | timer id clock =>
    change (s.fire id clock).2 = false
    unfold LoopState.fire LoopState.beginIteration
    rw [hstopped, Bool.not_false]
    split <;> rfl
  | _ => rfl

/-! ## Runs -/

section Runs

variable (clock : Readings)

theorem running_finalState (events : List PingEvent) :
    (finalState LoopState.step (construct clock) events).loop.running = isStarted events := by
  induction events using List.reverseRecOn with
  | nil => rfl
  | append_singleton events event ih =>
    rw [finalState_snoc, running_step, isStarted_snoc, ih]

theorem alive_finalState {events : List PingEvent} (h : ∀ pre event, pre ++ [event] <+: events →
      Harmless (finalState LoopState.step (construct clock) pre) event) :
    Alive (finalState LoopState.step (construct clock) events) := by
  induction events using List.reverseRecOn with
  | nil =>
    exact ⟨fun t ht => absurd ht List.not_mem_nil, fun hrun => absurd hrun Bool.false_ne_true,
      fun _ => ⟨rfl, Nat.zero_le _⟩⟩
  | append_singleton events event ih =>
    rw [finalState_snoc]
    refine (ih fun pre event' hpre => h pre event' ?_).step (h events event List.prefix_rfl)
    exact hpre.trans (List.prefix_append events [event])

/-- **The life of the ping loop.** In every run of a loop: at every moment when it is started
exactly one thing will continue it, an iteration in progress or an armed timer, exactly where each
event was harmless: no start found an iteration of an earlier start in progress, and no change of
the mode found a timer of the running loop armed. And in a loop that is not started no iteration
begins, whatever happens but a start. -/
theorem pingLoop_continues_iff (events : List PingEvent) :
    ((∀ pre, pre <+: events → isStarted pre = true →
        (finalState LoopState.step (construct clock) pre).continuations = 1) ↔
      ∀ pre event, pre ++ [event] <+: events →
        Harmless (finalState LoopState.step (construct clock) pre) event) ∧
    ∀ pre event, pre ++ [event] <+: events → isStarted pre = false →
      (∀ clock, event ≠ .start clock) →
        ((finalState LoopState.step (construct clock) pre).step event).2 = false := by
  refine ⟨⟨fun h => ?_, fun h pre hpre hstarted => ?_⟩, fun pre event _ hstopped hevent => ?_⟩
  · -- the first event that is not harmless breaks the loop
    refine forall_step_of_earlier fun pre event hpre hearlier => ?_
    by_contra hharm
    obtain ⟨hrunning, hne⟩ := continuations_ne_one (alive_finalState clock hearlier) hharm
    rw [← finalState_snoc] at hrunning hne
    rw [running_finalState] at hrunning
    exact hne (h _ hpre hrunning)
  · rw [← running_finalState clock] at hstarted
    have halive : Alive (finalState LoopState.step (construct clock) pre) :=
      alive_finalState clock fun before event hbefore => h before event (hbefore.trans hpre)
    exact halive.running hstarted
  · rw [← running_finalState clock] at hstopped
    exact begins_only_running hstopped hevent

end Runs

/-- A loop that slowed down for want of activity, and a request while its timer is armed. -/
def wokenLoop : List PingEvent :=
  [.start ⟨70000, 70000⟩, .tickCompleted, .timer 0 ⟨400000, 400000⟩, .tickCompleted,
    .noteUserActivity ⟨400001, 400001⟩]

/-- A loop that is stopped and started again during its first tick. -/
def restartedLoop : List PingEvent :=
  [.start ⟨0, 0⟩, .stop, .start ⟨1, 1⟩]

/-- Nothing continues the first loop, and two things continue the second. -/
theorem pingLoop_dies_or_doubles :
    (isStarted wokenLoop = true ∧
        (finalState LoopState.step (construct ⟨0, 0⟩) wokenLoop).continuations = 0) ∧
      (isStarted restartedLoop = true ∧
        (finalState LoopState.step (construct ⟨0, 0⟩) restartedLoop).continuations = 2) ∧
      ¬ ∀ clock events, isStarted events = true →
        (finalState LoopState.step (construct clock) events).continuations = 1 := by
  have hzero : (finalState LoopState.step (construct ⟨0, 0⟩) wokenLoop).continuations = 0 := by
    decide +kernel
  refine ⟨⟨rfl, hzero⟩, ⟨rfl, by decide +kernel⟩, fun h => ?_⟩
  have hone := h ⟨0, 0⟩ wokenLoop rfl
  rw [hzero] at hone
  cases hone

end LlmRelay.Ping
