import LlmRelay.Dispatch.LaneAffinity
import Mathlib.Data.List.DropRight

/-!
# Statistics of lane runs

Each settled run of a lane is reported, and counted in the window of its tier, mode and lane
(`dispatch-lane-stats.ts`). A window has counters, the durations of the last completed runs with
their times, and the streak of failures since the last completed one; the windows are filed under
one text that joins tier, mode and lane.

## Main definitions

* `parseTelemetryReport`: the reports that are accepted;
* `LaneStats.record`, `recordLaneRun`: a run in its window, and in the windows of a config;
* `exportLaneStatsRows`, `isLaneStatsRow`, `restoreLaneStatsRows`: persistence;
* `windowOf`: the window that some runs of one tier, mode and lane make;
* `StatsRun`: the states reached by reports and restores, with the runs they come from.

## Main results

* `record_windowOf`: one more run;
* `StatsRun.windows`: the windows of a state are those of its runs;
* `lane_stats_kept_iff`: they are, and survive a restart, exactly where no two of the recorded
  triples share a text.
-/

namespace LlmRelay.Dispatch

open Ecma Dashboard

/-! ## Reports -/

inductive DispatchLaneKind where
  | cli | relay
  deriving DecidableEq

inductive DispatchLaneStatus where
  | completed | failed | timed_out | abandoned
  deriving DecidableEq

inductive DispatchMode where
  | agent | answer
  deriving DecidableEq

def DispatchMode.name : DispatchMode → Text
  | .agent => text "agent"
  | .answer => text "answer"

/-- The tier, mode and lane that a window belongs to. -/
structure LaneWindow where
  tier : Option Text
  mode : Option DispatchMode
  laneId : Text
  deriving DecidableEq

structure DispatchedTelemetryReport where
  jobId : Text
  laneId : Text
  kind : DispatchLaneKind
  spec : Option Text
  tier : Option Text
  mode : Option DispatchMode
  wallClockMs : Number
  exitCode : Option Number
  status : DispatchLaneStatus
  estimatedInputTokens : Number
  estimatedOutputTokens : Number
  deriving DecidableEq

def DispatchedTelemetryReport.window (report : DispatchedTelemetryReport) : LaneWindow :=
  ⟨report.tier, report.mode, report.laneId⟩

def REPORT_KEYS : List Text :=
  [text "jobId", text "laneId", text "kind", text "spec", text "tier", text "mode",
    text "wallClockMs", text "exitCode", text "status", text "estimatedInputTokens",
    text "estimatedOutputTokens"]

def MAX_JOB_ID_CHARS : Nat := 64

def MAX_SPEC_CHARS : Nat := 200

/-- Is the text a safe id of at most `maxChars` characters? -/
def isBoundedId (value : Text) (maxChars : Nat) : Bool :=
  1 ≤ value.length && value.length ≤ maxChars && isDashboardSafeId value

/-- `Number.isInteger`. -/
def isInteger : Number → Bool
  | .fin q => q.den = 1
  | _ => false

def isTokenCount (value : Number) : Bool :=
  isInteger value && !value.lt 0

/-- A finite number that is not negative. -/
def isDuration (value : Number) : Bool :=
  value.isFinite && !value.lt 0

def boundedId? (maxChars : Nat) : Json → Option Text
  | .str s => if isBoundedId s maxChars then some s else none
  | _ => none

def mode? : Json → Option DispatchMode
  | .str s =>
    if s = text "agent" then some .agent else if s = text "answer" then some .answer else none
  | _ => none

def kind? : Json → Option DispatchLaneKind
  | .str s => if s = text "cli" then some .cli else if s = text "relay" then some .relay else none
  | _ => none

def status? : Json → Option DispatchLaneStatus
  | .str s =>
    if s = text "completed" then some .completed
    else if s = text "failed" then some .failed
    else if s = text "timed_out" then some .timed_out
    else if s = text "abandoned" then some .abandoned
    else none
  | _ => none

/-- A number that satisfies a check. -/
def numberWhere (check : Number → Bool) : Json → Option Number
  | .num x => if check x then some x else none
  | _ => none

/-- `null`, or a whole number. -/
def exitCode? : Json → Option (Option Number)
  | .null => some none
  | value => (numberWhere isInteger value).map some

/-- A field that may be absent. -/
def optionalField {α : Type} (read : Json → Option α) : Option Json → Option (Option α)
  | none => some none
  | some value => (read value).map some

/-- The report that a body states; anything unexpected gives none. -/
def parseTelemetryReport (value : Json) : Option DispatchedTelemetryReport :=
  match value with
  | .obj fields =>
    if fields.all fun e => REPORT_KEYS.contains e.1 then do
      let jobId ← (lookupEntry (text "jobId") fields).bind (boundedId? MAX_JOB_ID_CHARS)
      let laneId ← (lookupEntry (text "laneId") fields).bind (boundedId? MAX_LANE_ID_CHARS)
      let spec ← optionalField (boundedId? MAX_SPEC_CHARS) (lookupEntry (text "spec") fields)
      let tier ← optionalField (boundedId? MAX_TIER_CHARS) (lookupEntry (text "tier") fields)
      let mode ← optionalField mode? (lookupEntry (text "mode") fields)
      let kind ← (lookupEntry (text "kind") fields).bind kind?
      let status ← (lookupEntry (text "status") fields).bind status?
      let wallClockMs ← (lookupEntry (text "wallClockMs") fields).bind (numberWhere isDuration)
      let exitCode ← (lookupEntry (text "exitCode") fields).bind exitCode?
      let input ← (lookupEntry (text "estimatedInputTokens") fields).bind (numberWhere isTokenCount)
      let output ←
        (lookupEntry (text "estimatedOutputTokens") fields).bind (numberWhere isTokenCount)
      pure ⟨jobId, laneId, kind, spec, tier, mode, wallClockMs, exitCode, status, input, output⟩
    else none
  | _ => none

/-! ## Windows -/

/-- The text of a time: that of an instant, or one that no date has. -/
inductive Stamp where
  | instant (t : Nat)
  | noDate (s : Text)
  deriving DecidableEq

@[ext] structure LaneStats where
  laneId : Text
  tier : Option Text
  mode : Option DispatchMode
  calls : Number
  successes : Number
  failures : Number
  timeouts : Number
  consecutiveFailures : Number
  lastSuccessAt : Option Number
  wallClockMs : List Number
  wallClockAt : List (Option Stamp)
  lastAt : Option Number
  deriving DecidableEq

def LaneStats.window (stats : LaneStats) : LaneWindow :=
  ⟨stats.tier, stats.mode, stats.laneId⟩

def MAX_LANE_STAT_SAMPLES : Nat := 100

def freshLaneStats (key : LaneWindow) : LaneStats where
  laneId := key.laneId
  tier := key.tier
  mode := key.mode
  calls := 0
  successes := 0
  failures := 0
  timeouts := 0
  consecutiveFailures := 0
  lastSuccessAt := none
  wallClockMs := []
  wallClockAt := []
  lastAt := none

def statsKey (key : LaneWindow) : Text :=
  key.tier.getD [] ++ text "|" ++ (key.mode.map DispatchMode.name).getD [] ++ text "|" ++ key.laneId

/-- The counters after a run. -/
def LaneStats.count (entry : LaneStats) (status : DispatchLaneStatus) (now : Nat) : LaneStats :=
  match status with
  | .completed =>
    { entry with successes := entry.successes.add 1, consecutiveFailures := 0,
                 lastSuccessAt := some (.fin now) }
  | .failed =>
    { entry with failures := entry.failures.add 1,
                 consecutiveFailures := entry.consecutiveFailures.add 1 }
  | .timed_out =>
    { entry with timeouts := entry.timeouts.add 1, failures := entry.failures.add 1,
                 consecutiveFailures := entry.consecutiveFailures.add 1 }
  | .abandoned => { entry with failures := entry.failures.add 1 }

/-- The oldest samples beyond the bound are dropped from both windows. -/
def LaneStats.trim (entry : LaneStats) : LaneStats :=
  if MAX_LANE_STAT_SAMPLES < entry.wallClockMs.length then
    let drop := entry.wallClockMs.length - MAX_LANE_STAT_SAMPLES
    { entry with wallClockMs := entry.wallClockMs.drop drop,
                 wallClockAt := entry.wallClockAt.drop drop }
  else entry

/-- Only a completed run adds a sample. -/
def LaneStats.sample (entry : LaneStats) (report : DispatchedTelemetryReport) (now : Nat) :
    LaneStats :=
  if report.status = .completed then
    { entry with wallClockMs := entry.wallClockMs ++ [report.wallClockMs],
                 wallClockAt := entry.wallClockAt ++ [some (.instant now)] }
  else entry

/-- A run in its window. -/
def LaneStats.record (entry : LaneStats) (report : DispatchedTelemetryReport) (now : Nat) :
    LaneStats :=
  let counted := { entry with calls := entry.calls.add 1 }.count report.status now
  { (counted.sample report now).trim with lastAt := some (.fin now) }

/-- The windows of a config, filed under the texts of what they belong to. -/
abbrev LaneStatsMap := Table LaneStats.window statsKey

/-- A run in the window that its text leads to, or in a fresh one. -/
def recordLaneRun (m : LaneStatsMap) (report : DispatchedTelemetryReport) (now : Nat) :
    LaneStatsMap :=
  let entry := (m.rows.get? (statsKey report.window)).getD (freshLaneStats report.window)
  m.put (entry.record report now)

def laneStatsFor (m : LaneStatsMap) (key : LaneWindow) : Option LaneStats :=
  m.rows.get? (statsKey key)

/-! ## Rows -/

/-- A persisted window; an older one may lack some of its fields. -/
structure LaneStatsRow where
  laneId : Text
  tier : Option Text
  mode : Option DispatchMode
  calls : Number
  successes : Number
  failures : Number
  timeouts : Number
  consecutiveFailures : Option Number
  abandonedSinceSuccess : Option Number
  lastSuccessAt : Option Number
  wallClockMs : List Number
  wallClockAt : Option (List (Option Stamp))
  lastAt : Option Number
  deriving DecidableEq

/-- The windows by lane, then tier, then mode. -/
def compareRows (a b : LaneStats) : Ordering :=
  (compare a.laneId b.laneId).then
    ((compare (a.tier.getD []) (b.tier.getD [])).then
      (compare ((a.mode.map DispatchMode.name).getD []) ((b.mode.map DispatchMode.name).getD [])))

def allLaneStats (m : LaneStatsMap) : List LaneStats :=
  m.rows.values.mergeSort fun a b => compareRows a b != .gt

def exportRow (s : LaneStats) : LaneStatsRow where
  laneId := s.laneId
  tier := s.tier
  mode := s.mode
  calls := s.calls
  successes := s.successes
  failures := s.failures
  timeouts := s.timeouts
  consecutiveFailures := some s.consecutiveFailures
  abandonedSinceSuccess := none
  lastSuccessAt := s.lastSuccessAt
  wallClockMs := s.wallClockMs
  wallClockAt := some s.wallClockAt
  lastAt := s.lastAt

def exportLaneStatsRows (m : LaneStatsMap) : List LaneStatsRow :=
  (allLaneStats m).map exportRow

def isWallClockAt (value : Option (List (Option Stamp))) (samples : Nat) : Bool :=
  value.all fun stamps =>
    stamps.length == samples && stamps.all fun
      | some (.noDate _) => false
      | _ => true

def hasValidStreakFields (row : LaneStatsRow) : Bool :=
  row.consecutiveFailures.all isTokenCount && row.abandonedSinceSuccess.all isTokenCount &&
    row.lastSuccessAt.all isDuration

def hasValidSamples (row : LaneStatsRow) : Bool :=
  row.wallClockMs.length ≤ MAX_LANE_STAT_SAMPLES && row.wallClockMs.all isDuration &&
    isWallClockAt row.wallClockAt row.wallClockMs.length

/-- Is the row admitted from a file? -/
def isLaneStatsRow (row : LaneStatsRow) : Bool :=
  isBoundedId row.laneId MAX_LANE_ID_CHARS && row.tier.all (isBoundedId · MAX_TIER_CHARS) &&
    isTokenCount row.calls && isTokenCount row.successes && isTokenCount row.failures &&
    isTokenCount row.timeouts && hasValidStreakFields row && hasValidSamples row &&
    row.lastAt.all isDuration

/-- The samples a row restores with; those of an older row may not all be answers. -/
def restoredWindow (row : LaneStatsRow) : List Number × List (Option Stamp) :=
  if row.consecutiveFailures = none ∧ row.successes.lt (.fin row.wallClockMs.length) then ([], [])
  else (row.wallClockMs.rtake MAX_LANE_STAT_SAMPLES,
    (row.wallClockAt.getD (List.replicate row.wallClockMs.length none)).rtake MAX_LANE_STAT_SAMPLES)

def restoredStats (row : LaneStatsRow) : LaneStats where
  laneId := row.laneId
  tier := row.tier
  mode := row.mode
  calls := row.calls
  successes := row.successes
  failures := row.failures
  timeouts := row.timeouts
  consecutiveFailures :=
    row.consecutiveFailures.getD (if row.successes = 0 then row.failures else 0)
  lastSuccessAt := row.lastSuccessAt
  wallClockMs := (restoredWindow row).1
  wallClockAt := (restoredWindow row).2
  lastAt := row.lastAt

/-- Restores rows; a window that is there stays. -/
def restoreLaneStatsRows (m : LaneStatsMap) (rows : List LaneStatsRow) : LaneStatsMap :=
  (rows.map restoredStats).foldl Table.putNew m

/-! ## The windows of some runs -/

/-- What a report says about a run. -/
structure LaneRun where
  status : DispatchLaneStatus
  wallClockMs : Number
  now : Nat
  deriving DecidableEq

def LaneRun.isCompleted (run : LaneRun) : Bool :=
  run.status = .completed

/-- Did the lane fail on its own? -/
def LaneRun.isOwnFailure (run : LaneRun) : Bool :=
  run.status = .failed || run.status = .timed_out

def LaneRun.isTimeout (run : LaneRun) : Bool :=
  run.status = .timed_out

/-- The window that the runs of a tier, mode and lane make. -/
def windowOf (key : LaneWindow) (runs : List LaneRun) : LaneStats where
  laneId := key.laneId
  tier := key.tier
  mode := key.mode
  calls := .fin runs.length
  successes := .fin (runs.countP LaneRun.isCompleted)
  failures := .fin (runs.countP fun run => !run.isCompleted)
  timeouts := .fin (runs.countP LaneRun.isTimeout)
  consecutiveFailures :=
    .fin ((runs.rtakeWhile fun run => !run.isCompleted).countP LaneRun.isOwnFailure)
  lastSuccessAt := (runs.filter LaneRun.isCompleted).getLast?.map fun run => .fin run.now
  wallClockMs :=
    ((runs.filter LaneRun.isCompleted).map LaneRun.wallClockMs).rtake MAX_LANE_STAT_SAMPLES
  wallClockAt :=
    ((runs.filter LaneRun.isCompleted).map fun run => some (.instant run.now)).rtake
      MAX_LANE_STAT_SAMPLES
  lastAt := runs.getLast?.map fun run => .fin run.now

variable {α : Type*}

theorem drop_rtake_append (xs : List α) (x : α) (n : Nat) :
    (xs.rtake n ++ [x]).drop ((xs.rtake n ++ [x]).length - n) = (xs ++ [x]).rtake n := by
  change (xs.rtake n ++ [x]).rtake n = _
  rw [List.rtake_eq_reverse_take_reverse, List.rtake_eq_reverse_take_reverse,
    List.rtake_eq_reverse_take_reverse, List.reverse_append, List.reverse_append,
    List.reverse_reverse, List.reverse_singleton]
  cases n with
  | zero => rfl
  | succ n =>
    rw [List.singleton_append, List.singleton_append, List.take_succ_cons, List.take_succ_cons,
      List.take_take, Nat.min_eq_left (Nat.le_succ n)]

theorem length_rtake (xs : List α) (n : Nat) : (xs.rtake n).length = min n xs.length := by
  rw [List.rtake, List.length_drop]
  omega

theorem trim_eq (entry : LaneStats) :
    entry.trim = { entry with
      wallClockMs := entry.wallClockMs.drop (entry.wallClockMs.length - MAX_LANE_STAT_SAMPLES)
      wallClockAt := entry.wallClockAt.drop
        (entry.wallClockMs.length - MAX_LANE_STAT_SAMPLES) } := by
  unfold LaneStats.trim
  split
  · rfl
  · rename_i hshort
    rw [Nat.sub_eq_zero_of_le (Nat.le_of_not_lt hshort), List.drop_zero, List.drop_zero]

/-- A report as a run. -/
def runOf (report : DispatchedTelemetryReport) (now : Nat) : LaneRun :=
  ⟨report.status, report.wallClockMs, now⟩

/-- What a run adds to the samples. -/
def samplesOf {α : Type*} (run : LaneRun) (x : α) : List α :=
  if run.isCompleted then [x] else []

theorem record_eq (entry : LaneStats) (report : DispatchedTelemetryReport) (now : Nat) :
    let run := runOf report now
    let samples := entry.wallClockMs ++ samplesOf run run.wallClockMs
    entry.record report now = { entry with
      calls := entry.calls.add 1
      successes := if run.isCompleted then entry.successes.add 1 else entry.successes
      failures := if !run.isCompleted then entry.failures.add 1 else entry.failures
      timeouts := if run.isTimeout then entry.timeouts.add 1 else entry.timeouts
      consecutiveFailures :=
        if run.isCompleted then 0
        else if run.isOwnFailure then entry.consecutiveFailures.add 1
        else entry.consecutiveFailures
      lastSuccessAt := if run.isCompleted then some (.fin now) else entry.lastSuccessAt
      wallClockMs := samples.drop (samples.length - MAX_LANE_STAT_SAMPLES)
      wallClockAt := (entry.wallClockAt ++ samplesOf run (some (Stamp.instant now))).drop
        (samples.length - MAX_LANE_STAT_SAMPLES)
      lastAt := some (.fin now) } := by
  unfold LaneStats.record
  dsimp only
  rw [trim_eq]
  unfold LaneStats.sample runOf samplesOf
  cases report.status <;>
    simp [LaneStats.count, LaneRun.isCompleted, LaneRun.isTimeout, LaneRun.isOwnFailure]

theorem countP_concat_fin (p : LaneRun → Bool) (runs : List LaneRun) (run : LaneRun) :
    (if p run then (Number.fin (runs.countP p)).add 1 else .fin (runs.countP p))
      = .fin ((runs ++ [run]).countP p) := by
  rw [List.countP_append, List.countP_singleton]
  split
  · rw [Nat.cast_succ]
    rfl
  · rfl

theorem filter_concat (runs : List LaneRun) (run : LaneRun) :
    (runs ++ [run]).filter LaneRun.isCompleted
      = runs.filter LaneRun.isCompleted ++ samplesOf run run := by
  rw [List.filter_append]
  unfold samplesOf
  cases hrun : run.isCompleted with
  | true => rw [List.filter_cons_of_pos hrun, if_pos rfl, List.filter_nil]
  | false => rw [List.filter_cons_of_neg (by simp [hrun]), if_neg Bool.false_ne_true, List.filter_nil]

theorem rtake_samples (f : LaneRun → α) (runs : List LaneRun) (run : LaneRun) (n : Nat) :
    let samples := ((runs.filter LaneRun.isCompleted).map f).rtake n ++ samplesOf run (f run)
    samples.drop (samples.length - n)
      = (((runs ++ [run]).filter LaneRun.isCompleted).map f).rtake n := by
  dsimp only
  rw [filter_concat, List.map_append]
  unfold samplesOf
  split
  · exact drop_rtake_append _ _ n
  · rw [List.append_nil, List.map_nil, List.append_nil, length_rtake,
      Nat.sub_eq_zero_of_le (Nat.min_le_left _ _), List.drop_zero]

/-- **One more run** in the window of some runs makes the window of them all. -/
theorem record_windowOf (key : LaneWindow) (runs : List LaneRun)
    (report : DispatchedTelemetryReport) (now : Nat) :
    (windowOf key runs).record report now = windowOf key (runs ++ [runOf report now]) := by
  have hstamps : ∀ run : LaneRun,
      ((windowOf key runs).wallClockMs ++ samplesOf run run.wallClockMs).length
        = ((windowOf key runs).wallClockAt ++ samplesOf run (some (Stamp.instant run.now))).length := by
    intro run
    unfold samplesOf windowOf
    split <;> simp [length_rtake]
  rw [record_eq]
  apply LaneStats.ext
  case laneId | tier | mode => rfl
  case calls =>
    change (Number.fin runs.length).add 1 = .fin (runs ++ [runOf report now]).length
    rw [List.length_append, List.length_singleton, Nat.cast_succ]
    rfl
  case successes => exact countP_concat_fin _ runs _
  case failures => exact countP_concat_fin (fun run => !run.isCompleted) runs _
  case timeouts => exact countP_concat_fin _ runs _
  case consecutiveFailures =>
    unfold windowOf
    rw [List.rtakeWhile_concat]
    cases hcompleted : (runOf report now).isCompleted with
    | true => rfl
    | false =>
      exact countP_concat_fin _ _ _
  case lastSuccessAt =>
    unfold windowOf
    dsimp only
    rw [filter_concat]
    unfold samplesOf
    split
    · rw [List.getLast?_concat]
      rfl
    · rw [List.append_nil]
  case wallClockMs =>
    dsimp only
    exact rtake_samples LaneRun.wallClockMs runs _ _
  case wallClockAt =>
    rw [hstamps]
    dsimp only
    exact rtake_samples (fun run => some (Stamp.instant run.now)) runs _ _
  case lastAt =>
    unfold windowOf
    rw [List.getLast?_concat]
    rfl

/-- What holds of the window of some runs. -/
structure Consistent (runs : List LaneRun) (stats : LaneStats) : Prop where
  calls : stats.calls = .fin runs.length
  outcomes : stats.successes.add stats.failures = stats.calls
  timeouts : stats.timeouts.le stats.failures = true
  parallel : stats.wallClockMs.length = stats.wallClockAt.length
  bounded : stats.wallClockMs.length ≤ MAX_LANE_STAT_SAMPLES
  samples : stats.wallClockMs
    = ((runs.filter LaneRun.isCompleted).map LaneRun.wallClockMs).rtake MAX_LANE_STAT_SAMPLES
  streak : stats.consecutiveFailures
    = .fin ((runs.rtakeWhile fun run => !run.isCompleted).countP LaneRun.isOwnFailure)

theorem consistent_windowOf (key : LaneWindow) (runs : List LaneRun) :
    Consistent runs (windowOf key runs) where
  calls := rfl
  outcomes := by
    unfold windowOf
    rw [List.length_eq_countP_add_countP LaneRun.isCompleted]
    simp
  timeouts := by
    unfold windowOf
    rw [Number.le_fin, decide_eq_true_eq, Nat.cast_le]
    refine List.countP_mono_left fun run _ htimeout => ?_
    -- a timeout is no completion
    simp_all [LaneRun.isTimeout, LaneRun.isCompleted]
  parallel := by simp [windowOf, length_rtake]
  bounded := by
    unfold windowOf
    rw [length_rtake]
    exact Nat.min_le_left _ _
  samples := rfl
  streak := rfl

/-! ## Rows that are admitted and restored -/

/-- A window of ids that a report may state. -/
def LaneWindow.Valid (key : LaneWindow) : Prop :=
  isBoundedId key.laneId MAX_LANE_ID_CHARS = true ∧
    (key.tier.all fun tier => isBoundedId tier MAX_TIER_CHARS) = true

theorem not_fin_lt_zero (n : Nat) : (Number.fin n).lt 0 = false := by
  change decide ((n : ℚ) < ((0 : Nat) : ℚ)) = false
  rw [decide_eq_false_iff_not, Nat.cast_lt, Nat.not_lt]
  exact Nat.zero_le n

theorem isTokenCount_fin (n : Nat) : isTokenCount (.fin n) = true := by
  rw [isTokenCount, not_fin_lt_zero]
  simp [isInteger]

theorem isDuration_fin (n : Nat) : isDuration (.fin n) = true := by
  rw [isDuration, not_fin_lt_zero]
  rfl

/-- **An exported row** of a window of reported runs is admitted. -/
theorem isLaneStatsRow_exportRow {key : LaneWindow} {runs : List LaneRun} (hkey : key.Valid)
    (hruns : ∀ run ∈ runs, isDuration run.wallClockMs = true) :
    isLaneStatsRow (exportRow (windowOf key runs)) = true := by
  have hsamples : (windowOf key runs).wallClockMs.all isDuration = true := by
    rw [List.all_eq_true]
    intro x hx
    obtain ⟨run, hrun, rfl⟩ := List.mem_map.mp (List.mem_of_mem_drop hx)
    exact hruns run (List.mem_filter.mp hrun).1
  have hstamps : isWallClockAt (some (windowOf key runs).wallClockAt)
      (windowOf key runs).wallClockMs.length = true := by
    unfold isWallClockAt
    rw [Option.all_some, Bool.and_eq_true, beq_iff_eq, List.all_eq_true]
    refine ⟨(consistent_windowOf key runs).parallel.symm, fun stamp hstamp => ?_⟩
    obtain ⟨run, -, rfl⟩ := List.mem_map.mp (List.mem_of_mem_drop hstamp)
    rfl
  have htimes : ∀ runs : List LaneRun,
      (runs.getLast?.map fun run => Number.fin run.now).all isDuration = true := by
    intro runs
    cases runs.getLast? with
    | none => rfl
    | some run => exact isDuration_fin run.now
  unfold isLaneStatsRow hasValidStreakFields hasValidSamples
  simp only [Bool.and_eq_true]
  refine ⟨⟨⟨⟨⟨⟨⟨⟨hkey.1, hkey.2⟩, ?_⟩, ?_⟩, ?_⟩, ?_⟩, ⟨?_, rfl⟩, ?_⟩, ⟨?_, hsamples⟩, hstamps⟩, ?_⟩
  · exact isTokenCount_fin _
  · exact isTokenCount_fin _
  · exact isTokenCount_fin _
  · exact isTokenCount_fin _
  · exact isTokenCount_fin _
  · exact htimes _
  · exact decide_eq_true (consistent_windowOf key runs).bounded
  · exact htimes _

theorem rtake_of_length_le {xs : List α} {n : Nat} (h : xs.length ≤ n) : xs.rtake n = xs := by
  rw [List.rtake, Nat.sub_eq_zero_of_le h, List.drop_zero]

variable {stats : LaneStats}

/-- **A row restores** to the window it was exported from. -/
theorem restoredStats_exportRow {runs : List LaneRun}
    (h : Consistent runs stats) : restoredStats (exportRow stats) = stats := by
  have hwindow : restoredWindow (exportRow stats) = (stats.wallClockMs, stats.wallClockAt) := by
    exact Prod.ext (rtake_of_length_le h.bounded) (rtake_of_length_le (h.parallel ▸ h.bounded))
  unfold restoredStats
  rw [hwindow]
  rfl

theorem parseTelemetryReport_spec {body : Json} {report : DispatchedTelemetryReport}
    (h : parseTelemetryReport body = some report) :
    report.window.Valid ∧ isDuration report.wallClockMs = true := by
  unfold parseTelemetryReport at h
  split at h
  · split at h
    · obtain ⟨jobId, -, h⟩ := Option.bind_eq_some_iff.mp h
      obtain ⟨laneId, hlane, h⟩ := Option.bind_eq_some_iff.mp h
      obtain ⟨spec, -, h⟩ := Option.bind_eq_some_iff.mp h
      obtain ⟨tier, htier, h⟩ := Option.bind_eq_some_iff.mp h
      obtain ⟨mode, -, h⟩ := Option.bind_eq_some_iff.mp h
      obtain ⟨kind, -, h⟩ := Option.bind_eq_some_iff.mp h
      obtain ⟨status, -, h⟩ := Option.bind_eq_some_iff.mp h
      obtain ⟨wallClockMs, hclock, h⟩ := Option.bind_eq_some_iff.mp h
      obtain ⟨exitCode, -, h⟩ := Option.bind_eq_some_iff.mp h
      obtain ⟨input, -, h⟩ := Option.bind_eq_some_iff.mp h
      obtain ⟨output, -, h⟩ := Option.bind_eq_some_iff.mp h
      obtain rfl := Option.some.inj h
      have hbounded : ∀ {n v id}, boundedId? n v = some id → isBoundedId id n = true := by
        intro n v id hid
        unfold boundedId? at hid
        split at hid
        · split at hid
          · cases hid
            assumption
          · cases hid
        · cases hid
      refine ⟨⟨?_, ?_⟩, ?_⟩
      · obtain ⟨v, -, hv⟩ := Option.bind_eq_some_iff.mp hlane
        exact hbounded hv
      · unfold optionalField at htier
        split at htier
        · cases htier
          rfl
        · obtain ⟨id, hid, rfl⟩ := Option.map_eq_some_iff.mp htier
          exact hbounded hid
      · obtain ⟨v, -, hv⟩ := Option.bind_eq_some_iff.mp hclock
        unfold numberWhere at hv
        split at hv
        · split at hv
          · cases hv
            assumption
          · cases hv
        · cases hv
    · cases h
  · cases h

/-! ## States -/

/-- A state of the windows, with the runs that were reported for each tier, mode and lane. Rows are
restored from an export of some state; their runs count where there were none. -/
inductive StatsRun : LaneStatsMap → (LaneWindow → List LaneRun) → Prop
  | start : StatsRun .empty fun _ => []
  | report {m h body report now} (hrun : StatsRun m h)
      (hbody : parseTelemetryReport body = some report) :
      StatsRun (recordLaneRun m report now)
        (Function.update h report.window (h report.window ++ [runOf report now]))
  | restore {m h m' h'} (hrun : StatsRun m h) (hsaved : StatsRun m' h') :
      StatsRun (restoreLaneStatsRows m ((exportLaneStatsRows m').filter isLaneStatsRow))
        fun key => if h key = [] then h' key else h key

/-- No two of the recorded tiers, modes and lanes share a text. -/
def TextsDistinct (h : LaneWindow → List LaneRun) : Prop :=
  ∀ key key', h key ≠ [] → h key' ≠ [] → statsKey key = statsKey key' → key = key'

theorem TextsDistinct.mono {h h' : LaneWindow → List LaneRun} (hdistinct : TextsDistinct h')
    (hle : ∀ key, h key ≠ [] → h' key ≠ []) : TextsDistinct h :=
  fun key key' hkey hkey' => hdistinct key key' (hle key hkey) (hle key' hkey')

/-- The windows of a state are those of its runs. -/
structure WindowsOf (m : LaneStatsMap) (h : LaneWindow → List LaneRun) : Prop where
  index : ∀ key, m.index.get? key = if h key = [] then none else some (windowOf key (h key))
  valid : ∀ key, h key ≠ [] → key.Valid
  durations : ∀ key, ∀ run ∈ h key, isDuration run.wallClockMs = true

section Windows

variable {m m' : LaneStatsMap} {h h' : LaneWindow → List LaneRun}

theorem WindowsOf.eq_windowOf (hwindows : WindowsOf m h) (hmem : stats ∈ m.rows.values) :
    h stats.window ≠ [] ∧ stats = windowOf stats.window (h stats.window) := by
  have hindex := (Table.get?_index_iff m).mpr ⟨hmem, rfl⟩
  rw [hwindows.index] at hindex
  split at hindex
  · cases hindex
  · rename_i hne
    exact ⟨hne, (Option.some.inj hindex).symm⟩

theorem allLaneStats_perm (m : LaneStatsMap) : (allLaneStats m).Perm m.rows.values :=
  List.mergeSort_perm _ _

theorem mem_allLaneStats : stats ∈ allLaneStats m ↔ stats ∈ m.rows.values :=
  (allLaneStats_perm m).mem_iff

variable (hwindows : WindowsOf m h)

include hwindows

/-- **Every row** of the windows of some runs is admitted, and restores to the window. -/
theorem WindowsOf.restored :
    (∀ row ∈ exportLaneStatsRows m, isLaneStatsRow row = true) ∧
      ((exportLaneStatsRows m).filter isLaneStatsRow).map restoredStats = allLaneStats m := by
  have hrow : ∀ stats ∈ allLaneStats m,
      isLaneStatsRow (exportRow stats) = true ∧ restoredStats (exportRow stats) = stats := by
    intro stats hstats
    obtain ⟨hne, heq⟩ := hwindows.eq_windowOf (mem_allLaneStats.mp hstats)
    rw [heq]
    exact ⟨isLaneStatsRow_exportRow (hwindows.valid _ hne) (hwindows.durations _),
      restoredStats_exportRow (consistent_windowOf _ _)⟩
  have hadmitted : ∀ row ∈ exportLaneStatsRows m, isLaneStatsRow row = true := by
    intro row hmem
    obtain ⟨stats, hstats, rfl⟩ := List.mem_map.mp hmem
    exact (hrow stats hstats).1
  refine ⟨hadmitted, ?_⟩
  rw [List.filter_eq_self.mpr hadmitted, exportLaneStatsRows, List.map_map]
  conv_rhs => rw [← List.map_id (allLaneStats m)]
  exact List.map_congr_left fun stats hstats => (hrow stats hstats).2

/-- **A report** keeps the windows those of the runs. -/
theorem WindowsOf.report {body : Json} {report : DispatchedTelemetryReport} {now : Nat}
    (hbody : parseTelemetryReport body = some report) (hdistinct : TextsDistinct
      (Function.update h report.window (h report.window ++ [runOf report now]))) :
    WindowsOf (recordLaneRun m report now)
      (Function.update h report.window (h report.window ++ [runOf report now])) := by
  have hgrown : ∀ key, h key ≠ [] →
      Function.update h report.window (h report.window ++ [runOf report now]) key ≠ [] := by
    intro key hkey
    by_cases hkey' : key = report.window
    · rw [hkey']
      simp
    · rw [Function.update_of_ne hkey']
      exact hkey
  have hapart : m.Apart report.window := by
    intro stats hmem hcode
    exact hdistinct _ _ (hgrown _ (hwindows.eq_windowOf hmem).1)
      (by rw [Function.update_self]; simp) hcode
  have hentry : (m.rows.get? (statsKey report.window)).getD (freshLaneStats report.window)
      = windowOf report.window (h report.window) := by
    rw [Table.get?_of_apart hapart, hwindows.index]
    split
    · rename_i hnone
      rw [hnone]
      rfl
    · rfl
  obtain ⟨hvalid, hduration⟩ := parseTelemetryReport_spec hbody
  constructor
  · intro key
    unfold recordLaneRun
    dsimp only
    rw [hentry, record_windowOf, Table.index_put_of_apart hapart, OrderedMap.get?_set]
    change (if report.window = key then _ else _) = _
    by_cases hkey : report.window = key
    · subst hkey
      rw [if_pos rfl, Function.update_self, if_neg (by simp)]
    · rw [if_neg hkey, Function.update_of_ne (Ne.symm hkey)]
      exact hwindows.index key
  · intro key hkey
    by_cases hkey' : key = report.window
    · rw [hkey']
      exact hvalid
    · rw [Function.update_of_ne hkey'] at hkey
      exact hwindows.valid key hkey
  · intro key run hrun
    by_cases hkey' : key = report.window
    · rw [hkey', Function.update_self, List.mem_append, List.mem_singleton] at hrun
      rcases hrun with hold | rfl
      · exact hwindows.durations _ run hold
      · exact hduration
    · rw [Function.update_of_ne hkey'] at hrun
      exact hwindows.durations key run hrun

/-- **A restore** of the rows of other windows keeps the windows those of the runs. -/
theorem WindowsOf.restore (hsaved : WindowsOf m' h')
    (hdistinct : TextsDistinct fun key => if h key = [] then h' key else h key) :
    WindowsOf (restoreLaneStatsRows m ((exportLaneStatsRows m').filter isLaneStatsRow))
      fun key => if h key = [] then h' key else h key := by
  have hrecorded : ∀ stats, stats ∈ m.rows.values ∨ stats ∈ allLaneStats m' →
      (if h stats.window = [] then h' stats.window else h stats.window) ≠ [] := by
    rintro stats (hmem | hmem)
    · have hne := (hwindows.eq_windowOf hmem).1
      rw [if_neg hne]
      exact hne
    · have hne := (hsaved.eq_windowOf (mem_allLaneStats.mp hmem)).1
      split
      · exact hne
      · assumption
  constructor
  · intro key
    unfold restoreLaneStatsRows
    rw [hsaved.restored.2, Table.get?_index_foldl_putNew fun a b ha hb =>
      hdistinct _ _ (hrecorded a ha) (hrecorded b hb)]
    rw [Table.find?_label_of_perm (allLaneStats_perm m'), hwindows.index, hsaved.index]
    by_cases hkey : h key = []
    · rw [if_pos hkey, if_pos hkey, Option.none_or]
    · rw [if_neg hkey, if_neg hkey, Option.some_or, if_neg hkey]
  · intro key hkey
    split at hkey
    · exact hsaved.valid key hkey
    · exact hwindows.valid key hkey
  · intro key run hrun
    split at hrun
    · exact hsaved.durations key run hrun
    · exact hwindows.durations key run hrun

omit hwindows

/-- **Every state** whose recorded texts are distinct has the windows of its runs. -/
theorem StatsRun.windows (hrun : StatsRun m h) (hdistinct : TextsDistinct h) : WindowsOf m h := by
  induction hrun with
  | start => exact ⟨fun _ => rfl, fun _ hne => absurd rfl hne, fun _ _ hrun => nomatch hrun⟩
  | report hrun hbody ih =>
    refine (ih (hdistinct.mono fun key hkey => ?_)).report hbody hdistinct
    rw [Function.update_apply]
    split
    · simp
    · exact hkey
  | restore hrun hsaved ih ihsaved =>
    refine (ih (hdistinct.mono fun key hkey => ?_)).restore
      (ihsaved (hdistinct.mono fun key hkey => ?_)) hdistinct
    · rw [if_neg hkey]
      exact hkey
    · split
      · exact hkey
      · assumption

end Windows

/-- What a state promises: the window of every recorded tier, mode and lane is its own and
consistent with its runs, every row is admitted, and a fresh config restores the same windows. -/
structure StatsKept (m : LaneStatsMap) (h : LaneWindow → List LaneRun) : Prop where
  windows : ∀ key, h key ≠ [] →
    ∃ stats, laneStatsFor m key = some stats ∧ stats.window = key ∧ Consistent (h key) stats
  admitted : ∀ row ∈ exportLaneStatsRows m, isLaneStatsRow row = true
  restored : ∀ key, laneStatsFor
      (restoreLaneStatsRows .empty ((exportLaneStatsRows m).filter isLaneStatsRow)) key
    = laneStatsFor m key

/-- **The statistics of lanes** are kept in a state exactly where no two of the tiers, modes and
lanes it has runs of share a text. -/
theorem lane_stats_kept_iff {m : LaneStatsMap} {h : LaneWindow → List LaneRun} (hrun : StatsRun m h) :
    StatsKept m h ↔ TextsDistinct h := by
  constructor
  · rintro ⟨hwindows, -, -⟩ key key' hkey hkey' htext
    obtain ⟨stats, hstats, hown, -⟩ := hwindows key hkey
    obtain ⟨stats', hstats', hown', -⟩ := hwindows key' hkey'
    unfold laneStatsFor at hstats hstats'
    rw [htext, hstats'] at hstats
    rw [← hown, ← hown', Option.some.inj hstats]
  · intro hdistinct
    have hwindows := hrun.windows hdistinct
    refine ⟨fun key hkey => ⟨windowOf key (h key), ?_, rfl, consistent_windowOf _ _⟩,
      hwindows.restored.1, fun key => ?_⟩
    · have hmem := (Table.get?_index_iff m).mp ((hwindows.index key).trans (if_neg hkey))
      exact m.label_mem_of_code hmem.1
    · unfold laneStatsFor restoreLaneStatsRows
      rw [hwindows.restored.2]
      exact Table.get?_foldl_putNew_of_perm (allLaneStats_perm m) _

/-- A body that states a completed run of a lane. -/
def completedBody (tier laneId : Text) : Json :=
  .obj [(text "jobId", .str (text "j1")), (text "laneId", .str laneId),
    (text "kind", .str (text "cli")), (text "tier", .str tier),
    (text "wallClockMs", .num 1000), (text "exitCode", .num 0),
    (text "status", .str (text "completed")), (text "estimatedInputTokens", .num 1),
    (text "estimatedOutputTokens", .num 1)]

/-- Two lanes of two tiers share a window: the second one's run is counted for the first. -/
theorem lane_windows_shared :
    ∃ first second, parseTelemetryReport (completedBody (text "a") (text "b||c")) = some first ∧
      parseTelemetryReport (completedBody (text "a||b") (text "c")) = some second ∧
      first.window ≠ second.window ∧
      let m := recordLaneRun (recordLaneRun .empty first 1) second 2
      laneStatsFor m first.window = laneStatsFor m second.window ∧
      (laneStatsFor m second.window).map LaneStats.laneId = some (text "b||c") ∧
      (laneStatsFor m second.window).map LaneStats.calls = some 2 := by
  refine ⟨⟨text "j1", text "b||c", .cli, none, some (text "a"), none, 1000, some 0, .completed, 1, 1⟩,
    ⟨text "j1", text "c", .cli, none, some (text "a||b"), none, 1000, some 0, .completed, 1, 1⟩, ?_⟩
  decide +kernel

/-- One report: its window is kept. -/
theorem lane_stats_kept_of_one_report :
    ∃ m h, StatsRun m h ∧ h ⟨some (text "a"), none, text "c"⟩ ≠ [] ∧ StatsKept m h := by
  have hbody : parseTelemetryReport (completedBody (text "a") (text "c"))
      = some ⟨text "j1", text "c", .cli, none, some (text "a"), none, 1000, some 0, .completed, 1, 1⟩ := by
    decide +kernel
  have hrun : StatsRun (recordLaneRun .empty _ 1) _ := .report .start hbody
  refine ⟨_, _, hrun, ?_, (lane_stats_kept_iff hrun).mpr fun key key' hkey hkey' _ => ?_⟩
  · simp [DispatchedTelemetryReport.window]
  · rw [Function.update_apply] at hkey hkey'
    split at hkey
    · split at hkey'
      · exact Eq.trans ‹_› (Eq.symm ‹_›)
      · exact absurd rfl hkey'
    · exact absurd rfl hkey

end LlmRelay.Dispatch
