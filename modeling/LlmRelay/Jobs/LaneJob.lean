import LlmRelay.Jobs.JournalRow

/-!
# Jobs, and their rows in the archive

A job of the dispatcher (`mcp/lane-runner.ts`), and the form in which the archive keeps it once
it has ended (`mcp/job-archive.ts`). A row that does not read back as an ended job is ignored.

## Main definitions

* `LaneJob`: a job;
* `ArchivedJob`: a job that has ended;
* `LaneJob.toJson`, `readArchivedJob`: its row.

## Main results

* `readArchivedJob_toJson`: the row of an ended job with finite numbers reads back.
-/

namespace LlmRelay

open Ecma

/-! ## Jobs -/

inductive JobStatus where
  | running
  | completed
  | failed
  | cancelled
  | timed_out
  | killed
  deriving DecidableEq

def JobStatus.name : JobStatus → String
  | running => "running"
  | completed => "completed"
  | failed => "failed"
  | cancelled => "cancelled"
  | timed_out => "timed_out"
  | killed => "killed"

/-- Where the view of a dispatch came from. -/
inductive DispatchSource where
  | daemon
  | fallback
  deriving DecidableEq

def DispatchSource.name : DispatchSource → String
  | daemon => "daemon"
  | fallback => "fallback"

/-- Who owns the process tree of a running attempt. -/
inductive ExecutionOwner where
  | relayDaemon
  | localFallback
  deriving DecidableEq

def ExecutionOwner.name : ExecutionOwner → String
  | relayDaemon => "relay-daemon"
  | localFallback => "local-fallback"

/-- `typeof v === "object" && v !== null`; an array is one. -/
def isObject : Json → Bool
  | .obj _ => true
  | .arr _ => true
  | _ => false

/-- A value that is an object. -/
structure ObjectValue where
  value : Json
  object : isObject value = true
  deriving DecidableEq

/-- A lane that the job tried. -/
structure LaneAttempt where
  laneId : Text
  spec : Option Text
  status : Text
  elapsedMs : Number
  reason : Option Text
  deriving DecidableEq

/-- What became of the processes of a job. -/
structure LaneProcessReport where
  pids : List Number
  survivors : List Number
  terminated : Bool
  deriving DecidableEq

/-- A job. -/
structure LaneJob where
  id : Text
  status : JobStatus
  laneId : Text
  spec : Option Text
  attempts : List LaneAttempt
  lanesNotTried : Option Number
  walkEnabled : Option Bool
  forcedLane : Option Bool
  startedAt : Number
  endedAt : Option Number
  exitCode : Option Number
  stdout : Text
  stderr : Text
  timedOut : Bool
  cwd : Text
  error : Option Text
  relay : Option ObjectValue
  dispatchSource : Option DispatchSource
  executionOwner : Option ExecutionOwner
  process : Option LaneProcessReport
  restored : Option Bool
  label : Option Text
  readOnly : Option ObjectValue
  launch : Option (List Text)
  treeDelta : Option Text
  deriving DecidableEq

/-- A job that has ended. -/
structure ArchivedJob where
  job : LaneJob
  endedAt : Number
  ended : job.endedAt = some endedAt
  terminal : job.status ≠ .running
  deriving DecidableEq

/-- The numbers of a job. -/
def LaneJob.numbers (job : LaneJob) : List Number :=
  job.startedAt :: (job.endedAt.toList ++ job.exitCode.toList ++ job.lanesNotTried.toList
    ++ job.attempts.map (·.elapsedMs)
    ++ job.process.toList.flatMap fun report => report.pids ++ report.survivors)

/-- A job without `NaN` or infinities. -/
def LaneJob.Finite (job : LaneJob) : Prop :=
  ∀ x ∈ job.numbers, x.isFinite = true

/-! ## Writing -/

def LaneAttempt.toJson (attempt : LaneAttempt) : Json :=
  .ofProperties [("laneId", some (.str attempt.laneId)), ("spec", attempt.spec.map .str),
    ("status", some (.str attempt.status)), ("elapsedMs", some (.ofNumber attempt.elapsedMs)),
    ("reason", attempt.reason.map .str)]

/-- An array of numbers. -/
def numbersJson (xs : List Number) : Json :=
  .arr (xs.map .ofNumber)

def LaneProcessReport.toJson (report : LaneProcessReport) : Json :=
  .ofProperties [("pids", some (numbersJson report.pids)),
    ("survivors", some (numbersJson report.survivors)),
    ("terminated", some (.bool report.terminated))]

/-- The properties of a job; an absent one is `undefined`. -/
def LaneJob.properties (job : LaneJob) : List (String × Option Json) :=
  [("id", some (.str job.id)), ("status", some (.ofString job.status.name)),
    ("laneId", some (.str job.laneId)), ("spec", job.spec.map .str),
    ("startedAt", some (.ofNumber job.startedAt)), ("endedAt", job.endedAt.map .ofNumber),
    ("exitCode", some ((job.exitCode.map Json.ofNumber).getD .null)),
    ("stdout", some (.str job.stdout)), ("stderr", some (.str job.stderr)),
    ("timedOut", some (.bool job.timedOut)), ("cwd", some (.str job.cwd)),
    ("error", job.error.map .str),
    ("attempts", some (.arr (job.attempts.map LaneAttempt.toJson))),
    ("lanesNotTried", job.lanesNotTried.map .ofNumber),
    ("walkEnabled", job.walkEnabled.map .bool), ("forcedLane", job.forcedLane.map .bool),
    ("restored", job.restored.map .bool), ("label", job.label.map .str),
    ("treeDelta", job.treeDelta.map .str),
    ("launch", job.launch.map fun notes => .arr (notes.map .str)),
    ("process", job.process.map LaneProcessReport.toJson),
    ("dispatchSource", job.dispatchSource.map fun source => .ofString source.name),
    ("executionOwner", job.executionOwner.map fun owner => .ofString owner.name),
    ("relay", job.relay.map ObjectValue.value), ("readOnly", job.readOnly.map ObjectValue.value)]

def LaneJob.toJson (job : LaneJob) : Json :=
  .ofProperties job.properties

/-! ## Reading -/

/-- A property that may be absent, and is read where it is not. -/
def optionalOf {α : Type} (read : Json → Option α) (v : Option Json) : Option (Option α) :=
  match v with
  | none => some none
  | some value => (read value).map some

def readString (value : Json) : Option Text :=
  Json.string? (some value)

def readNumber (value : Json) : Option Number :=
  Json.number? (some value)

def readBoolean : Json → Option Bool
  | .bool b => some b
  | _ => none

/-- An array whose elements are all read. -/
def readArray {α : Type} (read : Json → Option α) : Json → Option (List α)
  | .arr items => items.mapM read
  | _ => none

def readObject (value : Json) : Option ObjectValue :=
  if h : isObject value = true then some ⟨value, h⟩ else none

/-- `TERMINAL`, and the status. -/
def readTerminalStatus (value : Json) : Option JobStatus :=
  ofName? JobStatus.name [.completed, .failed, .cancelled, .timed_out, .killed] (some value)

def readDispatchSource (value : Json) : Option DispatchSource :=
  ofName? DispatchSource.name [.daemon, .fallback] (some value)

def readExecutionOwner (value : Json) : Option ExecutionOwner :=
  ofName? ExecutionOwner.name [.relayDaemon, .localFallback] (some value)

/-- `null`, or a number. -/
def readExitCode : Json → Option (Option Number)
  | .null => some none
  | .num x => some (some x)
  | _ => none

/-- `isAttempt`, and the attempt. -/
def readAttempt (value : Json) : Option LaneAttempt := do
  let laneId ← (value.get? (text "laneId")).bind readString
  let spec ← optionalOf readString (value.get? (text "spec"))
  let status ← (value.get? (text "status")).bind readString
  let elapsedMs ← (value.get? (text "elapsedMs")).bind readNumber
  let reason ← optionalOf readString (value.get? (text "reason"))
  some { laneId, spec, status, elapsedMs, reason }

/-- `isProcessReport`, and the report. -/
def readProcessReport (value : Json) : Option LaneProcessReport := do
  let pids ← (value.get? (text "pids")).bind (readArray readNumber)
  let survivors ← (value.get? (text "survivors")).bind (readArray readNumber)
  let terminated ← (value.get? (text "terminated")).bind readBoolean
  some { pids, survivors, terminated }

/-- `isArchivedJob`, and the job. -/
def readArchivedJob (value : Json) : Option ArchivedJob := do
  let id ← (value.get? (text "id")).bind readString
  let status ← (value.get? (text "status")).bind readTerminalStatus
  let laneId ← (value.get? (text "laneId")).bind readString
  let spec ← optionalOf readString (value.get? (text "spec"))
  let startedAt ← (value.get? (text "startedAt")).bind readNumber
  let endedAt ← (value.get? (text "endedAt")).bind readNumber
  let exitCode ← (value.get? (text "exitCode")).bind readExitCode
  let stdout ← (value.get? (text "stdout")).bind readString
  let stderr ← (value.get? (text "stderr")).bind readString
  let timedOut ← (value.get? (text "timedOut")).bind readBoolean
  let cwd ← (value.get? (text "cwd")).bind readString
  let error ← optionalOf readString (value.get? (text "error"))
  let attempts ← (value.get? (text "attempts")).bind (readArray readAttempt)
  let lanesNotTried ← optionalOf readNumber (value.get? (text "lanesNotTried"))
  let walkEnabled ← optionalOf readBoolean (value.get? (text "walkEnabled"))
  let forcedLane ← optionalOf readBoolean (value.get? (text "forcedLane"))
  let restored ← optionalOf readBoolean (value.get? (text "restored"))
  let label ← optionalOf readString (value.get? (text "label"))
  let treeDelta ← optionalOf readString (value.get? (text "treeDelta"))
  let launch ← optionalOf (readArray readString) (value.get? (text "launch"))
  let process ← optionalOf readProcessReport (value.get? (text "process"))
  let dispatchSource ← optionalOf readDispatchSource (value.get? (text "dispatchSource"))
  let executionOwner ← optionalOf readExecutionOwner (value.get? (text "executionOwner"))
  let relay ← optionalOf readObject (value.get? (text "relay"))
  let readOnly ← optionalOf readObject (value.get? (text "readOnly"))
  if h : status ≠ .running then
    some
      { job :=
          { id, status, laneId, spec, attempts, lanesNotTried, walkEnabled, forcedLane, startedAt
            exitCode, stdout, stderr, timedOut, cwd, error, relay, dispatchSource, executionOwner
            process, restored, label, readOnly, launch, treeDelta, endedAt := some endedAt }
        endedAt
        ended := rfl
        terminal := h }
  else none

/-! ### Reading back -/

section ReadBack

theorem optionalOf_map {α : Type} {write : α → Json} {read : Json → Option α} {v : Option α}
    (h : ∀ a, v = some a → read (write a) = some a) : optionalOf read (v.map write) = some v := by
  cases v with
  | none => rfl
  | some a => exact congrArg (Option.map some) (h a rfl)

@[simp] theorem readString_str (s : Text) : readString (.str s) = some s := rfl

@[simp] theorem readBoolean_bool (b : Bool) : readBoolean (.bool b) = some b := rfl

theorem readNumber_ofNumber {x : Number} (h : x.isFinite = true) :
    readNumber (.ofNumber x) = some x :=
  number?_ofNumber h

@[simp] theorem readObject_value (o : ObjectValue) : readObject o.value = some o :=
  dif_pos o.object

theorem readArray_map {α : Type} {write : α → Json} {read : Json → Option α} {l : List α}
    (h : ∀ a ∈ l, read (write a) = some a) : readArray read (.arr (l.map write)) = some l := by
  rw [readArray]
  induction l with
  | nil => rfl
  | cons a rest ih =>
    rw [List.map_cons, List.mapM_cons, h a List.mem_cons_self,
      ih fun b hb => h b (List.mem_cons_of_mem a hb)]
    rfl

theorem readTerminalStatus_name {status : JobStatus} (h : status ≠ .running) :
    readTerminalStatus (.ofString status.name) = some status := by
  cases status with
  | running => exact absurd rfl h
  | completed => decide +kernel
  | failed => decide +kernel
  | cancelled => decide +kernel
  | timed_out => decide +kernel
  | killed => decide +kernel

@[simp] theorem readDispatchSource_name (source : DispatchSource) :
    readDispatchSource (.ofString source.name) = some source := by
  cases source <;> decide +kernel

@[simp] theorem readExecutionOwner_name (owner : ExecutionOwner) :
    readExecutionOwner (.ofString owner.name) = some owner := by
  cases owner <;> decide +kernel

theorem readExitCode_toJson {code : Option Number} (h : ∀ x, code = some x → x.isFinite = true) :
    readExitCode ((code.map Json.ofNumber).getD .null) = some code := by
  cases code with
  | none => rfl
  | some x =>
    rw [Option.map_some, Json.ofNumber_of_isFinite (h x rfl)]
    rfl

theorem readAttempt_toJson {attempt : LaneAttempt} (h : attempt.elapsedMs.isFinite = true) :
    readAttempt attempt.toJson = some attempt := by
  obtain ⟨laneId, spec, status, elapsedMs, reason⟩ := attempt
  have hspec := @optionalOf_map _ Json.str readString spec fun _ _ => rfl
  have hreason := @optionalOf_map _ Json.str readString reason fun _ _ => rfl
  have helapsed := readNumber_ofNumber h
  simp [readAttempt, LaneAttempt.toJson, hspec, hreason, helapsed]

theorem readProcessReport_toJson {report : LaneProcessReport}
    (h : ∀ x ∈ report.pids ++ report.survivors, x.isFinite = true) :
    readProcessReport report.toJson = some report := by
  obtain ⟨pids, survivors, terminated⟩ := report
  have hpids := readArray_map (l := pids) fun x hx =>
    readNumber_ofNumber (h x (List.mem_append_left _ hx))
  have hsurvivors := readArray_map (l := survivors) fun x hx =>
    readNumber_ofNumber (h x (List.mem_append_right _ hx))
  simp [readProcessReport, LaneProcessReport.toJson, numbersJson, hpids, hsurvivors]

theorem names_properties (job : LaneJob) : (job.properties.map Prod.fst).Nodup := by
  change List.Nodup ["id", "status", "laneId", "spec", "startedAt", "endedAt", "exitCode", "stdout",
    "stderr", "timedOut", "cwd", "error", "attempts", "lanesNotTried", "walkEnabled", "forcedLane",
    "restored", "label", "treeDelta", "launch", "process", "dispatchSource", "executionOwner",
    "relay", "readOnly"]
  decide

theorem get?_toJson (job : LaneJob) (n : Nat) {name : String} {v : Option Json}
    (h : job.properties[n]? = some (name, v)) : job.toJson.get? (text name) = v :=
  Json.get?_ofProperties_of_mem (names_properties job) (List.mem_of_getElem? h)

/-- **The row of an ended job reads back** where its numbers are finite. -/
theorem readArchivedJob_toJson {archived : ArchivedJob} (h : archived.job.Finite) :
    readArchivedJob archived.job.toJson = some archived := by
  obtain ⟨job, ended, hended, hterminal⟩ := archived
  have hget := @get?_toJson job
  have hstart := readNumber_ofNumber (h job.startedAt List.mem_cons_self)
  have hend := readNumber_ofNumber (h ended (by simp [LaneJob.numbers, hended]))
  have hexit := readExitCode_toJson fun x (hx : job.exitCode = some x) =>
    h x (by simp [LaneJob.numbers, hx])
  have htried := @optionalOf_map _ Json.ofNumber readNumber job.lanesNotTried fun x hx =>
    readNumber_ofNumber (h x (by simp [LaneJob.numbers, hx]))
  have hattempts := @readArray_map _ LaneAttempt.toJson readAttempt job.attempts
    fun attempt hmem => readAttempt_toJson (h attempt.elapsedMs (by
      simp only [LaneJob.numbers, List.mem_cons, List.mem_append, List.mem_map]
      exact .inr (.inl (.inr ⟨attempt, hmem, rfl⟩))))
  have hprocess := @optionalOf_map _ LaneProcessReport.toJson readProcessReport job.process
    fun report hreport => readProcessReport_toJson fun x hx => h x (by
      simp only [LaneJob.numbers, List.mem_cons, List.mem_append, List.mem_flatMap,
        Option.mem_toList]
      exact .inr (.inr ⟨report, hreport, List.mem_append.mp hx⟩))
  have hstatus := readTerminalStatus_name hterminal
  have hstring : ∀ s : Option Text, optionalOf readString (s.map .str) = some s := fun _ =>
    optionalOf_map fun _ _ => rfl
  have hboolean : ∀ b : Option Bool, optionalOf readBoolean (b.map .bool) = some b := fun _ =>
    optionalOf_map fun _ _ => rfl
  have hobject : ∀ o : Option ObjectValue,
      optionalOf readObject (o.map ObjectValue.value) = some o := fun _ =>
    optionalOf_map fun o _ => readObject_value o
  have hlaunch : optionalOf (readArray readString)
      (job.launch.map fun notes => .arr (notes.map .str)) = some job.launch :=
    optionalOf_map fun notes _ => readArray_map fun s _ => readString_str s
  have hsource : optionalOf readDispatchSource
      (job.dispatchSource.map fun source => .ofString source.name) = some job.dispatchSource :=
    optionalOf_map fun source _ => readDispatchSource_name source
  have howner : optionalOf readExecutionOwner
      (job.executionOwner.map fun owner => .ofString owner.name) = some job.executionOwner :=
    optionalOf_map fun owner _ => readExecutionOwner_name owner
  have hendedAt : job.endedAt.map Json.ofNumber = some (.ofNumber ended) := by
    rw [hended, Option.map_some]
  unfold readArchivedJob
  simp only [hget 0 rfl, hget 1 rfl, hget 2 rfl, hget 3 rfl, hget 4 rfl, hget 5 rfl, hget 6 rfl,
    hget 7 rfl, hget 8 rfl, hget 9 rfl, hget 10 rfl, hget 11 rfl, hget 12 rfl, hget 13 rfl,
    hget 14 rfl, hget 15 rfl, hget 16 rfl, hget 17 rfl, hget 18 rfl, hget 19 rfl, hget 20 rfl,
    hget 21 rfl, hget 22 rfl, hget 23 rfl, hget 24 rfl, hendedAt, hstart, hend, hexit, htried,
    hattempts, hprocess, hstatus, hstring, hboolean, hobject, hlaunch, hsource, howner,
    readString_str, readBoolean_bool, Option.bind_eq_bind, Option.bind_some]
  rw [dif_pos hterminal]
  congr
  exact hended.symm

end ReadBack

end LlmRelay
