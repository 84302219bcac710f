import LlmRelay.Jobs.JobArchive
import LlmRelay.Jobs.Journal
import LlmRelay.Jobs.LaneExecution

/-!
# The job store of one process

The jobs of one process (`mcp/lane-runner.ts`). What an operation does to the two files is left
as a list of tasks: each task is at most one transaction, and between two of them the process
may die and others may run.

## Main definitions

* `LaneJobStore`: the memory of one store;
* `LaneJobStore.complete`, `LaneJobStore.fail`, `LaneJobStore.cancel` and the other operations;
* `StoreTask`, `LaneJobStore.perform`: the tasks, and one task.
-/

namespace LlmRelay

open Ecma

/-! ## The store -/

/-- Jobs by id. -/
abbrev LaneJobs := Table LaneJob.id (id : Text → Text)

/-- The memory of a store: its jobs, the journal and the archive, the rows claimed for the
daemon's executions, and which execution a job has. -/
structure LaneJobStore where
  jobs : LaneJobs
  journal : JobJournal
  archive : JobArchive
  brokerOrphans : JobRows
  brokerExecutions : OrderedMap Text Text

/-- The files that the processes share. -/
structure StoreFiles where
  journal : Option Json
  archive : Option Json

/-- What is left of an operation. -/
inductive StoreTask where
  | restoreArchive
  | adoptOrphans
  | adopt (row : JournalRow)
  | note (row : JournalRow)
  | noteStartingTree (jobId : Text) (tree : TreeSnapshot) (scope : Option (List Text))
  | noteBrokerExecution (jobId executionId : Text)
  | record (job : LaneJob) (orphan : Option JournalRow)
  | clear (jobId : Text)
  | clearOrphan (row : JournalRow)
  | lookup (jobId : Text)

/-- What follows a committed record: the row of an own job is cleared, that of an orphan
acknowledged. -/
def StoreTask.acknowledge (job : LaneJob) : Option JournalRow → StoreTask
  | none => .clear job.id
  | some row => .clearOrphan row

/-- How a completed run looks. -/
structure LaneRunResult where
  code : Option Number
  stdout : Text
  stderr : Text
  timedOut : Bool

def EMPTY_OUTPUT_REASON : String :=
  "empty-output: the lane's output has no usable content after stripping formatting"

/-- `[\s#*_\-|>`~=]`. -/
def isFormatting (c : CodeUnit) : Bool :=
  isWhitespace c || (text "#*_-|>\x60~=").contains c

def isContentEmpty (t : Text) : Bool :=
  t.all isFormatting

/-- The report of a job that owns no process. -/
def noProcesses : LaneProcessReport :=
  ⟨[], [], false⟩

/-- The journal row of a running job. -/
def LaneJob.journalRow (job : LaneJob) : JournalRow where
  jobId := job.id
  laneId := job.laneId
  spec := job.spec
  cwd := job.cwd
  startedAt := job.startedAt
  label := job.label
  startingTree := none
  brokerExecution := none
  owner := none

/-- A running job. -/
def LaneJob.begin (id laneId : Text) (spec : Option Text) (cwd : Text) (startedAt : Number) :
    LaneJob where
  id := id
  status := .running
  laneId := laneId
  spec := spec
  attempts := []
  lanesNotTried := none
  walkEnabled := none
  forcedLane := none
  startedAt := startedAt
  endedAt := none
  exitCode := none
  stdout := []
  stderr := []
  timedOut := false
  cwd := cwd
  error := none
  relay := none
  dispatchSource := none
  executionOwner := none
  process := none
  restored := none
  label := none
  readOnly := none
  launch := none
  treeDelta := none

/-- The job of a row whose process is gone. -/
def killedJob (row : JournalRow) : LaneJob :=
  { LaneJob.begin row.jobId row.laneId row.spec row.cwd row.startedAt with
    status := .killed
    endedAt := some row.startedAt
    error := some (text "the llm-relay MCP server restarted while " ++ row.jobId
      ++ text " was running on lane \"" ++ row.laneId
      ++ text ("\", so the lane was killed with it. Nothing was collected from it — check the "
        ++ "working directory for partial files before re-dispatching."))
    process := some noProcesses }

namespace LaneJobStore

/-- The store of a process that starts; it restores the archive, and then adopts orphans. -/
def create (self : JournalOwner) : LaneJobStore × List StoreTask :=
  (⟨.empty, .create self, .create, .empty, .empty⟩, [.restoreArchive, .adoptOrphans])

variable (store : LaneJobStore)

/-- The job of an id. -/
def get (id : Text) : Option LaneJob :=
  store.jobs.rows.get? id

/-- Changes a job in memory. -/
def set (job : LaneJob) : LaneJobStore :=
  { store with jobs := store.jobs.put job }

/-! ## Operations -/

/-- A new job, recorded before its lane runs. -/
def createJob (id laneId : Text) (spec : Option Text) (cwd : Text)
    (dispatchSource : Option DispatchSource) (label : Option Text) (now : Number) :
    LaneJobStore × List StoreTask :=
  let job :=
    { LaneJob.begin id laneId spec cwd now with
      dispatchSource
      label := label.filter fun label => label ≠ [] }
  (store.set job, [.note job.journalRow])

/-- Points a running job at its next lane. -/
def setCurrentLane (id laneId : Text) (spec : Option Text) : LaneJobStore × List StoreTask :=
  match store.get id with
  | none => (store, [])
  | some job =>
    if job.status = .running then
      let job :=
        { job with laneId, spec, readOnly := none, launch := none, executionOwner := none }
      ({ store.set job with brokerExecutions := store.brokerExecutions.delete id },
        [.note job.journalRow])
    else (store, [])

def noteStartingTree (id : Text) (tree : TreeSnapshot) (scope : Option (List Text)) :
    LaneJobStore × List StoreTask :=
  match store.get id with
  | none => (store, [])
  | some job =>
    if job.status = .running then (store, [.noteStartingTree id tree scope]) else (store, [])

/-- The execution of a job is over, and its walk goes on. -/
def clearBrokerExecution (id : Text) : LaneJobStore × List StoreTask :=
  match store.get id with
  | none => (store, [])
  | some job =>
    if job.status = .running then
      let job :=
        { job with
          executionOwner :=
            if job.executionOwner = some .relayDaemon then none else job.executionOwner }
      ({ store.set job with brokerExecutions := store.brokerExecutions.delete id },
        [.note job.journalRow])
    else (store, [])

/-- Binds a job to the execution that owns its processes. -/
def noteBrokerExecution (id executionId : Text) : LaneJobStore × List StoreTask :=
  match store.get id with
  | none => (store, [])
  | some job =>
    if job.status = .running then
      ({ store with brokerExecutions := store.brokerExecutions.set id executionId },
        [.noteBrokerExecution id executionId])
    else (store, [])

/-- A job as the execution that it is bound to ended; none where the two disagree. -/
def settledJob (job : LaneJob) (snapshot : LaneExecutionSnapshot) : Option LaneJob :=
  match snapshot.status, snapshot.result with
  | .completed, some result =>
    if result.code ≠ some 0 ∨ result.timedOut = true then none
    else if isContentEmpty result.stdout then
      some { job with status := .failed, error := some (text EMPTY_OUTPUT_REASON) }
    else some { job with status := .completed }
  | .failed, some result =>
    if result.timedOut = true ∨ result.code = some 0 then none
    else some { job with status := .failed }
  | .timed_out, some result =>
    if result.timedOut = true then
      some
        { job with
          status := .timed_out
          error := some (text ("the daemon-owned lane exceeded its configured timeout and was "
            ++ "stopped before it finished")) }
    else none
  | .cancelled, _ => some { job with status := .cancelled }
  | _, _ => none

/-- The process result of a snapshot, where it has one. -/
def withResult (job : LaneJob) : Option LaneExecutionRunResult → LaneJob
  | none => job
  | some result =>
    { job with
      exitCode := result.code
      stdout := result.stdout
      stderr := result.stderr
      timedOut := result.timedOut }

/-- Applies one snapshot to the job of an execution. -/
def applyBrokerSnapshot (id : Text) (snapshot : LaneExecutionSnapshot) (now : Number) :
    LaneJobStore × List StoreTask :=
  match store.get id, store.brokerExecutions.get? id with
  | some job, some executionId =>
    if snapshot.executionId ≠ executionId ∨ snapshot.jobId ≠ id ∨ snapshot.laneId ≠ job.laneId then
      (store, [])
    else
      let job := { job with launch := snapshot.launchNotes.or job.launch }
      if snapshot.status = .running then (store.set job, [])
      else
        match settledJob job snapshot with
        | none => (store.set job, [])
        | some settled =>
          let ended :=
            { withResult settled snapshot.result with
              endedAt := some (snapshot.endedAt.getD now) }
          ({ store.set ended with brokerExecutions := store.brokerExecutions.delete id },
            [.record ended none])
  | _, _ => (store, [])

/-- Materializes a claimed row as a running job. -/
def adoptBrokerRunning (row : JournalRow) : LaneJobStore × List StoreTask :=
  match row.brokerExecution, store.get row.jobId with
  | some execution, none =>
    let job :=
      { LaneJob.begin row.jobId row.laneId row.spec row.cwd row.startedAt with
        restored := some true
        executionOwner := some .relayDaemon
        label := row.label }
    ({ store.set job with
        brokerExecutions := store.brokerExecutions.set job.id execution.executionId }, [])
  | _, _ => (store, [])

/-- The claimed rows, once. -/
def takeBrokerOrphans : List JournalRow × LaneJobStore :=
  (store.brokerOrphans.rows.values, { store with brokerOrphans := .empty })

/-- The daemon no longer knows the execution of a job. -/
def markBrokerKilled (id message : Text) (now : Number) : LaneJobStore × List StoreTask :=
  match store.get id with
  | none => (store, [])
  | some job =>
    if store.brokerExecutions.has id ∧ job.status = .running then
      let job := { job with status := .killed, endedAt := some now, error := some message }
      ({ store.set job with brokerExecutions := store.brokerExecutions.delete id },
        [.record job none])
    else (store, [])

/-- Records what a job changed in its tree; the row of an ended job is written again. -/
def noteTreeDelta (id delta : Text) : LaneJobStore × List StoreTask :=
  match store.get id with
  | none => (store, [])
  | some job =>
    let job := { job with treeDelta := some delta }
    (store.set job, if job.status = .running then [] else [.record job none])

/-- Changes a job in memory, where there is one that satisfies `p`. -/
def update (id : Text) (p : LaneJob → Bool) (change : LaneJob → LaneJob) :
    LaneJobStore × List StoreTask :=
  match store.get id with
  | none => (store, [])
  | some job => (if p job then store.set (change job) else store, [])

def isRunning (job : LaneJob) : Bool :=
  job.status = .running

def noteExecutionOwner (id : Text) (owner : Option ExecutionOwner) :
    LaneJobStore × List StoreTask :=
  store.update id isRunning fun job => { job with executionOwner := owner }

def noteReadOnly (id laneId binding : Text) : LaneJobStore × List StoreTask :=
  store.update id isRunning
    fun job => { job with
      readOnly := some ⟨.ofProperties [("laneId", some (.str laneId)),
        ("binding", some (.str binding))], rfl⟩ }

def noteLaunch (id : Text) (notes : List Text) : LaneJobStore × List StoreTask :=
  store.update id (fun job => isRunning job && notes ≠ []) fun job =>
    { job with launch := some notes }

def recordAttempt (id : Text) (attempt : LaneAttempt) : LaneJobStore × List StoreTask :=
  store.update id (fun _ => true) fun job => { job with attempts := job.attempts ++ [attempt] }

def noteWalkScope (id : Text) (enabled : Bool) (lanesNotTried : Number) (forced : Bool) :
    LaneJobStore × List StoreTask :=
  store.update id (fun _ => true) fun job =>
    { job with
      walkEnabled := some enabled
      lanesNotTried := if (0 : Number).lt lanesNotTried then some lanesNotTried else job.lanesNotTried
      forcedLane := if forced then some true else job.forcedLane }

def noteSkippedLane (id : Text) : LaneJobStore × List StoreTask :=
  store.update id (fun _ => true) fun job =>
    { job with lanesNotTried := some ((job.lanesNotTried.getD 0).add 1) }

/-- A job has ended: its processes are stopped, and it is archived before its row is cleared.
The `report` says what became of the processes that it owns. -/
def reap (id : Text) (report : LaneProcessReport) : LaneJobStore × List StoreTask :=
  let brokerOwned := store.brokerExecutions.has id
  let store := { store with brokerExecutions := store.brokerExecutions.delete id }
  match store.get id with
  | none => (store, [.clear id])
  | some job =>
    let job := { job with process := some (if brokerOwned then noProcesses else report) }
    (store.set job, [.record job none])

/-- A job as its run ended. -/
def completedJob (job : LaneJob) (run : LaneRunResult) (semanticFailure : Option Text)
    (relay : Option ObjectValue) (now : Number) : LaneJob :=
  let job :=
    { job with
      exitCode := run.code
      stdout := run.stdout
      stderr := run.stderr
      timedOut := run.timedOut
      endedAt := some now
      relay := relay.or job.relay }
  if run.timedOut then
    { job with
      status := .timed_out
      error := some (semanticFailure.getD (text ("the lane exceeded its configured timeout and was "
        ++ "stopped before it finished"))) }
  else
    { job with
      status := if run.code = some 0 ∧ semanticFailure = none then .completed else .failed
      error := semanticFailure.or job.error }

/-- Completes a job; a cancelled one stays cancelled. -/
def complete (id : Text) (run : LaneRunResult) (semanticFailure : Option Text)
    (relay : Option ObjectValue) (now : Number) (report : LaneProcessReport) :
    LaneJobStore × List StoreTask :=
  match store.get id with
  | none => (store, [])
  | some job =>
    if job.status = .cancelled then (store, [])
    else (store.set (completedJob job run semanticFailure relay now)).reap id report

def fail (id error : Text) (now : Number) (report : LaneProcessReport) :
    LaneJobStore × List StoreTask :=
  match store.get id with
  | none => (store, [])
  | some job =>
    if job.status = .cancelled then (store, [])
    else
      (store.set { job with status := .failed, error := some error, endedAt := some now }).reap id
        report

/-- Cancels a running job; one that the daemon runs is cancelled there. -/
def cancel (id : Text) (now : Number) (report : LaneProcessReport) :
    LaneJobStore × List StoreTask :=
  match store.get id with
  | none => (store, [])
  | some job =>
    if job.status ≠ .running ∨ store.brokerExecutions.has id then (store, [])
    else (store.set { job with status := .cancelled, endedAt := some now }).reap id report

/-- A job of this store, or one that another process archived. -/
def find (id : Text) : LaneJobStore × List StoreTask :=
  if (store.get id).isSome then (store, []) else (store, [.lookup id])

/-! ## Tasks -/

/-- A job read back from the archive. -/
def restored (row : ArchivedJob) : LaneJob :=
  { row.job with restored := some true }

/-- One round of the adoption of orphans: a row of the daemon is claimed, and any other is a job
that was killed. -/
def adopt (isAlive : Nat → Bool) (available : Bool) (files : StoreFiles) (row : JournalRow) :
    LaneJobStore × StoreFiles × List StoreTask :=
  if (store.get row.jobId).isSome then (store, files, [])
  else if row.brokerExecution.isSome then
    let (claimed, journal, file) :=
      store.journal.claimBrokerOrphan isAlive available files.journal row.jobId
    ({ store with
        journal
        brokerOrphans := claimed.elim store.brokerOrphans store.brokerOrphans.put },
      { files with journal := file }, [])
  else (store.set (killedJob row), files, [.record (killedJob row) (some row)])

/-- One task, and what it leaves to do. -/
def perform (isAlive : Nat → Bool) (available : Bool) (files : StoreFiles) :
    StoreTask → LaneJobStore × StoreFiles × List StoreTask
  | .restoreArchive =>
    let (rows, archive) := store.archive.restore files.archive
    ({ store with archive, jobs := (rows.map restored).foldl Table.putNew store.jobs }, files, [])
  | .adoptOrphans =>
    let (orphans, journal) := store.journal.orphans isAlive files.journal
    ({ store with journal }, files, orphans.map .adopt)
  | .adopt row => store.adopt isAlive available files row
  | .note row =>
    let (journal, file) := store.journal.note isAlive available files.journal row
    ({ store with journal }, { files with journal := file }, [])
  | .noteStartingTree jobId tree scope =>
    let (journal, file) :=
      store.journal.noteStartingTree isAlive available files.journal jobId tree scope
    ({ store with journal }, { files with journal := file }, [])
  | .noteBrokerExecution jobId executionId =>
    let (journal, file) :=
      store.journal.noteBrokerExecution isAlive available files.journal jobId executionId
    ({ store with journal }, { files with journal := file }, [])
  | .record job orphan =>
    let (archive, file, committed) := store.archive.record available files.archive job
    ({ store with archive }, { files with archive := file },
      if committed then [.acknowledge job orphan] else [])
  | .clear jobId =>
    let (journal, file) := store.journal.clear isAlive available files.journal jobId
    ({ store with journal }, { files with journal := file }, [])
  | .clearOrphan row =>
    let (journal, file) := store.journal.clearOrphan isAlive available files.journal row
    ({ store with journal }, { files with journal := file }, [])
  | .lookup jobId =>
    match lookupArchived files.archive jobId with
    | none => (store, files, [])
    | some row => (store.set (restored row), files, [])

end LaneJobStore

end LlmRelay
