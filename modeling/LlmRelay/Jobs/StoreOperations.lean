import LlmRelay.Jobs.LaneJobStore

/-!
# The operations of a store

Every operation keeps the jobs of a store sound: their numbers are finite, and a job that is not
running has an end. What it leaves to do is at most one task, and a job that it archives has
ended.

## Main definitions

* `StoreOperation`, `LaneJobStore.operate`: the operations;
* `LaneJob.Sound`: finite numbers, and an end where the job is not running.

## Main results

* `LaneJobStore.operate_settles`: what every operation keeps.
-/

namespace LlmRelay

open Ecma

/-! ## Operations -/

/-- An operation of a store, with the readings of the clock and of the system that it makes. -/
inductive StoreOperation where
  | create (id laneId : Text) (spec : Option Text) (cwd : Text)
    (dispatchSource : Option DispatchSource) (label : Option Text) (now : Number)
  | setCurrentLane (id laneId : Text) (spec : Option Text)
  | noteStartingTree (id : Text) (tree : TreeSnapshot) (scope : Option (List Text))
  | clearBrokerExecution (id : Text)
  | noteBrokerExecution (id executionId : Text)
  | applyBrokerSnapshot (id : Text) (snapshot : LaneExecutionSnapshot) (now : Number)
  | takeBrokerOrphans
  | adoptBrokerRunning (row : JournalRow)
  | markBrokerKilled (id message : Text) (now : Number)
  | noteTreeDelta (id delta : Text)
  | noteExecutionOwner (id : Text) (owner : Option ExecutionOwner)
  | noteReadOnly (id laneId binding : Text)
  | noteLaunch (id : Text) (notes : List Text)
  | recordAttempt (id : Text) (attempt : LaneAttempt)
  | noteWalkScope (id : Text) (enabled : Bool) (lanesNotTried : Number) (forced : Bool)
  | noteSkippedLane (id : Text)
  | complete (id : Text) (run : LaneRunResult) (semanticFailure : Option Text)
    (relay : Option ObjectValue) (now : Number) (report : LaneProcessReport)
  | fail (id error : Text) (now : Number) (report : LaneProcessReport)
  | cancel (id : Text) (now : Number) (report : LaneProcessReport)
  | find (id : Text)

/-- The numbers of a report. -/
def LaneProcessReport.numbers (report : LaneProcessReport) : List Number :=
  report.pids ++ report.survivors

/-- The numbers that an operation brings. -/
def StoreOperation.numbers : StoreOperation → List Number
  | create _ _ _ _ _ _ now => [now]
  | applyBrokerSnapshot _ snapshot now =>
    now :: (snapshot.endedAt.toList ++ (snapshot.result.bind (·.code)).toList)
  | adoptBrokerRunning row => [row.startedAt]
  | markBrokerKilled _ _ now => [now]
  | recordAttempt _ attempt => [attempt.elapsedMs]
  | noteWalkScope _ _ lanesNotTried _ => [lanesNotTried]
  | complete _ run _ _ now report => now :: (run.code.toList ++ report.numbers)
  | fail _ _ now report => now :: report.numbers
  | cancel _ now report => now :: report.numbers
  | _ => []

def LaneJobStore.operate (store : LaneJobStore) : StoreOperation → LaneJobStore × List StoreTask
  | .create id laneId spec cwd dispatchSource label now =>
    store.createJob id laneId spec cwd dispatchSource label now
  | .setCurrentLane id laneId spec => store.setCurrentLane id laneId spec
  | .noteStartingTree id tree scope => store.noteStartingTree id tree scope
  | .clearBrokerExecution id => store.clearBrokerExecution id
  | .noteBrokerExecution id executionId => store.noteBrokerExecution id executionId
  | .applyBrokerSnapshot id snapshot now => store.applyBrokerSnapshot id snapshot now
  | .takeBrokerOrphans => (store.takeBrokerOrphans.2, [])
  | .adoptBrokerRunning row => store.adoptBrokerRunning row
  | .markBrokerKilled id message now => store.markBrokerKilled id message now
  | .noteTreeDelta id delta => store.noteTreeDelta id delta
  | .noteExecutionOwner id owner => store.noteExecutionOwner id owner
  | .noteReadOnly id laneId binding => store.noteReadOnly id laneId binding
  | .noteLaunch id notes => store.noteLaunch id notes
  | .recordAttempt id attempt => store.recordAttempt id attempt
  | .noteWalkScope id enabled lanesNotTried forced =>
    store.noteWalkScope id enabled lanesNotTried forced
  | .noteSkippedLane id => store.noteSkippedLane id
  | .complete id run semanticFailure relay now report =>
    store.complete id run semanticFailure relay now report
  | .fail id error now report => store.fail id error now report
  | .cancel id now report => store.cancel id now report
  | .find id => store.find id

/-! ## Sound jobs -/

/-- Finite numbers, and an end where the job is not running. -/
structure LaneJob.Sound (job : LaneJob) : Prop where
  finite : job.Finite
  ended : job.status ≠ .running → job.endedAt.isSome = true

/-- Every job of the store is sound. -/
def LaneJobStore.JobsSound (store : LaneJobStore) : Prop :=
  ∀ job ∈ store.jobs.rows.values, job.Sound

/-- A task that an operation may leave: the row of a job, or the record of one that has ended. -/
def FreshTask : StoreTask → Prop
  | .note row => row.startedAt.isFinite = true
  | .noteStartingTree .. => True
  | .noteBrokerExecution .. => True
  | .lookup _ => True
  | .record job orphan => job.Sound ∧ job.status ≠ .running ∧ orphan = none
  | _ => False

/-- What an operation keeps, and what it may leave to do. -/
structure LaneJobStore.Settles (store : LaneJobStore) (result : LaneJobStore × List StoreTask) :
    Prop where
  journal : result.1.journal = store.journal
  archive : result.1.archive = store.archive
  jobs : result.1.JobsSound
  tasks : result.2 = [] ∨ ∃ task, result.2 = [task] ∧ FreshTask task

section Sound

variable {store : LaneJobStore} {job : LaneJob}

theorem LaneJob.finite_iff : job.Finite ↔ job.startedAt.isFinite = true ∧
    (∀ x, job.endedAt = some x → x.isFinite = true) ∧
    (∀ x, job.exitCode = some x → x.isFinite = true) ∧
    (∀ x, job.lanesNotTried = some x → x.isFinite = true) ∧
    (∀ attempt ∈ job.attempts, attempt.elapsedMs.isFinite = true) ∧
    ∀ report, job.process = some report → ∀ x ∈ report.numbers, x.isFinite = true := by
  constructor
  · intro h
    refine ⟨h _ List.mem_cons_self, fun x hx => h x ?_, fun x hx => h x ?_, fun x hx => h x ?_,
      fun attempt hattempt => h _ ?_, fun report hreport x hx => h x ?_⟩
    · simp [LaneJob.numbers, hx]
    · simp [LaneJob.numbers, hx]
    · simp [LaneJob.numbers, hx]
    · simp only [LaneJob.numbers, List.mem_cons, List.mem_append, List.mem_map]
      exact .inr (.inl (.inr ⟨attempt, hattempt, rfl⟩))
    · simp only [LaneJob.numbers, List.mem_cons, List.mem_append, List.mem_flatMap,
        Option.mem_toList]
      exact .inr (.inr ⟨report, hreport, List.mem_append.mp hx⟩)
  · rintro ⟨hstart, hend, hexit, htried, hattempts, hprocess⟩ x hx
    simp only [LaneJob.numbers, List.mem_cons, List.mem_append, List.mem_map, List.mem_flatMap,
      Option.mem_toList] at hx
    rcases hx with rfl | (((hx | hx) | hx) | ⟨attempt, hattempt, rfl⟩) | ⟨report, hreport, hx⟩
    · exact hstart
    · exact hend x hx
    · exact hexit x hx
    · exact htried x hx
    · exact hattempts attempt hattempt
    · exact hprocess report hreport x (List.mem_append.mpr hx)

theorem LaneJob.sound_of_running (hfinite : job.Finite) (hrunning : job.status = .running) :
    job.Sound :=
  ⟨hfinite, fun hne => absurd hrunning hne⟩

variable {now : Number} {report : LaneProcessReport} {snapshot : LaneExecutionSnapshot}

theorem finite_begin (id laneId : Text) (spec : Option Text) (cwd : Text) (h : now.isFinite = true) :
    (LaneJob.begin id laneId spec cwd now).Finite := by
  intro x hx
  rw [List.mem_singleton.mp hx]
  exact h

variable (h : store.JobsSound)

include h

theorem LaneJobStore.JobsSound.get {id : Text} (hget : store.get id = some job) : job.Sound :=
  h job (OrderedMap.mem_values_of_get? hget)

/-- A sound job is put among the others. -/
theorem LaneJobStore.JobsSound.set (hjob : job.Sound) : (store.set job).JobsSound := by
  intro other hother
  rcases Table.mem_values_put hother with rfl | hold
  · exact hjob
  · exact h other hold

theorem LaneJobStore.Settles.idle : store.Settles (store, []) :=
  ⟨rfl, rfl, h, .inl rfl⟩

/-- One job changes, and there may be a task. -/
theorem LaneJobStore.Settles.set (hjob : job.Sound)
    {executions : OrderedMap Text Text} {tasks : List StoreTask}
    (htasks : tasks = [] ∨ ∃ task, tasks = [task] ∧ FreshTask task) :
    store.Settles ({ store.set job with brokerExecutions := executions }, tasks) :=
  ⟨rfl, rfl, h.set hjob, htasks⟩

theorem LaneJobStore.update_settles (id : Text) (p : LaneJob → Bool)
    {change : LaneJob → LaneJob} (hchange : ∀ job, job.Sound → (change job).Sound) :
    store.Settles (store.update id p change) := by
  rw [LaneJobStore.update]
  cases hget : store.get id with
  | none => exact .idle h
  | some job =>
    refine ⟨?_, ?_, ?_, .inl rfl⟩
    · simp only
      split <;> rfl
    · simp only
      split <;> rfl
    · simp only
      split
      · exact h.set (hchange job (h.get hget))
      · exact h

omit h

theorem freshTask_record (hjob : job.Sound) (hended : job.status ≠ .running) :
    ∃ task, [StoreTask.record job none] = [task] ∧ FreshTask task :=
  ⟨_, rfl, hjob, hended, rfl⟩

theorem freshTask_note (hjob : job.Sound) :
    ∃ task, [StoreTask.note job.journalRow] = [task] ∧ FreshTask task :=
  ⟨_, rfl, hjob.finite _ List.mem_cons_self⟩

theorem LaneJob.sound_of_ended (hfinite : job.Finite) {endedAt : Number}
    (hended : job.endedAt = some endedAt) : job.Sound :=
  ⟨hfinite, fun _ => by rw [hended]; rfl⟩

/-- A job with another end. -/
theorem LaneJob.Finite.ended (h : job.Finite) {job' : LaneJob} {endedAt : Number}
    (hended : endedAt.isFinite = true)
    (hnumbers : job'.numbers = { job with endedAt := some endedAt }.numbers) : job'.Finite := by
  rw [LaneJob.Finite, hnumbers]
  obtain ⟨hstart, -, hexit, htried, hattempts, hprocess⟩ := LaneJob.finite_iff.mp h
  refine LaneJob.finite_iff.mpr ⟨hstart, ?_, hexit, htried, hattempts, hprocess⟩
  rintro x ⟨⟩
  exact hended

variable (h : store.JobsSound)

include h

theorem createJob_settles (id laneId : Text) (spec : Option Text)
    (cwd : Text) (dispatchSource : Option DispatchSource) (label : Option Text)
    (hnow : now.isFinite = true) :
    store.Settles (store.createJob id laneId spec cwd dispatchSource label now) := by
  have hjob : LaneJob.Sound
      { LaneJob.begin id laneId spec cwd now with
        dispatchSource
        label := label.filter fun label => label ≠ [] } :=
    LaneJob.sound_of_running (finite_begin id laneId spec cwd hnow) rfl
  exact .set h hjob (.inr (freshTask_note hjob))

theorem setCurrentLane_settles (id laneId : Text) (spec : Option Text) :
    store.Settles (store.setCurrentLane id laneId spec) := by
  rw [LaneJobStore.setCurrentLane]
  cases hget : store.get id with
  | none => exact .idle h
  | some job =>
    simp only
    split
    · rename_i hrunning
      have hjob : LaneJob.Sound
          { job with laneId, spec, readOnly := none, launch := none, executionOwner := none } :=
        LaneJob.sound_of_running (h.get hget).finite hrunning
      exact .set h hjob (.inr (freshTask_note hjob))
    · exact .idle h

theorem clearBrokerExecution_settles (id : Text) :
    store.Settles (store.clearBrokerExecution id) := by
  rw [LaneJobStore.clearBrokerExecution]
  cases hget : store.get id with
  | none => exact .idle h
  | some job =>
    simp only
    split
    · rename_i hrunning
      have hjob : LaneJob.Sound
          { job with
            executionOwner :=
              if job.executionOwner = some .relayDaemon then none else job.executionOwner } :=
        LaneJob.sound_of_running (h.get hget).finite hrunning
      exact .set h hjob (.inr (freshTask_note hjob))
    · exact .idle h

theorem noteStartingTree_settles (id : Text) (tree : TreeSnapshot)
    (scope : Option (List Text)) : store.Settles (store.noteStartingTree id tree scope) := by
  rw [LaneJobStore.noteStartingTree]
  cases store.get id with
  | none => exact .idle h
  | some job =>
    simp only
    split
    · exact ⟨rfl, rfl, h, .inr ⟨_, rfl, trivial⟩⟩
    · exact .idle h

theorem noteBrokerExecution_settles (id executionId : Text) :
    store.Settles (store.noteBrokerExecution id executionId) := by
  rw [LaneJobStore.noteBrokerExecution]
  cases store.get id with
  | none => exact .idle h
  | some job =>
    simp only
    split
    · exact ⟨rfl, rfl, h, .inr ⟨_, rfl, trivial⟩⟩
    · exact .idle h

theorem adoptBrokerRunning_settles {row : JournalRow}
    (hrow : row.startedAt.isFinite = true) : store.Settles (store.adoptBrokerRunning row) := by
  rw [LaneJobStore.adoptBrokerRunning]
  split
  · have hjob : LaneJob.Sound
        { LaneJob.begin row.jobId row.laneId row.spec row.cwd row.startedAt with
          restored := some true
          executionOwner := some .relayDaemon
          label := row.label } :=
      LaneJob.sound_of_running (finite_begin row.jobId row.laneId row.spec row.cwd hrow) rfl
    exact .set h hjob (.inl rfl)
  · exact .idle h

theorem markBrokerKilled_settles (id message : Text)
    (hnow : now.isFinite = true) : store.Settles (store.markBrokerKilled id message now) := by
  rw [LaneJobStore.markBrokerKilled]
  cases hget : store.get id with
  | none => exact .idle h
  | some job =>
    simp only
    split
    · have hjob : LaneJob.Sound
          { job with status := .killed, endedAt := some now, error := some message } :=
        LaneJob.sound_of_ended ((h.get hget).finite.ended hnow rfl) rfl
      exact .set h hjob (.inr (freshTask_record hjob (by simp)))
    · exact .idle h

theorem noteTreeDelta_settles (id delta : Text) : store.Settles (store.noteTreeDelta id delta) := by
  rw [LaneJobStore.noteTreeDelta]
  cases hget : store.get id with
  | none => exact .idle h
  | some job =>
    have hjob : LaneJob.Sound { job with treeDelta := some delta } :=
      ⟨(h.get hget).finite, (h.get hget).ended⟩
    refine .set h hjob ?_
    split
    · exact .inl rfl
    · rename_i hended
      exact .inr (freshTask_record hjob hended)

theorem reap_settles {id : Text} {job : LaneJob} (hjob : job.Sound)
    (hended : job.status ≠ .running) (hid : job.id = id)
    (hreport : ∀ x ∈ report.numbers, x.isFinite = true) :
    store.Settles ((store.set job).reap id report) := by
  have hget : (store.set job).get id = some job := by
    rw [← hid]
    exact OrderedMap.get?_set_self _ _ _
  have hreaped : ∀ owned : Bool,
      LaneJob.Sound { job with process := some (if owned then noProcesses else report) } := by
    intro owned
    obtain ⟨hstart, hend, hexit, htried, hattempts, -⟩ := LaneJob.finite_iff.mp hjob.finite
    refine ⟨LaneJob.finite_iff.mpr ⟨hstart, hend, hexit, htried, hattempts, ?_⟩, hjob.ended⟩
    rintro report' ⟨⟩ x hx
    cases owned with
    | true => cases hx
    | false => exact hreport x hx
  rw [LaneJobStore.get] at hget
  simp only [LaneJobStore.reap, LaneJobStore.get, hget]
  exact ⟨rfl, rfl, (h.set hjob).set (hreaped _), .inr (freshTask_record (hreaped _) hended)⟩

theorem complete_settles (id : Text) {run : LaneRunResult}
    (semanticFailure : Option Text) (relay : Option ObjectValue) (hnow : now.isFinite = true)
    (hcode : ∀ x, run.code = some x → x.isFinite = true)
    (hreport : ∀ x ∈ report.numbers, x.isFinite = true) :
    store.Settles (store.complete id run semanticFailure relay now report) := by
  rw [LaneJobStore.complete]
  cases hget : store.get id with
  | none => exact .idle h
  | some job =>
    simp only
    split
    · exact .idle h
    · have hid : job.id = id := (store.jobs.filed _ ((OrderedMap.mem_entries_iff _).mpr hget)).symm
      have hfinite : (LaneJobStore.completedJob job run semanticFailure relay now).Finite := by
        obtain ⟨hstart, -, -, htried, hattempts, hprocess⟩ :=
          LaneJob.finite_iff.mp (h.get hget).finite
        have hend : ∀ x, some now = some x → x.isFinite = true := by
          rintro x ⟨⟩
          exact hnow
        rw [LaneJobStore.completedJob]
        split
        · exact LaneJob.finite_iff.mpr ⟨hstart, hend, hcode, htried, hattempts, hprocess⟩
        · exact LaneJob.finite_iff.mpr ⟨hstart, hend, hcode, htried, hattempts, hprocess⟩
      have hstatus : (LaneJobStore.completedJob job run semanticFailure relay now).status
          ≠ .running := by
        rw [LaneJobStore.completedJob]
        split
        · simp
        · simp only
          split <;> simp
      have hended : (LaneJobStore.completedJob job run semanticFailure relay now).endedAt
          = some now := by
        rw [LaneJobStore.completedJob]
        split <;> rfl
      have hid' : (LaneJobStore.completedJob job run semanticFailure relay now).id = id := by
        rw [LaneJobStore.completedJob]
        split <;> exact hid
      exact reap_settles h (LaneJob.sound_of_ended hfinite hended) hstatus hid' hreport

theorem fail_settles (id error : Text) (hnow : now.isFinite = true)
    (hreport : ∀ x ∈ report.numbers, x.isFinite = true) :
    store.Settles (store.fail id error now report) := by
  rw [LaneJobStore.fail]
  cases hget : store.get id with
  | none => exact .idle h
  | some job =>
    simp only
    split
    · exact .idle h
    · have hid : job.id = id := (store.jobs.filed _ ((OrderedMap.mem_entries_iff _).mpr hget)).symm
      have hjob : LaneJob.Sound
          { job with status := .failed, error := some error, endedAt := some now } :=
        LaneJob.sound_of_ended ((h.get hget).finite.ended hnow rfl) rfl
      exact reap_settles h hjob (by simp) hid hreport

theorem cancel_settles (id : Text) (hnow : now.isFinite = true)
    (hreport : ∀ x ∈ report.numbers, x.isFinite = true) :
    store.Settles (store.cancel id now report) := by
  rw [LaneJobStore.cancel]
  cases hget : store.get id with
  | none => exact .idle h
  | some job =>
    simp only
    split
    · exact .idle h
    · have hid : job.id = id := (store.jobs.filed _ ((OrderedMap.mem_entries_iff _).mpr hget)).symm
      have hjob : LaneJob.Sound { job with status := .cancelled, endedAt := some now } :=
        LaneJob.sound_of_ended ((h.get hget).finite.ended hnow rfl) rfl
      exact reap_settles h hjob (by simp) hid hreport

omit h

theorem settledJob_cases {settled : LaneJob}
    (h : LaneJobStore.settledJob job snapshot = some settled) :
    settled.numbers = job.numbers ∧ settled.status ≠ .running := by
  unfold LaneJobStore.settledJob at h
  split at h
  · split at h
    · cases h
    · split at h
      · cases h
        exact ⟨rfl, by simp⟩
      · cases h
        exact ⟨rfl, by simp⟩
  · split at h
    · cases h
    · cases h
      exact ⟨rfl, by simp⟩
  · split at h
    · cases h
      exact ⟨rfl, by simp⟩
    · cases h
  · cases h
    exact ⟨rfl, by simp⟩
  · cases h

theorem applyBrokerSnapshot_settles (h : store.JobsSound) (id : Text) (hnow : now.isFinite = true)
    (hend : ∀ x, snapshot.endedAt = some x → x.isFinite = true)
    (hcode : ∀ x, snapshot.result.bind (·.code) = some x → x.isFinite = true) :
    store.Settles (store.applyBrokerSnapshot id snapshot now) := by
  rw [LaneJobStore.applyBrokerSnapshot]
  split
  · rename_i job executionId hget _
    split
    · exact .idle h
    · have hlaunched : LaneJob.Sound { job with launch := snapshot.launchNotes.or job.launch } :=
        ⟨(h.get hget).finite, (h.get hget).ended⟩
      simp only
      split
      · exact .set h hlaunched (.inl rfl)
      · split
        · exact .set h hlaunched (.inl rfl)
        · rename_i settled hsettled
          obtain ⟨hnumbers, hstatus⟩ := settledJob_cases hsettled
          have hfinite : settled.Finite := by
            rw [LaneJob.Finite, hnumbers]
            exact hlaunched.finite
          have hwhen : (snapshot.endedAt.getD now).isFinite = true := by
            cases hended : snapshot.endedAt with
            | none => exact hnow
            | some x => exact hend x hended
          have hresult : (LaneJobStore.withResult settled snapshot.result).Finite ∧
              (LaneJobStore.withResult settled snapshot.result).status ≠ .running := by
            cases hresult : snapshot.result with
            | none => exact ⟨hfinite, hstatus⟩
            | some result =>
              obtain ⟨hstart, hend', -, htried, hattempts, hprocess⟩ :=
                LaneJob.finite_iff.mp hfinite
              rw [hresult] at hcode
              exact ⟨LaneJob.finite_iff.mpr
                ⟨hstart, hend', hcode, htried, hattempts, hprocess⟩, hstatus⟩
          have hjob : LaneJob.Sound { LaneJobStore.withResult settled snapshot.result with
              endedAt := some (snapshot.endedAt.getD now) } :=
            LaneJob.sound_of_ended (hresult.1.ended hwhen rfl) rfl
          exact .set h hjob (.inr (freshTask_record hjob hresult.2))
  · exact .idle h

/-- **Every operation** keeps the jobs sound, and leaves at most one task. -/
theorem LaneJobStore.operate_settles (h : store.JobsSound) (operation : StoreOperation)
    (hnumbers : ∀ x ∈ operation.numbers, x.isFinite = true) :
    store.Settles (store.operate operation) := by
  cases operation with
  | create id laneId spec cwd dispatchSource label now =>
    exact createJob_settles h id laneId spec cwd dispatchSource label
      (hnumbers now List.mem_cons_self)
  | setCurrentLane id laneId spec => exact setCurrentLane_settles h id laneId spec
  | noteStartingTree id tree scope => exact noteStartingTree_settles h id tree scope
  | clearBrokerExecution id => exact clearBrokerExecution_settles h id
  | noteBrokerExecution id executionId => exact noteBrokerExecution_settles h id executionId
  | applyBrokerSnapshot id snapshot now =>
    refine applyBrokerSnapshot_settles h id (hnumbers now List.mem_cons_self) ?_ ?_
    · intro x hx
      exact hnumbers x (List.mem_cons_of_mem now (List.mem_append_left _ (by simp [hx])))
    · intro x hx
      exact hnumbers x (List.mem_cons_of_mem now (List.mem_append_right _ (by simp [hx])))
  | takeBrokerOrphans => exact ⟨rfl, rfl, h, .inl rfl⟩
  | adoptBrokerRunning row => exact adoptBrokerRunning_settles h (hnumbers _ List.mem_cons_self)
  | markBrokerKilled id message now =>
    exact markBrokerKilled_settles h id message (hnumbers now List.mem_cons_self)
  | noteTreeDelta id delta => exact noteTreeDelta_settles h id delta
  | noteExecutionOwner id owner =>
    exact LaneJobStore.update_settles h id _ fun job hjob => ⟨hjob.finite, hjob.ended⟩
  | noteReadOnly id laneId binding =>
    exact LaneJobStore.update_settles h id _ fun job hjob => ⟨hjob.finite, hjob.ended⟩
  | noteLaunch id notes =>
    exact LaneJobStore.update_settles h id _ fun job hjob => ⟨hjob.finite, hjob.ended⟩
  | recordAttempt id attempt =>
    refine LaneJobStore.update_settles h id _ fun job hjob => ⟨?_, hjob.ended⟩
    obtain ⟨hstart, hend, hexit, htried, hattempts, hprocess⟩ := LaneJob.finite_iff.mp hjob.finite
    refine LaneJob.finite_iff.mpr ⟨hstart, hend, hexit, htried, fun other hother => ?_, hprocess⟩
    rcases List.mem_append.mp hother with hold | hnew
    · exact hattempts other hold
    · rw [List.mem_singleton.mp hnew]
      exact hnumbers _ List.mem_cons_self
  | noteWalkScope id enabled lanesNotTried forced =>
    refine LaneJobStore.update_settles h id _ fun job hjob => ⟨?_, hjob.ended⟩
    obtain ⟨hstart, hend, hexit, htried, hattempts, hprocess⟩ := LaneJob.finite_iff.mp hjob.finite
    refine LaneJob.finite_iff.mpr ⟨hstart, hend, hexit, fun x hx => ?_, hattempts, hprocess⟩
    split at hx
    · rw [← Option.some.inj hx]
      exact hnumbers _ List.mem_cons_self
    · exact htried x hx
  | noteSkippedLane id =>
    refine LaneJobStore.update_settles h id _ fun job hjob => ⟨?_, hjob.ended⟩
    obtain ⟨hstart, hend, hexit, htried, hattempts, hprocess⟩ := LaneJob.finite_iff.mp hjob.finite
    refine LaneJob.finite_iff.mpr ⟨hstart, hend, hexit, fun x hx => ?_, hattempts, hprocess⟩
    rw [← Option.some.inj hx]
    refine Number.isFinite_add ?_ rfl
    cases hbefore : job.lanesNotTried with
    | none => rfl
    | some y => exact htried y hbefore
  | complete id run semanticFailure relay now report =>
    refine complete_settles h id semanticFailure relay (hnumbers now List.mem_cons_self) ?_ ?_
    · intro x hx
      exact hnumbers x (List.mem_cons_of_mem now (List.mem_append_left _ (by simp [hx])))
    · intro x hx
      exact hnumbers x (List.mem_cons_of_mem now (List.mem_append_right _ hx))
  | fail id error now report =>
    exact fail_settles h id error (hnumbers now List.mem_cons_self) fun x hx =>
      hnumbers x (List.mem_cons_of_mem now hx)
  | cancel id now report =>
    exact cancel_settles h id (hnumbers now List.mem_cons_self) fun x hx =>
      hnumbers x (List.mem_cons_of_mem now hx)
  | find id =>
    rw [LaneJobStore.operate, LaneJobStore.find]
    split
    · exact .idle h
    · exact ⟨rfl, rfl, h, .inr ⟨_, rfl, trivial⟩⟩

end Sound

end LlmRelay
