import LlmRelay.Jobs.JournalOwnership
import LlmRelay.Jobs.JournalWrites
import LlmRelay.Jobs.StoreOperations

/-!
# Any number of job stores

The processes that share the journal file and the archive file, each with a store of its own. A
process may die after any task. The invariant holds of all runs in which no write of the archive
drops the row that it records, or the row of a job that is still in the journal.

## Main definitions

* `StoreWorld`: the two files, and the processes with their stores;
* `StoreWorld.step`: the start, the death, an operation or one task of a process;
* `StoreWorld.Fits`: the write of an event drops no such row;
* `StoreWorld.Sound`: the invariant of all runs that fit.

## Main results

* `StoreWorld.Sound.step`: what one event preserves;
* `StoreWorld.Sound.run`: what a run preserves.
-/

namespace LlmRelay

open Ecma

/-! ## Any number of processes -/

/-- A process: its store, and what is left of the operation under way. -/
structure StoreProcess where
  store : LaneJobStore
  tasks : List StoreTask
  alive : Bool

/-- The files, the processes by pid, and the pids of every process so far. -/
structure StoreWorld where
  files : StoreFiles
  processes : Nat → Option StoreProcess
  seen : List Nat

/-- What may happen next: a process starts, dies, begins an operation, or carries out one task,
whose transaction finds the lock and the disk `available` or not. -/
inductive StoreEvent where
  | start (owner : JournalOwner)
  | die (pid : Nat)
  | operate (pid : Nat) (operation : StoreOperation)
  | proceed (pid : Nat) (available : Bool)

namespace StoreWorld

/-- Files that earlier processes left behind; they are all dead. -/
def initial (files : StoreFiles) : StoreWorld where
  files := files
  processes := fun _ => none
  seen := (diskRows files.journal).filterMap fun row => row.owner.map (·.pid)

/-- `isAlive`, truthfully. -/
def isAlive (world : StoreWorld) (pid : Nat) : Bool :=
  (world.processes pid).any (·.alive)

/-- A process goes on as `process`. -/
def put (world : StoreWorld) (pid : Nat) (process : StoreProcess) : StoreWorld :=
  { world with processes := Function.update world.processes pid (some process) }

/-- One event. The dead do nothing, and an operation begins once the one before it is over. -/
def step (world : StoreWorld) : StoreEvent → StoreWorld
  | .start owner =>
    let (store, tasks) := LaneJobStore.create owner
    { world.put owner.pid ⟨store, tasks, true⟩ with seen := owner.pid :: world.seen }
  | .die pid =>
    match world.processes pid with
    | none => world
    | some process => world.put pid { process with alive := false }
  | .operate pid operation =>
    match world.processes pid with
    | some ⟨store, [], true⟩ =>
      let (store, tasks) := store.operate operation
      world.put pid ⟨store, tasks, true⟩
    | _ => world
  | .proceed pid available =>
    match world.processes pid with
    | some ⟨store, task :: rest, true⟩ =>
      let (store, files, tasks) := store.perform world.isAlive available world.files task
      { world.put pid ⟨store, tasks ++ rest, true⟩ with files }
    | _ => world

/-- The events of a run, one after another. -/
def run (world : StoreWorld) (events : List StoreEvent) : StoreWorld :=
  events.foldl step world

/-- Pids are distinct, and clocks and the system report finite numbers. -/
def Allowed (world : StoreWorld) : StoreEvent → Prop
  | .start owner => owner.pid ∉ world.seen
  | .operate _ operation => ∀ x ∈ operation.numbers, x.isFinite = true
  | _ => True

/-- The archive has a terminal record of the job. -/
def Archived (world : StoreWorld) (jobId : Text) : Prop :=
  ∃ row ∈ archivedRows world.files.archive, row.id = jobId

/-- The journal file has a row of the job. -/
def Journaled (world : StoreWorld) (jobId : Text) : Prop :=
  ∃ row ∈ diskRows world.files.journal, row.jobId = jobId

/-- Fewer than `MAX_ARCHIVED_JOBS` rows come after the row that a live process is about to
record, and after any archived row of a job that is still in the journal. -/
def Fits (world : StoreWorld) : StoreEvent → Prop
  | .proceed pid true =>
    ∀ store job orphan rest archived,
      world.processes pid = some ⟨store, .record job orphan :: rest, true⟩ →
      job.archived? = some archived →
      ∀ row ∈ (mergedRows (archivedRows world.files.archive)
          (boundOutput archived)).rows.values,
        row.id = job.id ∨ world.Journaled row.id →
        (rowsAfter row (mergedRows (archivedRows world.files.archive)
          (boundOutput archived)).rows.values).length < MAX_ARCHIVED_JOBS
  | _ => True

/-- Every event of the run is allowed when it happens. -/
def AllowedRun : StoreWorld → List StoreEvent → Prop
  | _, [] => True
  | world, event :: rest => world.Allowed event ∧ AllowedRun (world.step event) rest

/-- Every event of the run is allowed and fits when it happens. -/
def FittingRun : StoreWorld → List StoreEvent → Prop
  | _, [] => True
  | world, event :: rest =>
    world.Allowed event ∧ world.Fits event ∧ FittingRun (world.step event) rest

/-! ### The invariant -/

/-- The owner of the row, if it has one, is dead and stays so. -/
def Orphaned (world : StoreWorld) (row : JournalRow) : Prop :=
  row.startedAt.isFinite = true ∧
    ∀ owner, row.owner = some owner → owner.pid ∈ world.seen ∧ world.isAlive owner.pid = false

/-- A task that may come later in an operation. -/
def LaterTask (world : StoreWorld) : StoreTask → Prop
  | .adoptOrphans => True
  | .adopt row => world.Orphaned row
  | _ => False

/-- A task that may come next: what it removes from the journal is archived. -/
def NextTask (world : StoreWorld) (store : LaneJobStore) : StoreTask → Prop
  | .restoreArchive => store.archive = .create ∧ store.jobs = .empty
  | .record job orphan => job.Sound ∧ job.status ≠ .running ∧
    ∀ row, orphan = some row → row.jobId = job.id ∧ world.Orphaned row
  | .clear jobId => ∀ row ∈ diskRows world.files.journal,
    row.owner = some store.journal.self → row.jobId = jobId → world.Archived jobId
  | .clearOrphan orphan => world.Orphaned orphan ∧ ∀ row ∈ diskRows world.files.journal,
    sameJournalRowIdentity row orphan = true → world.Archived row.jobId
  | task => FreshTask task ∨ world.LaterTask task

/-- What holds of a live process. -/
structure ProcessSound (world : StoreWorld) (store : LaneJobStore) (tasks : List StoreTask) :
    Prop where
  rows : store.journal.OwnRows
  jobs : store.JobsSound
  startup : ∀ row ∈ store.journal.startupOrphans, world.Orphaned row
  own : ∀ row ∈ diskRows world.files.journal, row.owner = some store.journal.self →
    store.journal.Has row.jobId ∨ world.Archived row.jobId
  next : ∀ task rest, tasks = task :: rest →
    world.NextTask store task ∧ ∀ later ∈ rest, world.LaterTask later

/-- What holds of every world. -/
structure Sound (world : StoreWorld) : Prop where
  journal : SoundDisk world.files.journal
  archive : SoundArchive world.files.archive
  filed : ∀ {pid process}, world.processes pid = some process →
    process.store.journal.self.pid = pid ∧ pid ∈ world.seen
  owners : ∀ row ∈ diskRows world.files.journal, ∀ owner, row.owner = some owner →
    owner.pid ∈ world.seen ∧
      ∀ process, world.processes owner.pid = some process → owner = process.store.journal.self
  live : ∀ {pid store tasks}, world.processes pid = some ⟨store, tasks, true⟩ →
    world.ProcessSound store tasks

section Invariant

variable {world : StoreWorld} {pid : Nat} {store : LaneJobStore} {tasks : List StoreTask}

variable {process : StoreProcess}

theorem isAlive_of_process (h : world.processes pid = some process) :
    world.isAlive pid = process.alive := by
  simp [isAlive, h]

theorem sound_initial {files : StoreFiles} (hjournal : SoundDisk files.journal)
    (harchive : SoundArchive files.archive) : (initial files).Sound where
  journal := hjournal
  archive := harchive
  filed := fun h => by cases h
  owners := by
    intro row hrow owner howner
    refine ⟨List.mem_filterMap.mpr ⟨row, hrow, ?_⟩, fun _ h => by cases h⟩
    rw [howner]
    rfl
  live := fun h => by cases h

variable {task : StoreTask}

theorem LaterTask.next (h : world.LaterTask task) : world.NextTask store task := by
  cases task with
  | adoptOrphans => exact .inr h
  | adopt row => exact .inr h
  | _ => cases h

theorem ProcessSound.startup_readOnce (h : world.Sound)
    (hprocess : world.processes pid = some process)
    (hstartup : ∀ row ∈ process.store.journal.startupOrphans, world.Orphaned row) :
    ∀ row ∈ (process.store.journal.readOnce world.isAlive world.files.journal).startupOrphans,
      world.Orphaned row := by
  intro row hrow
  rw [JobJournal.readOnce] at hrow
  split at hrow
  · exact hstartup row hrow
  · -- the rows were read in this task
    obtain ⟨hdisk, hfree⟩ := List.mem_filter.mp hrow
    refine ⟨h.journal.finite row hdisk, fun owner howner => ?_⟩
    obtain ⟨hseen, hsame⟩ := h.owners row hdisk owner howner
    refine ⟨hseen, ?_⟩
    rw [Bool.and_eq_true, decide_eq_true_eq, howner, Bool.not_eq_true',
      JobJournal.ownedElsewhere, howner] at hfree
    obtain ⟨hinstance, helsewhere⟩ := hfree
    have hinstance' : owner.instance_ ≠ process.store.journal.self.instance_ :=
      fun heq => hinstance (congrArg some heq)
    have hpid : owner.pid ≠ process.store.journal.self.pid := by
      intro heq
      rw [(h.filed hprocess).1] at heq
      exact hinstance' (congrArg JournalOwner.instance_ (hsame process (heq ▸ hprocess)))
    simp only at helsewhere
    rw [if_neg hinstance', if_neg hpid] at helsewhere
    exact helsewhere

/-- **A process that does nothing** stays sound: no row of its own appears, and what is in both
files stays archived. -/
theorem ProcessSound.mono {world' : StoreWorld} (h : world.ProcessSound store tasks)
    (horphaned : ∀ row, world.Orphaned row → world'.Orphaned row)
    (hadded : ∀ row ∈ diskRows world'.files.journal, row ∈ diskRows world.files.journal ∨
      ∃ owner, row.owner = some owner ∧ owner ≠ store.journal.self ∧
        world.isAlive owner.pid = true)
    (hkept : ∀ jobId, world.Journaled jobId → world.Archived jobId → world'.Archived jobId) :
    world'.ProcessSound store tasks where
  rows := h.rows
  jobs := h.jobs
  startup := fun row hrow => horphaned row (h.startup row hrow)
  own := by
    intro row hrow howner
    rcases hadded row hrow with hold | ⟨owner, howner', hne, -⟩
    · exact (h.own row hold howner).imp id fun harchived => hkept _ ⟨row, hold, rfl⟩ harchived
    · rw [howner] at howner'
      exact absurd (Option.some.inj howner').symm hne
  next := by
    have hlater : ∀ task, world.LaterTask task → world'.LaterTask task := by
      intro task htask
      cases task with
      | adoptOrphans => trivial
      | adopt row => exact horphaned row htask
      | _ => cases htask
    intro task rest htasks
    obtain ⟨hnext, hrest⟩ := h.next task rest htasks
    refine ⟨?_, fun later hmem => hlater later (hrest later hmem)⟩
    cases task with
    | restoreArchive => exact hnext
    | record job orphan =>
      exact ⟨hnext.1, hnext.2.1, fun row hrow =>
        ⟨(hnext.2.2 row hrow).1, horphaned row (hnext.2.2 row hrow).2⟩⟩
    | clear jobId =>
      intro row hrow howner hjob
      rcases hadded row hrow with hold | ⟨owner, howner', hne, -⟩
      · exact hkept jobId ⟨row, hold, hjob⟩ (hnext row hold howner hjob)
      · rw [howner] at howner'
        exact absurd (Option.some.inj howner').symm hne
    | clearOrphan orphan =>
      refine ⟨horphaned orphan hnext.1, fun row hrow hsame => ?_⟩
      rcases hadded row hrow with hold | ⟨owner, howner, -, halive⟩
      · exact hkept _ ⟨row, hold, rfl⟩ (hnext.2 row hold hsame)
      · -- a new row has a live owner
        have hdead := (hnext.1.2 owner ((owner_eq_of_sameJournalRowIdentity hsame).trans howner)).2
        rw [halive] at hdead
        cases hdead
    | adoptOrphans => exact .inr trivial
    | adopt row => exact .inr (hlater (.adopt row) (hnext.elim (fun h => by cases h) id))
    | note row => exact hnext.imp id fun h => by cases h
    | noteStartingTree jobId tree scope => exact .inl trivial
    | noteBrokerExecution jobId executionId => exact .inl trivial
    | lookup jobId => exact .inl trivial

/-- A live process has gone on: the world with its new store, tasks and files. -/
def acted (world : StoreWorld) (pid : Nat) (store : LaneJobStore) (tasks : List StoreTask)
    (files : StoreFiles) : StoreWorld :=
  { world.put pid ⟨store, tasks, true⟩ with files }

section Acting

variable {store' : LaneJobStore} {tasks' : List StoreTask} {files : StoreFiles}

theorem isAlive_acted (hprocess : world.processes pid = some ⟨store, tasks, true⟩) :
    (world.acted pid store' tasks' files).isAlive = world.isAlive := by
  funext other
  by_cases heq : other = pid
  · subst heq
    rw [isAlive_of_process hprocess]
    simp [isAlive, acted, put]
  · simp [isAlive, acted, put, Function.update_of_ne heq]

theorem orphaned_acted (hprocess : world.processes pid = some ⟨store, tasks, true⟩)
    (row : JournalRow) :
    (world.acted pid store' tasks' files).Orphaned row ↔ world.Orphaned row := by
  rw [Orphaned, isAlive_acted hprocess]
  rfl

/-- **A live process goes on**: the world stays sound where the process does, its new rows on
disk are its own, and what is in both files stays archived. -/
theorem Sound.act (h : world.Sound) (hprocess : world.processes pid = some ⟨store, tasks, true⟩)
    (hself : store'.journal.self = store.journal.self) (hjournal : SoundDisk files.journal)
    (harchive : SoundArchive files.archive)
    (hadded : ∀ row ∈ diskRows files.journal, row ∈ diskRows world.files.journal ∨
      row.owner = some store.journal.self)
    (hkept : ∀ jobId, world.Journaled jobId → world.Archived jobId →
      (world.acted pid store' tasks' files).Archived jobId)
    (hsound : (world.acted pid store' tasks' files).ProcessSound store' tasks') :
    (world.acted pid store' tasks' files).Sound := by
  obtain ⟨hpid, hseen⟩ := h.filed hprocess
  -- a process is the one that acted, or another as before
  have hcases : ∀ {other process},
      (world.acted pid store' tasks' files).processes other = some process →
        (other = pid ∧ process = ⟨store', tasks', true⟩) ∨
          (other ≠ pid ∧ world.processes other = some process) := by
    intro other process hother
    exact Transition.party_cases hother
  refine ⟨hjournal, harchive, ?_, ?_, ?_⟩
  · intro other process hother
    rcases hcases hother with ⟨rfl, rfl⟩ | ⟨-, hother⟩
    · exact ⟨hself ▸ hpid, hseen⟩
    · exact h.filed hother
  · intro row hrow owner howner
    rcases hadded row hrow with hold | hown
    · obtain ⟨hseen', hsame⟩ := h.owners row hold owner howner
      refine ⟨hseen', fun process hother => ?_⟩
      rcases hcases hother with ⟨heq, rfl⟩ | ⟨-, hother⟩
      · exact (hsame _ (heq ▸ hprocess)).trans hself.symm
      · exact hsame process hother
    · have heq : owner = store.journal.self := Option.some.inj (howner.symm.trans hown)
      subst heq
      refine ⟨hpid ▸ hseen, fun process hother => ?_⟩
      rcases hcases hother with ⟨-, rfl⟩ | ⟨hne, -⟩
      · exact hself.symm
      · exact absurd hpid hne
  · intro other store'' tasks'' hother
    rcases hcases hother with ⟨rfl, heq⟩ | ⟨hne, hother⟩
    · cases heq
      exact hsound
    · refine (h.live hother).mono (fun row hrow => (orphaned_acted hprocess row).mpr hrow) ?_ hkept
      intro row hrow
      refine (hadded row hrow).imp id fun hown => ⟨_, hown, ?_, ?_⟩
      · intro heq
        have hother' := (h.filed hother).1
        rw [← heq, hpid] at hother'
        exact hne hother'.symm
      · rw [hpid]
        exact isAlive_of_process hprocess

/-- **A task on the journal**: what it may remove is archived. -/
theorem Sound.journal_task (h : world.Sound)
    (hprocess : world.processes pid = some ⟨store, tasks, true⟩) {gone : JournalRow → Prop}
    {file : Option Json}
    (hspec : store.journal.WriteSpec world.isAlive world.files.journal gone store'.journal file)
    (hgone : ∀ row ∈ diskRows world.files.journal, gone row → world.Archived row.jobId)
    (hjobs : store'.jobs = store.jobs) (htasks : ∀ task ∈ tasks', world.LaterTask task) :
    (world.acted pid store' tasks' { world.files with journal := file }).Sound ∧
      ∀ row ∈ diskRows world.files.journal,
        (world.acted pid store' tasks' { world.files with journal := file }).Journaled row.jobId ∨
          world.Archived row.jobId := by
  have hlive := h.live hprocess
  refine ⟨h.act hprocess hspec.self hspec.sound h.archive hspec.added (fun _ _ hin => hin) ?_, ?_⟩
  · refine ⟨hspec.rows, by rw [LaneJobStore.JobsSound, hjobs]; exact hlive.jobs, ?_, ?_, ?_⟩
    · intro row hrow
      rw [orphaned_acted hprocess]
      exact ProcessSound.startup_readOnce h hprocess hlive.startup row (hspec.startup row hrow)
    · intro row hrow howner
      rw [hspec.self] at howner
      rcases hspec.own row hrow howner with hhas | ⟨hold, hnot | hgone'⟩
      · exact .inl hhas
      · exact .inr ((hlive.own row hold howner).resolve_left hnot)
      · exact .inr (hgone row hold hgone')
    · rintro task rest rfl
      have hlater : ∀ later ∈ task :: rest,
          (world.acted pid store' (task :: rest) { world.files with journal := file }).LaterTask
            later := by
        intro later hmem
        have hbefore := htasks later hmem
        cases later with
        | adoptOrphans => trivial
        | adopt row => exact (orphaned_acted hprocess row).mpr hbefore
        | _ => cases hbefore
      exact ⟨(hlater task List.mem_cons_self).next, fun later hmem =>
        hlater later (List.mem_cons_of_mem task hmem)⟩
  · intro row hrow
    rcases hspec.removed row hrow with hstill | ⟨howner, hnot⟩ | hgone'
    · exact .inl hstill
    · exact .inr ((hlive.own row hrow howner).resolve_left hnot)
    · exact .inr (hgone row hrow hgone')

theorem Sound.memory_task (h : world.Sound)
    (hprocess : world.processes pid = some ⟨store, tasks, true⟩)
    (hjournal : store'.journal = store.journal) (hjobs : store'.JobsSound)
    (htasks : ∀ task rest, tasks' = task :: rest →
      world.NextTask store' task ∧ ∀ later ∈ rest, world.LaterTask later) :
    (world.acted pid store' tasks' world.files).Sound := by
  have hlive := h.live hprocess
  refine h.act hprocess (congrArg JobJournal.self hjournal) h.journal h.archive
    (fun row hrow => .inl hrow) (fun _ _ hin => hin) ?_
  have hworld : world.ProcessSound store' tasks' := by
    refine ⟨hjournal ▸ hlive.rows, hjobs, hjournal ▸ hlive.startup, hjournal ▸ hlive.own, htasks⟩
  exact hworld.mono (fun row hrow => (orphaned_acted hprocess row).mpr hrow)
    (fun row hrow => .inl hrow) fun _ _ hin => hin

end Acting

/-- A process that starts. -/
theorem Sound.start (h : world.Sound) {owner : JournalOwner}
    (hallowed : world.Allowed (.start owner)) : (world.step (.start owner)).Sound := by
  have hold : ∀ {other}, other ∈ world.seen →
      (world.step (.start owner)).processes other = world.processes other := by
    intro other hother
    refine Function.update_of_ne ?_ _ _
    rintro rfl
    exact hallowed hother
  have hcases : ∀ {other process}, (world.step (.start owner)).processes other = some process →
      (other = owner.pid ∧ process = ⟨(LaneJobStore.create owner).1, (LaneJobStore.create owner).2,
        true⟩) ∨ (other ≠ owner.pid ∧ world.processes other = some process) := by
    intro other process hother
    exact Transition.party_cases hother
  have horphaned : ∀ row, world.Orphaned row → (world.step (.start owner)).Orphaned row := by
    intro row hrow
    refine ⟨hrow.1, fun owner' howner => ?_⟩
    obtain ⟨hseen, hdead⟩ := hrow.2 owner' howner
    refine ⟨List.mem_cons_of_mem _ hseen, ?_⟩
    rw [isAlive] at hdead ⊢
    rw [hold hseen]
    exact hdead
  refine ⟨h.journal, h.archive, ?_, ?_, ?_⟩
  · intro other process hother
    rcases hcases hother with ⟨rfl, rfl⟩ | ⟨-, hother⟩
    · exact ⟨rfl, List.mem_cons_self⟩
    · exact ⟨(h.filed hother).1, List.mem_cons_of_mem _ (h.filed hother).2⟩
  · intro row hrow owner' howner
    obtain ⟨hseen, hsame⟩ := h.owners row hrow owner' howner
    refine ⟨List.mem_cons_of_mem _ hseen, fun process hprocess => hsame process ?_⟩
    rw [← hold hseen]
    exact hprocess
  · intro other store tasks hother
    rcases hcases hother with ⟨-, heq⟩ | ⟨-, hother⟩
    · cases heq
      refine ⟨fun _ hrow => absurd hrow List.not_mem_nil, fun _ hjob => absurd hjob
        List.not_mem_nil, fun _ hrow => absurd hrow List.not_mem_nil, ?_, ?_⟩
      · -- no row on disk carries the new token
        intro row hrow howner
        exact absurd (h.owners row hrow owner howner).1 hallowed
      · rintro task rest ⟨⟩
        refine ⟨⟨rfl, rfl⟩, fun later hmem => ?_⟩
        rw [List.mem_singleton.mp hmem]
        trivial
    · exact (h.live hother).mono horphaned (fun row hrow => .inl hrow) fun _ _ hin => hin

/-- A process that dies. -/
theorem Sound.die (h : world.Sound) (pid : Nat) : (world.step (.die pid)).Sound := by
  cases hprocess : world.processes pid with
  | none =>
    rw [step, hprocess]
    exact h
  | some process =>
    have hstep : world.step (.die pid) = world.put pid { process with alive := false } := by
      rw [step, hprocess]
    rw [hstep]
    have hcases : ∀ {other process'},
        (world.put pid { process with alive := false }).processes other = some process' →
          (other = pid ∧ process' = { process with alive := false }) ∨
            (other ≠ pid ∧ world.processes other = some process') := by
      intro other process' hother
      exact Transition.party_cases hother
    have horphaned : ∀ row, world.Orphaned row →
        (world.put pid { process with alive := false }).Orphaned row := by
      intro row hrow
      refine ⟨hrow.1, fun owner howner => ?_⟩
      obtain ⟨hseen, hdead⟩ := hrow.2 owner howner
      refine ⟨hseen, ?_⟩
      by_cases heq : owner.pid = pid
      · simp [isAlive, put, heq]
      · rw [isAlive] at hdead
        simp [isAlive, put, Function.update_of_ne heq, hdead]
    refine ⟨h.journal, h.archive, ?_, ?_, ?_⟩
    · intro other process' hother
      rcases hcases hother with ⟨rfl, rfl⟩ | ⟨-, hother⟩
      · exact ⟨(h.filed hprocess).1, (h.filed hprocess).2⟩
      · exact h.filed hother
    · intro row hrow owner howner
      obtain ⟨hseen, hsame⟩ := h.owners row hrow owner howner
      refine ⟨hseen, fun process' hother => ?_⟩
      rcases hcases hother with ⟨heq, rfl⟩ | ⟨-, hother⟩
      · exact hsame process (heq ▸ hprocess)
      · exact hsame process' hother
    · intro other store tasks hother
      rcases hcases hother with ⟨-, heq⟩ | ⟨-, hother⟩
      · cases heq
      · exact (h.live hother).mono horphaned (fun row hrow => .inl hrow) fun _ _ hin => hin

theorem Sound.operate (h : world.Sound) {operation : StoreOperation}
    (hprocess : world.processes pid = some ⟨store, [], true⟩)
    (hallowed : world.Allowed (.operate pid operation)) :
    (world.step (.operate pid operation)).Sound := by
  have hsettles := LaneJobStore.operate_settles (h.live hprocess).jobs operation hallowed
  have hstep : world.step (.operate pid operation)
      = world.acted pid (store.operate operation).1 (store.operate operation).2 world.files := by
    simp only [step, hprocess]
    rfl
  rw [hstep]
  refine h.memory_task hprocess hsettles.journal hsettles.jobs ?_
  intro task rest htasks
  rcases hsettles.tasks with hnone | ⟨task', hone, hfresh⟩
  · rw [hnone] at htasks
    cases htasks
  · rw [hone] at htasks
    cases htasks
    refine ⟨?_, fun later hmem => absurd hmem List.not_mem_nil⟩
    cases task with
    | record job orphan =>
      obtain ⟨hjob, hended, rfl⟩ := hfresh
      exact ⟨hjob, hended, fun _ hrow => by cases hrow⟩
    | restoreArchive => cases hfresh
    | clear jobId => cases hfresh
    | clearOrphan row => cases hfresh
    | _ => exact .inl hfresh

theorem archived?_of_sound {job : LaneJob} (hjob : job.Sound) (hended : job.status ≠ .running) :
    ∃ archived, job.archived? = some archived ∧ archived.job = job := by
  obtain ⟨endedAt, hend⟩ := Option.isSome_iff_exists.mp (hjob.ended hended)
  refine ⟨⟨job, endedAt, hend, hended⟩, ?_, rfl⟩
  rw [LaneJob.archived?]
  split
  · rename_i hnone
    rw [hend] at hnone
    cases hnone
  · rename_i other hother
    rw [hend] at hother
    cases hother
    rw [dif_neg hended]

variable {rest : List StoreTask}

theorem step_proceed
    (hprocess : world.processes pid = some ⟨store, task :: rest, true⟩) (available : Bool) :
    world.step (.proceed pid available)
      = world.acted pid (store.perform world.isAlive available world.files task).1
          ((store.perform world.isAlive available world.files task).2.2 ++ rest)
          (store.perform world.isAlive available world.files task).2.1 := by
  simp only [step, hprocess]
  rfl

/-- What one task leaves of the world, and of the rows in the journal. -/
def Kept (world next : StoreWorld) : Prop :=
  next.Sound ∧ ∀ row ∈ diskRows world.files.journal,
    next.Journaled row.jobId ∨ next.Archived row.jobId

/-- **The record of an ended job**, where the write fits. -/
theorem Sound.record (h : world.Sound) {job : LaneJob} {orphan : Option JournalRow}
    {available : Bool}
    (hprocess : world.processes pid = some ⟨store, .record job orphan :: rest, true⟩)
    (hfits : world.Fits (.proceed pid available)) :
    (world.step (.proceed pid available)).Sound := by
  have hlive := h.live hprocess
  obtain ⟨⟨hjob, hended, horphan⟩, hrest⟩ := hlive.next _ _ rfl
  obtain ⟨archived, harchived, hsame⟩ := archived?_of_sound hjob hended
  have hfinite : archived.job.Finite := hsame ▸ hjob.finite
  have hid : (boundOutput archived).id = job.id := by
    rw [← hsame]
    rfl
  generalize hresult : store.archive.record available world.files.archive job = result
  obtain ⟨archive, file, committed⟩ := result
  have hstep : world.step (.proceed pid available)
      = world.acted pid { store with archive }
          ((if committed then [StoreTask.acknowledge job orphan] else []) ++ rest)
          { world.files with archive := file } := by
    rw [step_proceed hprocess, LaneJobStore.perform, hresult]
  rw [hstep]
  have hcases := store.archive.record_cases available h.archive harchived hfinite
  rw [hresult] at hcases
  rcases hcases with hfailed | ⟨hcommitted, hsound, hmem⟩
  · -- nothing was written
    cases hfailed
    refine h.memory_task hprocess rfl hlive.jobs ?_
    intro task later htasks
    subst htasks
    exact ⟨(hrest task List.mem_cons_self).next, fun other hother =>
      hrest other (List.mem_cons_of_mem task hother)⟩
  · simp only at hcommitted hsound hmem
    subst hcommitted
    have havailable : available = true :=
      JobArchive.available_of_record harchived (congrArg (·.2.2) hresult)
    subst havailable
    -- the write keeps the recorded row, and those of jobs in the journal
    have hkept : ∀ row, row = boundOutput archived ∨ (row ∈ archivedRows world.files.archive ∧
        row.id ≠ (boundOutput archived).id) → row.id = job.id ∨ world.Journaled row.id →
        row ∈ archivedRows file := by
      intro row hrow hwhy
      refine (hmem row).mpr ⟨hrow, ?_⟩
      exact hfits store job orphan rest archived hprocess harchived row
        ((mem_mergedRows_iff h.archive.nodup).mpr hrow) hwhy
    have hrecorded : ∃ row ∈ archivedRows file, row.id = job.id :=
      ⟨_, hkept _ (.inl rfl) (.inl hid), hid⟩
    have harchivedKept : ∀ jobId, world.Journaled jobId → world.Archived jobId →
        ∃ row ∈ archivedRows file, row.id = jobId := by
      rintro jobId hjournaled ⟨row, hrow, rfl⟩
      by_cases heq : row.id = (boundOutput archived).id
      · rw [heq, hid]
        exact hrecorded
      · exact ⟨row, hkept row (.inr ⟨hrow, heq⟩) (.inr hjournaled), rfl⟩
    refine h.act hprocess rfl h.journal hsound (fun row hrow => .inl hrow) harchivedKept ?_
    refine ⟨hlive.rows, hlive.jobs, ?_, ?_, ?_⟩
    · intro row hrow
      exact (orphaned_acted hprocess row).mpr (hlive.startup row hrow)
    · intro row hrow howner
      exact (hlive.own row hrow howner).imp id fun hin => harchivedKept _ ⟨row, hrow, rfl⟩ hin
    · intro task later htasks
      obtain ⟨rfl, rfl⟩ := htasks
      refine ⟨?_, fun other hother => ?_⟩
      · -- the row of the recorded job may go
        cases orphan with
        | none =>
          intro row _ _ _
          exact hrecorded
        | some orphanRow =>
          obtain ⟨hjobId, horphaned⟩ := horphan orphanRow rfl
          refine ⟨(orphaned_acted hprocess orphanRow).mpr horphaned, fun row _ hsameRow => ?_⟩
          rw [jobId_eq_of_sameJournalRowIdentity hsameRow, hjobId]
          exact hrecorded
      · have hbefore := hrest other hother
        cases other with
        | adoptOrphans => trivial
        | adopt row => exact (orphaned_acted hprocess row).mpr hbefore
        | _ => cases hbefore

theorem sound_restored (h : world.Sound) {row : ArchivedJob}
    (hrow : row ∈ archivedRows world.files.archive) : (LaneJobStore.restored row).Sound :=
  ⟨h.archive.finite row hrow, fun _ => by
    rw [LaneJobStore.restored, row.ended]
    rfl⟩

theorem sound_killedJob {row : JournalRow} (hrow : row.startedAt.isFinite = true) :
    (killedJob row).Sound := by
  refine LaneJob.sound_of_ended (fun x hx => ?_) rfl
  -- it begins and ends when the row began
  have heq : x = row.startedAt := by
    simpa [LaneJob.numbers, killedJob, LaneJob.begin, noProcesses] using hx
  rw [heq]
  exact hrow

/-- **One task** of a live process. -/
theorem Sound.perform (h : world.Sound) {available : Bool}
    (hprocess : world.processes pid = some ⟨store, task :: rest, true⟩)
    (hfits : world.Fits (.proceed pid available)) :
    world.Kept (world.step (.proceed pid available)) := by
  have hlive := h.live hprocess
  obtain ⟨hnext, hrest⟩ := hlive.next _ _ rfl
  have hstep := step_proceed hprocess available
  have hlater : ∀ task' rest', rest = task' :: rest' →
      ∀ store' : LaneJobStore, world.NextTask store' task' ∧
        ∀ later ∈ rest', world.LaterTask later := by
    rintro task' rest' rfl store'
    exact ⟨(hrest task' List.mem_cons_self).next, fun later hmem =>
      hrest later (List.mem_cons_of_mem task' hmem)⟩
  have hnone : ∀ row ∈ diskRows world.files.journal, False → world.Archived row.jobId :=
    fun _ _ hfalse => hfalse.elim
  cases task with
  | record job orphan =>
    refine ⟨h.record hprocess hfits, fun row hrow => .inl ⟨row, ?_, rfl⟩⟩
    rw [hstep]
    exact hrow
  | restoreArchive =>
    obtain ⟨harchive, hjobs⟩ := hnext
    rw [hstep]
    refine ⟨h.memory_task hprocess rfl ?_ fun task' rest' heq => hlater task' rest' heq _,
      fun row hrow => .inl ⟨row, hrow, rfl⟩⟩
    intro job hjob
    change job ∈ (((store.archive.restore world.files.archive).1.map
      LaneJobStore.restored).foldl Table.putNew store.jobs).rows.values at hjob
    rw [hjobs] at hjob
    obtain ⟨row, hrow, rfl⟩ := List.mem_map.mp (Table.mem_of_mem_foldl_putNew hjob)
    refine sound_restored h ?_
    -- a new archive has read the rows on disk
    rw [harchive] at hrow
    exact (JobArchive.mem_restore_create h.archive).mp hrow
  | adoptOrphans =>
    rw [hstep]
    have hstartup := ProcessSound.startup_readOnce h hprocess hlive.startup
    have hidle := JobJournal.WriteSpec.idle world.isAlive h.journal hlive.rows
      fun _ => False
    refine h.journal_task hprocess hidle hnone rfl fun task htask => ?_
    rcases List.mem_append.mp htask with hnew | hold
    · obtain ⟨row, hrow, rfl⟩ := List.mem_map.mp hnew
      exact hstartup row hrow
    · exact hrest task hold
  | adopt row =>
    have horphaned : world.Orphaned row := hnext.elim (fun h => by cases h) id
    rw [hstep]
    change world.Kept (world.acted pid (store.adopt world.isAlive available world.files row).1
      ((store.adopt world.isAlive available world.files row).2.2 ++ rest)
      (store.adopt world.isAlive available world.files row).2.1)
    unfold LaneJobStore.adopt
    split
    · exact ⟨h.memory_task hprocess rfl hlive.jobs fun task' rest' heq => hlater task' rest' heq _,
        fun row hrow => .inl ⟨row, hrow, rfl⟩⟩
    · split
      · exact h.journal_task hprocess
          (claimBrokerOrphan_writes h.journal hlive.rows available row.jobId _) hnone rfl hrest
      · have hjob := sound_killedJob horphaned.1
        refine ⟨h.memory_task hprocess rfl (hlive.jobs.set hjob) ?_,
          fun row hrow => .inl ⟨row, hrow, rfl⟩⟩
        rintro task' rest' ⟨⟩
        refine ⟨⟨hjob, by simp [killedJob], ?_⟩, hrest⟩
        rintro other ⟨⟩
        exact ⟨rfl, horphaned⟩
  | note row =>
    have hfinite : row.startedAt.isFinite = true := hnext.elim id fun h => by cases h
    rw [hstep]
    exact h.journal_task hprocess (note_writes h.journal hlive.rows available row hfinite _) hnone
      rfl hrest
  | noteStartingTree jobId tree scope =>
    rw [hstep]
    exact h.journal_task hprocess
      (noteStartingTree_writes h.journal hlive.rows available jobId tree scope _) hnone rfl hrest
  | noteBrokerExecution jobId executionId =>
    rw [hstep]
    exact h.journal_task hprocess
      (noteBrokerExecution_writes h.journal hlive.rows available jobId executionId _) hnone rfl
      hrest
  | clear jobId =>
    rw [hstep]
    refine h.journal_task hprocess (clear_writes h.journal hlive.rows available jobId) ?_ rfl hrest
    rintro row hrow ⟨howner, rfl⟩
    exact hnext row hrow howner rfl
  | clearOrphan orphan =>
    rw [hstep]
    exact h.journal_task hprocess (clearOrphan_writes h.journal hlive.rows available orphan)
      hnext.2 rfl hrest
  | lookup jobId =>
    rw [hstep, LaneJobStore.perform]
    cases hfound : lookupArchived world.files.archive jobId with
    | none =>
      exact ⟨h.memory_task hprocess rfl hlive.jobs fun task' rest' heq =>
        hlater task' rest' heq _, fun row hrow => .inl ⟨row, hrow, rfl⟩⟩
    | some found =>
      have hjob := sound_restored h (List.mem_of_find?_eq_some hfound)
      exact ⟨h.memory_task hprocess rfl (hlive.jobs.set hjob) fun task' rest' heq =>
        hlater task' rest' heq _, fun row hrow => .inl ⟨row, hrow, rfl⟩⟩

theorem step_operate_cases (world : StoreWorld) (pid : Nat) (operation : StoreOperation) :
    world.step (.operate pid operation) = world ∨
      ∃ store, world.processes pid = some ⟨store, [], true⟩ := by
  cases hprocess : world.processes pid with
  | none => exact .inl (by simp only [step, hprocess])
  | some process =>
    rcases process with ⟨store, _ | ⟨task, rest⟩, _ | _⟩
    · exact .inl (by simp only [step, hprocess])
    · exact .inr ⟨store, rfl⟩
    · exact .inl (by simp only [step, hprocess])
    · exact .inl (by simp only [step, hprocess])

theorem step_proceed_cases (world : StoreWorld) (pid : Nat) (available : Bool) :
    world.step (.proceed pid available) = world ∨
      ∃ store task rest, world.processes pid = some ⟨store, task :: rest, true⟩ := by
  cases hprocess : world.processes pid with
  | none => exact .inl (by simp only [step, hprocess])
  | some process =>
    rcases process with ⟨store, _ | ⟨task, rest⟩, _ | _⟩
    · exact .inl (by simp only [step, hprocess])
    · exact .inl (by simp only [step, hprocess])
    · exact .inl (by simp only [step, hprocess])
    · exact .inr ⟨store, task, rest, rfl⟩

theorem files_step_operate (world : StoreWorld) (pid : Nat) (operation : StoreOperation) :
    (world.step (.operate pid operation)).files = world.files := by
  rw [step]
  split <;> rfl

/-- **The step lemma**: every allowed event that fits keeps the world sound, and what it removes
from the journal is archived. -/
theorem Sound.step (h : world.Sound) {event : StoreEvent} (hallowed : world.Allowed event)
    (hfits : world.Fits event) : world.Kept (world.step event) := by
  have hidle : ∀ next : StoreWorld, next.Sound → next.files = world.files → world.Kept next := by
    intro next hnext hfiles
    refine ⟨hnext, fun row hrow => .inl ⟨row, ?_, rfl⟩⟩
    rw [hfiles]
    exact hrow
  cases event with
  | start owner => exact hidle _ (h.start hallowed) rfl
  | die pid =>
    refine hidle _ (h.die pid) ?_
    rw [StoreWorld.step]
    split <;> rfl
  | operate pid operation =>
    rcases step_operate_cases world pid operation with hnothing | ⟨store, hprocess⟩
    · rw [hnothing]
      exact hidle world h rfl
    · exact hidle _ (h.operate hprocess hallowed) (files_step_operate world pid operation)
  | proceed pid available =>
    rcases step_proceed_cases world pid available with hnothing | ⟨store, task, rest, hprocess⟩
    · rw [hnothing]
      exact hidle world h rfl
    · exact h.perform hprocess hfits

/-- **The run lemma**: every run that fits keeps the world sound. -/
theorem Sound.run (h : world.Sound) {events : List StoreEvent} (hrun : world.FittingRun events) :
    (world.run events).Sound := by
  induction events generalizing world with
  | nil => exact h
  | cons event rest ih => exact ih (h.step hrun.1 hrun.2.1).1 hrun.2.2

end Invariant

end StoreWorld

end LlmRelay
