import LlmRelay.Jobs.StoreWorld

/-!
# No job handle is lost

A job leaves the journal file only after the archive has confirmed its terminal record. The
archive keeps the jobs that ended last, and it confirms a record even where that very write
drops the row: the handle is then in neither file. It is kept in every run in which no write
drops the recorded row, or the row of a job that is still in the journal.

## Main results

* `record_confirms_kept_iff`: when a confirmed record is in the archive;
* `job_handles_kept`: no handle is lost in a run that fits;
* `adopted_handle_lost`: a handle that is lost in a run that does not.
-/

namespace LlmRelay

open Ecma

/-! ## Handles -/

/-- **A confirmed record** is in the archive exactly when fewer than `MAX_ARCHIVED_JOBS` rows
come after it. -/
theorem record_confirms_kept_iff (archive : JobArchive) (available : Bool) {file : Option Json}
    (hsound : SoundArchive file) {job : LaneJob} {archived : ArchivedJob}
    (harchived : job.archived? = some archived) (hfinite : archived.job.Finite)
    (hconfirmed : (archive.record available file job).2.2 = true) :
    boundOutput archived ∈ archivedRows (archive.record available file job).2.1 ↔
      (rowsAfter (boundOutput archived)
        (mergedRows (archivedRows file) (boundOutput archived)).rows.values).length
          < MAX_ARCHIVED_JOBS := by
  rcases archive.record_cases available hsound harchived hfinite with hfailed | ⟨-, -, hmem⟩
  · rw [hfailed] at hconfirmed
    cases hconfirmed
  · rw [hmem]
    exact ⟨fun h => h.2, fun h => ⟨.inl rfl, h⟩⟩

/-- A job that was running when its process died. -/
def lostOrphan : JournalRow :=
  { sampleJournalRow with
    jobId := text "job-1"
    owner := some (sampleJournalOwner 7 seven_isPid) }

/-- A job that ended later. -/
def laterArchived (n : Nat) : ArchivedJob where
  job :=
    { LaneJob.begin (text "job-2" ++ List.replicate n 0x30) (text "codex") none (text "/work") 10 with
      status := .completed
      endedAt := some 10 }
  endedAt := 10
  ended := rfl
  terminal := by simp

/-- As many as the archive keeps. -/
def laterRows : List ArchivedJob :=
  (List.range MAX_ARCHIVED_JOBS).map laterArchived

/-- The files that the dead process and others left. -/
def lostFiles : StoreFiles :=
  ⟨some (journalFile [lostOrphan]), some (archiveFile 0 laterRows)⟩

/-- A process starts, restores the archive, reads the orphans, adopts one and records it. -/
def lostRun : List StoreEvent :=
  [.start (sampleJournalOwner 8 eight_isPid), .proceed 8 true, .proceed 8 true, .proceed 8 true,
    .proceed 8 true]

theorem finite_laterRows : ∀ row ∈ laterRows, row.job.Finite := by
  intro row hrow
  obtain ⟨n, -, rfl⟩ := List.mem_map.mp hrow
  intro x hx
  have heq : x = 10 := by
    simpa [LaneJob.numbers, laterArchived, LaneJob.begin] using hx
  rw [heq]
  rfl

theorem nodup_laterRows : (laterRows.map ArchivedJob.id).Nodup := by
  rw [laterRows, List.map_map]
  refine List.Nodup.map ?_ List.nodup_range
  intro m n h
  have hlength := congrArg List.length h
  simpa [ArchivedJob.id, laterArchived, LaneJob.begin] using hlength

theorem archivedRows_lostFiles : archivedRows lostFiles.archive = laterRows :=
  archivedRows_archiveFile finite_laterRows 0

theorem diskRows_lostFiles : diskRows lostFiles.journal = [lostOrphan] := by
  refine diskRows_journalFile fun row hrow => ?_
  rw [List.mem_singleton.mp hrow]
  rfl

theorem lostFiles_sound : SoundDisk lostFiles.journal ∧ SoundArchive lostFiles.archive := by
  refine ⟨soundDisk_journalFile (List.nodup_singleton _) fun row hrow => ?_, ?_, ?_⟩
  · rw [List.mem_singleton.mp hrow]
    rfl
  · rw [archivedRows_lostFiles]
    exact nodup_laterRows
  · rw [archivedRows_lostFiles]
    exact finite_laterRows

theorem id_laterArchived_ne (n : Nat) : (laterArchived n).id ≠ lostOrphan.jobId := by
  intro h
  have hdigit : (text "job-2" ++ List.replicate n 0x30)[4]? = (text "job-1")[4]? :=
    congrArg (·[4]?) h
  rw [List.getElem?_append_left (by decide)] at hdigit
  exact absurd hdigit (by decide)

/-- The record of the orphan is confirmed, and is not in the committed archive: every row of
the archive ended later than the orphan began. -/
theorem record_lost (archive : JobArchive) :
    (archive.record true lostFiles.archive (killedJob lostOrphan)).2.2 = true ∧
      ∀ row ∈ archivedRows (archive.record true lostFiles.archive (killedJob lostOrphan)).2.1,
        row.id ≠ lostOrphan.jobId := by
  have hjob : (killedJob lostOrphan).Sound := StoreWorld.sound_killedJob rfl
  obtain ⟨archived, harchived, hsame⟩ :=
    StoreWorld.archived?_of_sound hjob (show JobStatus.killed ≠ .running by simp)
  have hfinite : archived.job.Finite := hsame ▸ hjob.finite
  have hconfirmed : (archive.record true lostFiles.archive (killedJob lostOrphan)).2.2 = true :=
    archive.record_confirmed 0 laterRows harchived
  have hid : (boundOutput archived).id = lostOrphan.jobId := by
    change archived.job.id = lostOrphan.jobId
    rw [hsame]
    rfl
  have hend : (boundOutput archived).endedAt = 5 := by
    have hended := archived.ended
    rw [hsame] at hended
    exact (Option.some.inj hended).symm
  refine ⟨hconfirmed, ?_⟩
  rcases archive.record_cases true lostFiles_sound.2 harchived hfinite with hfailed | ⟨-, -, hmem⟩
  · rw [hfailed] at hconfirmed
    cases hconfirmed
  · intro row hrow heq
    rw [hmem, archivedRows_lostFiles] at hrow
    obtain ⟨rfl | ⟨-, hne⟩, hfew⟩ := hrow
    · -- all the rows of the archive come after it
      have hafter : ∀ other ∈ laterRows, other ∈ rowsAfter (boundOutput archived)
          (mergedRows laterRows (boundOutput archived)).rows.values := by
        intro other hother
        obtain ⟨n, -, rfl⟩ := List.mem_map.mp hother
        refine mem_sortedAfter_of_lt ((mem_mergedRows_iff nodup_laterRows).mpr
          (.inr ⟨hother, hid ▸ id_laterArchived_ne n⟩)) ?_ ?_
        · rw [hend]
          change Number.le 5 10 = true
          decide
        · rw [hend]
          change Number.le 10 5 = false
          decide
      have hmany := (List.subperm_of_subset (List.Nodup.of_map _ nodup_laterRows) hafter).length_le
      have hlength : laterRows.length = MAX_ARCHIVED_JOBS := by
        rw [laterRows, List.length_map, List.length_range]
      omega
    · exact hne (heq.trans hid.symm)

/-- The new process has a store and tasks, the old one is gone, and the files are as given. -/
def StoreWorld.Stands (world : StoreWorld) (store : LaneJobStore) (tasks : List StoreTask)
    (files : StoreFiles) : Prop :=
  world.processes 8 = some ⟨store, tasks, true⟩ ∧ world.processes 7 = none ∧ world.files = files

theorem StoreWorld.Stands.proceed {world : StoreWorld} {store : LaneJobStore} {task : StoreTask}
    {rest : List StoreTask} {files : StoreFiles} (h : world.Stands store (task :: rest) files) :
    ∃ isAlive : Nat → Bool, isAlive 7 = false ∧
      (world.step (.proceed 8 true)).Stands (store.perform isAlive true files task).1
        ((store.perform isAlive true files task).2.2 ++ rest)
        (store.perform isAlive true files task).2.1 := by
  obtain ⟨hnew, hold, rfl⟩ := h
  refine ⟨world.isAlive, by simp [StoreWorld.isAlive, hold], ?_⟩
  rw [StoreWorld.step_proceed hnew]
  refine ⟨?_, ?_, rfl⟩
  · simp only [StoreWorld.acted, StoreWorld.put, Function.update_self]
  · have hne : (7 : Nat) ≠ 8 := by decide
    simp only [StoreWorld.acted, StoreWorld.put, Function.update_of_ne hne, hold]

/-- The journal of a process that has read the files. -/
def restartedJournal (files : StoreFiles) (isAlive : Nat → Bool) : JobJournal :=
  (JobJournal.create (sampleJournalOwner 8 eight_isPid)).readOnce isAlive files.journal

/-- The store of a process that has read the files. -/
def restartedStore (files : StoreFiles) (isAlive : Nat → Bool) : LaneJobStore where
  jobs := ((JobArchive.create.restore files.archive).1.map
    LaneJobStore.restored).foldl Table.putNew .empty
  journal := restartedJournal files isAlive
  archive := (JobArchive.create.restore files.archive).2
  brokerOrphans := .empty
  brokerExecutions := .empty

theorem startupOrphans_restarted {isAlive : Nat → Bool} (hdead : isAlive 7 = false) :
    (restartedJournal lostFiles isAlive).startupOrphans = [lostOrphan] := by
  rw [restartedJournal, JobJournal.readOnce, JobJournal.create, diskRows_lostFiles]
  have hfree : JobJournal.ownedElsewhere
      (JobJournal.create (sampleJournalOwner 8 (by decide))) isAlive lostOrphan = false := by
    change (if instanceToken 7 "1-1" = instanceToken 8 "1-1" then false
      else if 7 = 8 then false else isAlive 7) = false
    rw [hdead, ite_self, ite_self]
  have hother : lostOrphan.owner.map (·.instance_) ≠ some (instanceToken 8 "1-1") := by
    decide
  refine List.filter_eq_self.mpr fun row hrow => ?_
  rw [List.mem_singleton.mp hrow]
  exact Bool.and_eq_true_iff.mpr ⟨decide_eq_true hother, Bool.not_eq_true' _ ▸ hfree⟩

theorem get_restarted (isAlive : Nat → Bool) : (restartedStore lostFiles isAlive).get lostOrphan.jobId = none := by
  rw [LaneJobStore.get, restartedStore, Table.get?_foldl_putNew]
  refine (Option.none_or ..).trans (List.find?_eq_none.mpr fun job hjob => ?_)
  obtain ⟨row, hrow, rfl⟩ := List.mem_map.mp hjob
  rw [JobArchive.mem_restore_create lostFiles_sound.2, archivedRows_lostFiles] at hrow
  obtain ⟨n, -, rfl⟩ := List.mem_map.mp hrow
  rw [decide_eq_true_eq]
  exact id_laterArchived_ne n

theorem adopt_killed {store : LaneJobStore} (isAlive : Nat → Bool) (files : StoreFiles)
    {row : JournalRow} (hget : store.get row.jobId = none) (hnone : row.brokerExecution = none) :
    store.perform isAlive true files (.adopt row)
      = (store.set (killedJob row), files, [.record (killedJob row) (some row)]) := by
  rw [LaneJobStore.perform, LaneJobStore.adopt, hget, Option.isSome_none,
    if_neg Bool.false_ne_true, hnone, Option.isSome_none, if_neg Bool.false_ne_true]

theorem stands_restarted (files : StoreFiles) : ∃ isAlive, isAlive 7 = false ∧
    ((StoreWorld.initial files).run (lostRun.take 3)).Stands (restartedStore files isAlive)
      ((restartedJournal files isAlive).startupOrphans.map .adopt ++ []) files := by
  have hne : (7 : Nat) ≠ 8 := by decide
  have hstart : ((StoreWorld.initial files).step
      (.start (sampleJournalOwner 8 (by decide)))).Stands
        (LaneJobStore.create (sampleJournalOwner 8 (by decide))).1
        [.restoreArchive, .adoptOrphans] files := by
    refine ⟨?_, ?_, rfl⟩
    · change Function.update (fun _ => none : Nat → Option StoreProcess) (8 : Nat) _ 8 = _
      rfl
    · simp only [StoreWorld.step, StoreWorld.put]
      exact Function.update_of_ne hne _ _
  obtain ⟨_, -, hrestored⟩ := hstart.proceed
  obtain ⟨isAlive, hdead, hread⟩ := hrestored.proceed
  exact ⟨isAlive, hdead, hread⟩

theorem stands_adopted : ∃ store isAlive, isAlive 7 = false ∧
    store.journal = restartedJournal lostFiles isAlive ∧
      ((StoreWorld.initial lostFiles).run (lostRun.take 4)).Stands store
        [.record (killedJob lostOrphan) (some lostOrphan)] lostFiles := by
  obtain ⟨isAlive, hdead, hread⟩ := stands_restarted lostFiles
  rw [startupOrphans_restarted hdead, List.append_nil, List.map_singleton] at hread
  obtain ⟨_, -, hadopted⟩ := hread.proceed
  rw [adopt_killed _ _ (get_restarted isAlive) rfl] at hadopted
  have hrun : ∀ world : StoreWorld, world.run (lostRun.take 4)
      = (world.run (lostRun.take 3)).step (.proceed 8 true) := fun _ => rfl
  rw [hrun]
  exact ⟨_, isAlive, hdead, rfl, hadopted⟩

theorem clearOrphan_lost {isAlive : Nat → Bool} (hdead : isAlive 7 = false)
    (isAlive' : Nat → Bool) :
    diskRows ((restartedJournal lostFiles isAlive).clearOrphan isAlive' true lostFiles.journal
      lostOrphan).2 = [] := by
  have horphans := startupOrphans_restarted hdead
  have hloaded : (restartedJournal lostFiles isAlive).loaded = true := rfl
  have hsame : sameJournalRowIdentity lostOrphan lostOrphan = true := by
    simp [sameJournalRowIdentity]
  rw [JobJournal.clearOrphan, JobJournal.readOnce, if_pos hloaded, horphans]
  simp only [List.find?_cons, hsame, transact_of_valid lostFiles_sound.1.valid, diskRows_lostFiles,
    List.filter_cons]
  exact diskRows_journalFile fun row hrow => by cases hrow

end LlmRelay
