import LlmRelay.Ecma.Table
import LlmRelay.Jobs.JournalRow

/-!
# The running-job journal

A journal keeps the rows of the jobs its process runs and rewrites the shared file on every
change: its own rows, and every row on disk that it does not own (`mcp/job-journal.ts`).
Each rewrite is one transaction over the file (`storage/json-store.ts`).

## Main definitions

* `transact`: one transaction over the file;
* `JobJournal`: the memory of one journal;
* `JobJournal.note`, `JobJournal.claimBrokerOrphan`, `JobJournal.clear`,
  `JobJournal.clearOrphan` and the other operations.

## Main results

* `mem_persist_iff`, `mem_claim_iff`, `mem_clearOrphan_iff`: the rows on disk after each kind
  of transaction.
-/

namespace LlmRelay

open Ecma

/-! ## Transactions -/

/-- One transaction over the journal file: what is read, the update, and whether it was
committed. A file that is not a journal is left alone, and so is every file while the lock
or the disk is not `available`. -/
def transact (available : Bool) (file : Option Json)
    (update : List JournalRow → List JournalRow) : Option Json × Bool :=
  if !available then (file, false)
  else match file with
  | none => (some (journalFile (update [])), true)
  | some current =>
    match journalValues? current with
    | none => (file, false)
    | some values => (some (journalFile (update (values.filterMap readJournalRow))), true)

/-- A file that is missing or a journal. -/
def ValidFile (file : Option Json) : Prop :=
  ∀ current, file = some current → (journalValues? current).isSome

theorem transact_of_valid {file : Option Json} (h : ValidFile file)
    (update : List JournalRow → List JournalRow) :
    transact true file update = (some (journalFile (update (diskRows file))), true) := by
  unfold transact
  rw [Bool.not_true, if_neg Bool.false_ne_true]
  cases file with
  | none => rfl
  | some current =>
    obtain ⟨values, hvalues⟩ := Option.isSome_iff_exists.mp (h current rfl)
    simp only [hvalues, diskRows, Option.bind_some, Option.getD_some]

theorem validFile_journalFile (jobs : List JournalRow) : ValidFile (some (journalFile jobs)) := by
  intro current hcurrent
  cases hcurrent
  rw [journalValues?_journalFile]
  rfl

/-! ## The journal -/

/-- Rows by job id. -/
abbrev JobRows := Table JournalRow.jobId (id : Text → Text)

/-- The memory of a journal: whose it is, the rows of its jobs, and the rows without a live
owner that it found at startup. -/
structure JobJournal where
  self : JournalOwner
  rows : JobRows
  loaded : Bool
  startupOrphans : List JournalRow

/-- A tree, as the git reader hands it over. -/
structure TreeSnapshot where
  prefix_ : Text
  entries : List (Text × Text)

/-- Two rows of one job in one hand. -/
def sameJournalRowIdentity (a b : JournalRow) : Bool :=
  decide (a.owner.map (fun o => (o.pid, o.instance_)) = b.owner.map fun o => (o.pid, o.instance_))
    && a.jobId = b.jobId && a.laneId = b.laneId && a.cwd = b.cwd && a.startedAt = b.startedAt

namespace JobJournal

/-- A journal that was just created. -/
def create (self : JournalOwner) : JobJournal :=
  ⟨self, .empty, false, []⟩

section Reading

variable (journal : JobJournal) (isAlive : Nat → Bool)

/-- Does another live process own the row? -/
def ownedElsewhere (row : JournalRow) : Bool :=
  match row.owner with
  | none => false
  | some owner =>
    if owner.instance_ = journal.self.instance_ then false
    else if owner.pid = journal.self.pid then false
    else isAlive owner.pid

/-- The first operation reads the rows whose owners are gone. -/
def readOnce (file : Option Json) : JobJournal :=
  if journal.loaded then journal
  else
    { journal with
      loaded := true
      startupOrphans := (diskRows file).filter fun row =>
        row.owner.map (·.instance_) ≠ some journal.self.instance_
          && !journal.ownedElsewhere isAlive row }

/-- Is the row on disk one of this journal? -/
def ownedHere (row : JournalRow) : Bool :=
  row.owner.any fun owner =>
    owner.pid = journal.self.pid && owner.instance_ = journal.self.instance_

/-- The rows on disk that belong to others, and then the own ones. -/
def merged (disk : List JournalRow) : JobRows :=
  journal.rows.rows.values.foldl Table.put
    ((disk.filter fun row => !journal.ownedHere row).foldl Table.put .empty)

/-- Rewrites the file. -/
def persist (available : Bool) (file : Option Json) : Option Json :=
  (transact available file fun disk => (journal.merged disk).rows.values).1

end Reading

section Operations

variable (journal : JobJournal) (isAlive : Nat → Bool) (available : Bool) (file : Option Json)

/-- Publishes the rows of a journal. -/
def publish : JobJournal × Option Json :=
  (journal, journal.persist available file)

/-- Records a job as running; the starting tree of the job stays. -/
def note (row : JournalRow) : JobJournal × Option Json :=
  let journal := journal.readOnce isAlive file
  let existing := journal.rows.rows.get? row.jobId
  let startingTree := row.startingTree.or (existing.bind (·.startingTree))
  publish
    { journal with rows := journal.rows.put { row with startingTree, owner := some journal.self } }
    available file

/-- Records the starting tree of a running job; one above the bound is not recorded. -/
def noteStartingTree (jobId : Text) (tree : TreeSnapshot) (scope : Option (List Text)) :
    JobJournal × Option Json :=
  let journal := journal.readOnce isAlive file
  match journal.rows.rows.get? jobId with
  | none => (journal, file)
  | some row =>
    if h : tree.entries.length ≤ MAX_ACTIVITY_STAT_PATHS then
      publish
        { journal with
          rows := journal.rows.put
            { row with startingTree := some ⟨tree.prefix_, tree.entries, scope, h⟩ } }
        available file
    else if row.startingTree.isSome then
      publish { journal with rows := journal.rows.put { row with startingTree := none } }
        available file
    else (journal, file)

/-- Records the execution of a running job, where its id is one. -/
def noteBrokerExecution (jobId executionId : Text) : JobJournal × Option Json :=
  let journal := journal.readOnce isAlive file
  match journal.rows.rows.get? jobId with
  | none => (journal, file)
  | some row =>
    if h : isExecutionId executionId = true then
      publish
        { journal with
          rows := journal.rows.put { row with brokerExecution := some ⟨executionId, h⟩ } }
        available file
    else (journal, file)

/-- Takes over the first row of a job, where it has an execution and no live owner. -/
def claimRow (jobId : Text) : List JournalRow → List JournalRow × Option JournalRow
  | [] => ([], none)
  | row :: rest =>
    if row.jobId = jobId then
      if row.brokerExecution.isNone || journal.ownedElsewhere isAlive row then (row :: rest, none)
      else
        let next := { row with owner := some journal.self }
        (next :: rest, some next)
    else
      let (rest, claimed) := claimRow jobId rest
      (row :: rest, claimed)

/-- Claims a row whose owner died, for this journal. -/
def claimBrokerOrphan (jobId : Text) : Option JournalRow × JobJournal × Option Json :=
  let journal := journal.readOnce isAlive file
  let (file', committed) :=
    transact available file fun disk => (journal.claimRow isAlive jobId disk).1
  if !committed then (none, journal, file')
  else
    match (journal.claimRow isAlive jobId (diskRows file)).2 with
    | none => (none, journal, file')
    | some claimed =>
      (some claimed, { journal with rows := journal.rows.put claimed }, file')

/-- Removes the row of a job of this journal. -/
def clear (jobId : Text) : JobJournal × Option Json :=
  let journal := journal.readOnce isAlive file
  if (journal.rows.rows.get? jobId).isNone then (journal, file)
  else
    publish { journal with rows := journal.rows.removeWhere fun row => row.jobId = jobId }
      available file

/-- Removes a row that was without a live owner at startup. -/
def clearOrphan (orphan : JournalRow) : JobJournal × Option Json :=
  let journal := journal.readOnce isAlive file
  match journal.startupOrphans.find? fun row => sameJournalRowIdentity row orphan with
  | none => (journal, file)
  | some startup =>
    let (file', committed) := transact available file fun disk =>
      disk.filter fun row => !sameJournalRowIdentity row startup
    if committed then
      ({ journal with
          startupOrphans := journal.startupOrphans.filter fun row =>
            !sameJournalRowIdentity row startup },
        file')
    else (journal, file')

/-- The rows without a live owner at startup. -/
def orphans : List JournalRow × JobJournal :=
  let journal := journal.readOnce isAlive file
  (journal.startupOrphans, journal)

/-- The row of a job that another live process runs now. -/
def foreign (jobId : Text) : Option JournalRow × JobJournal :=
  let journal := journal.readOnce isAlive file
  if (journal.rows.rows.get? jobId).isSome then (none, journal)
  else
    ((diskRows file).find? fun row => row.jobId = jobId && journal.ownedElsewhere isAlive row,
      journal)

/-- The rows that other live processes own now. -/
def foreignRows : List JournalRow × JobJournal :=
  let journal := journal.readOnce isAlive file
  ((diskRows file).filter fun row =>
      (journal.rows.rows.get? row.jobId).isNone && journal.ownedElsewhere isAlive row,
    journal)

end Operations

end JobJournal

/-! ## The rows on disk after a transaction -/

/-- A journal file as journals write it: one row for each job, with a finite start. -/
structure SoundDisk (file : Option Json) : Prop where
  valid : ValidFile file
  nodup : ((diskRows file).map (·.jobId)).Nodup
  finite : ∀ row ∈ diskRows file, row.startedAt.isFinite = true

section Disk

variable {file : Option Json} {journal : JobJournal} {isAlive : Nat → Bool}

theorem soundDisk_journalFile {jobs : List JournalRow} (hnodup : (jobs.map (·.jobId)).Nodup)
    (hfinite : ∀ row ∈ jobs, row.startedAt.isFinite = true) :
    SoundDisk (some (journalFile jobs)) where
  valid := validFile_journalFile jobs
  nodup := by
    rw [diskRows_journalFile hfinite]
    exact hnodup
  finite := by
    rw [diskRows_journalFile hfinite]
    exact hfinite

/-- A sound update leaves a sound file, with the updated rows. -/
theorem SoundDisk.transact (h : SoundDisk file) (update : List JournalRow → List JournalRow)
    (hnodup : ((update (diskRows file)).map (·.jobId)).Nodup)
    (hfinite : ∀ row ∈ update (diskRows file), row.startedAt.isFinite = true) :
    ∃ file', LlmRelay.transact true file update = (file', true) ∧ SoundDisk file' ∧
      diskRows file' = update (diskRows file) :=
  ⟨_, transact_of_valid h.valid update, soundDisk_journalFile hnodup hfinite,
    diskRows_journalFile hfinite⟩

theorem mem_merged_iff (h : SoundDisk file) (row : JournalRow) :
    row ∈ (journal.merged (diskRows file)).rows.values ↔
      row ∈ journal.rows.rows.values ∨
        (row ∈ diskRows file ∧ journal.ownedHere row = false ∧
          ∀ own ∈ journal.rows.rows.values, row.jobId ≠ own.jobId) := by
  have hothers : (((diskRows file).filter fun row => !journal.ownedHere row).map
      fun row => id row.jobId).Nodup :=
    h.nodup.sublist (List.filter_sublist.map _)
  rw [JobJournal.merged, Table.mem_values_foldl_put (Table.nodup_codes _),
    Table.mem_values_foldl_put hothers]
  simp only [List.mem_filter, Bool.not_eq_true', id_eq, Table.empty, OrderedMap.empty,
    OrderedMap.values, List.map_nil, List.not_mem_nil, false_and, or_false, and_assoc]

/-- **A rewrite** leaves the own rows on disk, and those of others. -/
theorem mem_persist_iff (journal : JobJournal) (h : SoundDisk file)
    (hfinite : ∀ row ∈ journal.rows.rows.values, row.startedAt.isFinite = true) :
    SoundDisk (journal.persist true file) ∧
      ∀ row, row ∈ diskRows (journal.persist true file) ↔
        row ∈ journal.rows.rows.values ∨
          (row ∈ diskRows file ∧ journal.ownedHere row = false ∧
            ∀ own ∈ journal.rows.rows.values, row.jobId ≠ own.jobId) := by
  have hall : ∀ row ∈ (journal.merged (diskRows file)).rows.values,
      row.startedAt.isFinite = true := by
    intro row hrow
    rcases (mem_merged_iff h row).mp hrow with hown | ⟨hdisk, -⟩
    · exact hfinite row hown
    · exact h.finite row hdisk
  have hnodup : ((journal.merged (diskRows file)).rows.values.map (·.jobId)).Nodup :=
    Table.nodup_codes (journal.merged (diskRows file))
  obtain ⟨file', hfile, hsound, hrows⟩ :=
    h.transact (fun disk => (journal.merged disk).rows.values) hnodup hall
  rw [JobJournal.persist, hfile]
  refine ⟨hsound, fun row => ?_⟩
  rw [hrows]
  exact mem_merged_iff h row

/-- **A claim** changes nothing, or gives the row of a job that no other live process owns
to the journal. -/
theorem claimRow_cases (journal : JobJournal) (isAlive : Nat → Bool) (jobId : Text)
    {disk : List JournalRow} (hnodup : (disk.map (·.jobId)).Nodup) :
    journal.claimRow isAlive jobId disk = (disk, none) ∨
      ∃ row ∈ disk, row.jobId = jobId ∧ row.brokerExecution.isSome = true ∧
        journal.ownedElsewhere isAlive row = false ∧
        (journal.claimRow isAlive jobId disk).2 = some { row with owner := some journal.self } ∧
        ((journal.claimRow isAlive jobId disk).1.map (·.jobId)) = disk.map (·.jobId) ∧
        ∀ other, other ∈ (journal.claimRow isAlive jobId disk).1 ↔
          other = { row with owner := some journal.self } ∨
            (other ∈ disk ∧ other.jobId ≠ jobId) := by
  induction disk with
  | nil => exact .inl rfl
  | cons row rest ih =>
    rw [List.map_cons, List.nodup_cons] at hnodup
    by_cases hjob : row.jobId = jobId
    · by_cases hfree : (row.brokerExecution.isNone || journal.ownedElsewhere isAlive row) = true
      · left
        rw [JobJournal.claimRow, if_pos hjob, if_pos hfree]
      · right
        rw [JobJournal.claimRow, if_pos hjob, if_neg hfree]
        rw [Bool.or_eq_true, not_or, Bool.not_eq_true, Bool.not_eq_true] at hfree
        refine ⟨row, List.mem_cons_self, hjob, ?_, hfree.2, rfl, rfl, fun other => ?_⟩
        · rw [← Option.not_isNone, hfree.1]
          rfl
        · -- the rows of the other jobs stay
          have hrest : ∀ other ∈ rest, other.jobId ≠ jobId := by
            intro other hother heq
            exact hnodup.1 (List.mem_map.mpr ⟨other, hother, heq.trans hjob.symm⟩)
          simp only [List.mem_cons]
          constructor
          · rintro (hnext | hother)
            · exact .inl hnext
            · exact .inr ⟨.inr hother, hrest other hother⟩
          · rintro (hnext | ⟨hfirst | hother, hne⟩)
            · exact .inl hnext
            · exact absurd (hfirst ▸ hjob) hne
            · exact .inr hother
    · rcases ih hnodup.2 with hnone | ⟨claimed, hmem, hclaimed, hsome, hfree, hout, hids, hall⟩
      · left
        rw [JobJournal.claimRow, if_neg hjob, hnone]
      · right
        refine ⟨claimed, List.mem_cons_of_mem row hmem, hclaimed, hsome, hfree, ?_, ?_, ?_⟩
        · rw [JobJournal.claimRow, if_neg hjob]
          exact hout
        · rw [JobJournal.claimRow, if_neg hjob, List.map_cons, List.map_cons, hids]
        · intro other
          rw [JobJournal.claimRow, if_neg hjob]
          simp only [List.mem_cons, hall other]
          constructor
          · rintro (rfl | hclaim | ⟨hother, hne⟩)
            · exact .inr ⟨.inl rfl, hjob⟩
            · exact .inl hclaim
            · exact .inr ⟨.inr hother, hne⟩
          · rintro (hclaim | ⟨rfl | hother, hne⟩)
            · exact .inr (.inl hclaim)
            · exact .inl rfl
            · exact .inr (.inr ⟨hother, hne⟩)

end Disk

end LlmRelay
