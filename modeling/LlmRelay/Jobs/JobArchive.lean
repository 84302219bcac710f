import LlmRelay.Ecma.Sorting
import LlmRelay.Ecma.Table
import LlmRelay.Jobs.LaneJob

/-!
# The finished-job archive

One file keeps the newest finished jobs of all processes. Each record is one transaction: the
row joins the rows on disk, and of these the ones that ended last are kept (`mcp/job-archive.ts`).

## Main definitions

* `JobArchive`: the memory of one archive;
* `JobArchive.record`: records a job that has ended;
* `archivedRows`: the rows on disk.

## Main results

* `JobArchive.record_cases`: a record changes nothing, or commits the bounded rows;
* `mem_boundedRows_iff`: a row is kept exactly when fewer than `MAX_ARCHIVED_JOBS` others come
  after it.
-/

namespace LlmRelay

open Ecma

def JOB_ARCHIVE_VERSION : Nat := 1

def MAX_ARCHIVED_JOBS : Nat := 100

def MAX_ARCHIVED_OUTPUT_CHARS : Nat := 512 * 1024

/-! ## The file -/

/-- The job id of a row. -/
def ArchivedJob.id (archived : ArchivedJob) : Text :=
  archived.job.id

/-- The sequence number in an id `job-NNNN`. -/
def jobSeqOf (id : Text) : Option Nat :=
  let digits := id.drop 4
  let n := ofDigits (digits.map digitValue)
  if id.startsWith (text "job-") ∧ digits ≠ [] ∧ digits.all isDigit ∧ 0 < n ∧ n ≤ maxSafeInteger then
    some n
  else none

/-- The larger of a sequence number and the one in an id. -/
def raiseSeq (seq : Nat) (id : Text) : Nat :=
  match jobSeqOf id with
  | none => seq
  | some own => if seq < own then own else seq

/-- The file of some rows. -/
def archiveFile (lastSeq : Nat) (jobs : List ArchivedJob) : Json :=
  .ofProperties [("version", some (.ofNat JOB_ARCHIVE_VERSION)), ("lastSeq", some (.ofNat lastSeq)),
    ("jobs", some (.arr (jobs.map fun archived => archived.job.toJson)))]

/-- `isJobArchiveFile`, and the values of the file. -/
def archiveValues? (file : Json) : Option (List Json) :=
  if file.get? (text "version") = some (.ofNat JOB_ARCHIVE_VERSION) then
    Json.array? (file.get? (text "jobs"))
  else none

/-- The `lastSeq` of a file, where it is one. -/
def statedSeq (file : Json) : Nat :=
  match Json.count? (file.get? (text "lastSeq")) with
  | none => 0
  | some seq => if seq ≤ maxSafeInteger then seq else 0

/-- The rows of a file, and its highest sequence number. -/
def normalizeFile (file : Json) (values : List Json) : List ArchivedJob × Nat :=
  let valid := values.filterMap readArchivedJob
  (valid, valid.foldl (fun seq row => raiseSeq seq row.id) (statedSeq file))

/-- What is on disk; nothing where the file is missing or unusable. -/
def readArchive (file : Option Json) : Option (List ArchivedJob × Nat) :=
  file.bind fun current => (archiveValues? current).map (normalizeFile current)

/-- The rows on disk. -/
def archivedRows (file : Option Json) : List ArchivedJob :=
  ((readArchive file).map Prod.fst).getD []

/-! ## The archive -/

/-- Rows by job id. -/
abbrev ArchivedRows := Table ArchivedJob.id (id : Text → Text)

/-- The memory of an archive. -/
structure JobArchive where
  rows : ArchivedRows
  lastSeq : Nat
  loaded : Bool

/-- The rows on disk, and the recorded one over them. -/
def mergedRows (disk : List ArchivedJob) (row : ArchivedJob) : ArchivedRows :=
  (disk.foldl Table.put .empty).put row

/-- The newest rows, newest last. -/
def boundedRows (rows : ArchivedRows) : List ArchivedJob :=
  let sorted := sortByNumber ArchivedJob.endedAt rows.rows.values
  if MAX_ARCHIVED_JOBS < sorted.length then sorted.drop (sorted.length - MAX_ARCHIVED_JOBS)
  else sorted

/-- The tail of a captured stream. -/
def cut (t : Text) : Text :=
  if t.length ≤ MAX_ARCHIVED_OUTPUT_CHARS then t
  else
    let removed := t.length - MAX_ARCHIVED_OUTPUT_CHARS
    text ("[archive: first " ++ toString removed ++ " characters cut; the tail follows]\n")
      ++ t.drop removed

/-- The row of a job, with bounded streams. -/
def boundOutput (archived : ArchivedJob) : ArchivedJob where
  job := { archived.job with stdout := cut archived.job.stdout, stderr := cut archived.job.stderr }
  endedAt := archived.endedAt
  ended := archived.ended
  terminal := archived.terminal

/-- A job that has ended, where it has. -/
def LaneJob.archived? (job : LaneJob) : Option ArchivedJob :=
  match hended : job.endedAt with
  | none => none
  | some endedAt =>
    if hterminal : job.status = .running then none else some ⟨job, endedAt, hended, hterminal⟩

namespace JobArchive

/-- An archive that was just created. -/
def create : JobArchive :=
  ⟨.empty, 0, false⟩

/-- The first operation reads the file. -/
def readOnce (archive : JobArchive) (file : Option Json) : JobArchive :=
  if archive.loaded then archive
  else
    match readArchive file with
    | none => { archive with loaded := true }
    | some (rows, lastSeq) => ⟨rows.foldl Table.put archive.rows, lastSeq, true⟩

/-- What a transaction reads; an unusable file stops it. -/
def readTransaction (file : Option Json) : Option (List ArchivedJob × Nat) :=
  match file with
  | none => some ([], 0)
  | some _ => readArchive file

/-- Persists one row, in one transaction over the file. -/
def write (archive : JobArchive) (available : Bool) (file : Option Json) (row : ArchivedJob) :
    JobArchive × Option Json × Bool :=
  match readTransaction file, available with
  | some (rows, diskSeq), true =>
    let seq := raiseSeq (max archive.lastSeq diskSeq) row.id
    let jobs := boundedRows (mergedRows rows row)
    (⟨jobs.foldl Table.put .empty, seq, archive.loaded⟩, some (archiveFile seq jobs), true)
  | _, _ => (archive, file, false)

/-- Records a job that has ended; a running one needs no record. -/
def record (archive : JobArchive) (available : Bool) (file : Option Json) (job : LaneJob) :
    JobArchive × Option Json × Bool :=
  let archive := archive.readOnce file
  match job.archived? with
  | none => (archive, file, true)
  | some archived =>
    let row := boundOutput archived
    { archive with rows := archive.rows.put row }.write available file row

/-- What a previous process left. -/
def restore (archive : JobArchive) (file : Option Json) : List ArchivedJob × JobArchive :=
  let archive := archive.readOnce file
  (archive.rows.rows.values, archive)

end JobArchive

/-- A finished job, read from disk now. -/
def lookupArchived (file : Option Json) (jobId : Text) : Option ArchivedJob :=
  (archivedRows file).find? fun row => row.id = jobId

/-! ## The rows on disk after a record -/

/-- An archive file as archives write it: one row for each job, with finite numbers. -/
structure SoundArchive (file : Option Json) : Prop where
  nodup : ((archivedRows file).map ArchivedJob.id).Nodup
  finite : ∀ row ∈ archivedRows file, row.job.Finite

/-- The rows that come after a row of the archive, in order of end time. -/
def rowsAfter (row : ArchivedJob) (rows : List ArchivedJob) : List ArchivedJob :=
  sortedAfter (fun a b => a.endedAt.le b.endedAt) row rows

section Disk

variable {file : Option Json}

@[simp] theorem archiveValues?_archiveFile (lastSeq : Nat) (jobs : List ArchivedJob) :
    archiveValues? (archiveFile lastSeq jobs)
      = some (jobs.map fun archived => archived.job.toJson) := by
  simp [archiveValues?, archiveFile]

theorem archivedRows_archiveFile {jobs : List ArchivedJob} (h : ∀ row ∈ jobs, row.job.Finite)
    (lastSeq : Nat) : archivedRows (some (archiveFile lastSeq jobs)) = jobs := by
  rw [archivedRows, readArchive, Option.bind_some, archiveValues?_archiveFile, Option.map_some,
    Option.map_some, Option.getD_some, normalizeFile]
  simp only
  induction jobs with
  | nil => rfl
  | cons row rest ih =>
    rw [List.map_cons, List.filterMap_cons_some
      (readArchivedJob_toJson (h row List.mem_cons_self)),
      ih fun other hother => h other (List.mem_cons_of_mem row hother)]

theorem endedAt_mem_numbers (archived : ArchivedJob) : archived.endedAt ∈ archived.job.numbers := by
  simp [LaneJob.numbers, archived.ended]

variable {archived row : ArchivedJob} {job : LaneJob}

theorem LaneJob.Finite.endedAt_ne_nan (h : archived.job.Finite) : archived.endedAt ≠ .nan := by
  intro heq
  have hfinite := h archived.endedAt (endedAt_mem_numbers archived)
  rw [heq] at hfinite
  cases hfinite

/-- **The bound**: a row is kept exactly when fewer than `MAX_ARCHIVED_JOBS` others come after
it. -/
theorem mem_boundedRows_iff {rows : ArchivedRows}
    (hfinite : ∀ row ∈ rows.rows.values, row.job.Finite) :
    row ∈ boundedRows rows ↔ row ∈ rows.rows.values ∧
      (rowsAfter row rows.rows.values).length < MAX_ARCHIVED_JOBS := by
  have hlength : (sortByNumber ArchivedJob.endedAt rows.rows.values).length
      = rows.rows.values.length := (perm_sortByNumber _ _).length_eq
  have hdrop : boundedRows rows = (sortByNumber ArchivedJob.endedAt rows.rows.values).drop
      (rows.rows.values.length - MAX_ARCHIVED_JOBS) := by
    rw [boundedRows, hlength]
    split
    · rfl
    · rename_i hfew
      rw [Nat.sub_eq_zero_of_le (Nat.le_of_not_lt hfew), List.drop_zero]
  have hnodup : rows.rows.values.Nodup := List.Nodup.of_map _ (Table.nodup_codes rows)
  rw [hdrop]
  constructor
  · intro hrow
    have hmem := mem_sortByNumber.mp (List.mem_of_mem_drop hrow)
    refine ⟨hmem, ?_⟩
    exact (mem_drop_sortByNumber_iff hnodup
      (fun other hother => (hfinite other hother).endedAt_ne_nan) hmem _).mp hrow
  · rintro ⟨hmem, hfew⟩
    exact (mem_drop_sortByNumber_iff hnodup
      (fun other hother => (hfinite other hother).endedAt_ne_nan) hmem _).mpr hfew

theorem nodup_boundedRows (rows : ArchivedRows) : ((boundedRows rows).map ArchivedJob.id).Nodup := by
  have hsorted : ((sortByNumber ArchivedJob.endedAt rows.rows.values).map ArchivedJob.id).Nodup :=
    ((perm_sortByNumber _ _).map _).nodup_iff.mpr (Table.nodup_codes rows)
  rw [boundedRows]
  split
  · exact hsorted.sublist ((List.drop_sublist _ _).map _)
  · exact hsorted

theorem mem_mergedRows_iff {disk : List ArchivedJob} (hnodup : (disk.map ArchivedJob.id).Nodup)
    {other : ArchivedJob} :
    other ∈ (mergedRows disk row).rows.values ↔
      other = row ∨ (other ∈ disk ∧ other.id ≠ row.id) := by
  have hdisk := @Table.mem_values_foldl_put _ _ _ ArchivedJob.id id .empty disk other _ hnodup
  rw [mergedRows, Table.mem_values_put_iff, hdisk]
  simp [Table.empty, OrderedMap.empty, OrderedMap.values]

theorem finite_boundOutput (h : archived.job.Finite) : (boundOutput archived).job.Finite :=
  h

/-- **A record** of an ended job fails and changes nothing, or commits the rows that the bound
keeps. -/
theorem JobArchive.record_cases (archive : JobArchive) (available : Bool)
    (hsound : SoundArchive file) (harchived : job.archived? = some archived)
    (hfinite : archived.job.Finite) :
    ((archive.record available file job).2 = (file, false)) ∨
      ((archive.record available file job).2.2 = true ∧
        SoundArchive (archive.record available file job).2.1 ∧
        ∀ row, row ∈ archivedRows (archive.record available file job).2.1 ↔
          (row = boundOutput archived ∨
            (row ∈ archivedRows file ∧ row.id ≠ (boundOutput archived).id)) ∧
          (rowsAfter row (mergedRows (archivedRows file) (boundOutput archived)).rows.values).length
            < MAX_ARCHIVED_JOBS) := by
  rw [JobArchive.record, harchived]
  simp only
  generalize { archive.readOnce file with
    rows := (archive.readOnce file).rows.put (boundOutput archived) } = held
  -- what is on disk, as the transaction reads it
  cases hdisk : readTransaction file with
  | none => exact .inl (by simp [JobArchive.write, hdisk])
  | some disk =>
    cases available with
    | false => exact .inl (by simp [JobArchive.write])
    | true =>
      obtain ⟨rows, diskSeq⟩ := disk
      have hrows : rows = archivedRows file := by
        cases file with
        | none =>
          cases hdisk
          rfl
        | some current =>
          rw [readTransaction] at hdisk
          rw [archivedRows, hdisk]
          rfl
      subst hrows
      have hall : ∀ row ∈ (mergedRows (archivedRows file) (boundOutput archived)).rows.values,
          row.job.Finite := by
        intro row hrow
        rcases (mem_mergedRows_iff hsound.nodup).mp hrow with rfl | ⟨hold, -⟩
        · exact finite_boundOutput hfinite
        · exact hsound.finite row hold
      have hkept : ∀ row ∈ boundedRows (mergedRows (archivedRows file) (boundOutput archived)),
          row.job.Finite := fun row hrow => hall row ((mem_boundedRows_iff hall).mp hrow).1
      have hwrite : (held.write true file (boundOutput archived)).2
          = (some (archiveFile (raiseSeq (max held.lastSeq diskSeq) (boundOutput archived).id)
              (boundedRows (mergedRows (archivedRows file) (boundOutput archived)))), true) := by
        simp [JobArchive.write, hdisk]
      right
      rw [hwrite]
      refine ⟨rfl, ⟨?_, ?_⟩, fun row => ?_⟩
      · rw [archivedRows_archiveFile hkept]
        exact nodup_boundedRows _
      · rw [archivedRows_archiveFile hkept]
        exact hkept
      · rw [archivedRows_archiveFile hkept, mem_boundedRows_iff hall,
          mem_mergedRows_iff hsound.nodup]

theorem JobArchive.available_of_record {archive : JobArchive} {available : Bool}
    (harchived : job.archived? = some archived)
    (h : (archive.record available file job).2.2 = true) : available = true := by
  cases available with
  | true => rfl
  | false =>
    rw [JobArchive.record, harchived] at h
    simp only [JobArchive.write] at h
    split at h
    · rename_i hfalse
      cases hfalse
    · cases h

theorem JobArchive.record_confirmed (archive : JobArchive) (lastSeq : Nat)
    (jobs : List ArchivedJob) (harchived : job.archived? = some archived) :
    (archive.record true (some (archiveFile lastSeq jobs)) job).2.2 = true := by
  have hread : readTransaction (some (archiveFile lastSeq jobs)) = some
      (normalizeFile (archiveFile lastSeq jobs) (jobs.map fun archived => archived.job.toJson)) := by
    rw [readTransaction, readArchive, Option.bind_some, archiveValues?_archiveFile, Option.map_some]
  rw [JobArchive.record, harchived]
  simp only [JobArchive.write, hread]

theorem JobArchive.mem_restore_create (hsound : SoundArchive file) :
    row ∈ (JobArchive.create.restore file).1 ↔ row ∈ archivedRows file := by
  rw [JobArchive.restore, JobArchive.readOnce, JobArchive.create]
  have hnodup := hsound.nodup
  rw [archivedRows] at hnodup ⊢
  cases hread : readArchive file with
  | none => rfl
  | some content =>
    obtain ⟨rows, lastSeq⟩ := content
    rw [hread] at hnodup
    have hmem := @Table.mem_values_foldl_put _ _ _ ArchivedJob.id id .empty rows row _ hnodup
    simpa [Table.empty, OrderedMap.empty, OrderedMap.values] using hmem

end Disk

end LlmRelay
