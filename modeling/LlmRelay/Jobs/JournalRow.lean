import LlmRelay.Breaker.Persistence

/-!
# Rows of the running-job journal

What the journal records of one running job, and its form in the journal file
(`mcp/job-journal.ts`). A row that does not read back as one is ignored.

## Main definitions

* `JournalRow`: one running job;
* `JournalRow.toJson`, `readJournalRow`: the row in the file;
* `journalFile`, `diskRows`: the file, and the rows that are read from it.

## Main results

* `readJournalRow_toJson`: a row with a finite start reads back;
* `diskRows_journalFile`: so do the rows of a file.
-/

namespace LlmRelay

open Ecma

/-! ## Rows -/

def MAX_ACTIVITY_STAT_PATHS : Nat := 500

/-- A digit of `[0-9a-f]`. -/
def isHexDigit (c : CodeUnit) : Bool :=
  (0x30 ≤ c && c ≤ 0x39) || (0x61 ≤ c && c ≤ 0x66)

/-- `/^exec-[0-9a-f]{32}$/`. -/
def isExecutionId (t : Text) : Bool :=
  t.startsWith (text "exec-") && (t.drop 5).length = 32 && (t.drop 5).all isHexDigit

/-- The reference of an execution that the daemon owns. -/
structure JournalBrokerExecution where
  executionId : Text
  canonical : isExecutionId executionId = true
  deriving DecidableEq

/-- The git status before the first lane ran, up to a number of paths. -/
structure JournalStartingTree where
  prefix_ : Text
  entries : List (Text × Text)
  scope : Option (List Text)
  bounded : entries.length ≤ MAX_ACTIVITY_STAT_PATHS
  deriving DecidableEq

/-- A process, and a journal of it. -/
structure JournalOwner where
  pid : Nat
  instance_ : Text
  positive : 0 < pid
  safe : pid ≤ maxSafeInteger
  deriving DecidableEq

theorem pid_pos {pid : Nat} (h : 0 < pid ∧ pid ≤ maxSafeInteger) : 0 < pid :=
  h.1

theorem pid_le {pid : Nat} (h : 0 < pid ∧ pid ≤ maxSafeInteger) : pid ≤ maxSafeInteger :=
  h.2

theorem seven_isPid : 0 < 7 ∧ 7 ≤ maxSafeInteger := by
  decide

theorem eight_isPid : 0 < 8 ∧ 8 ≤ maxSafeInteger := by
  decide

/-- One running job. -/
structure JournalRow where
  jobId : Text
  laneId : Text
  spec : Option Text
  cwd : Text
  startedAt : Number
  label : Option Text
  startingTree : Option JournalStartingTree
  brokerExecution : Option JournalBrokerExecution
  owner : Option JournalOwner
  deriving DecidableEq

/-! ## Writing -/

def JournalBrokerExecution.toJson (execution : JournalBrokerExecution) : Json :=
  .ofProperties [("kind", some (Json.ofString "daemon-v1")),
    ("executionId", some (.str execution.executionId))]

/-- A path and its status. -/
def entryJson (entry : Text × Text) : Json :=
  .arr [.str entry.1, .str entry.2]

def JournalStartingTree.toJson (tree : JournalStartingTree) : Json :=
  .ofProperties [("prefix", some (.str tree.prefix_)),
    ("entries", some (.arr (tree.entries.map entryJson))),
    ("scope", tree.scope.map fun scope => .arr (scope.map .str))]

def JournalOwner.toJson (owner : JournalOwner) : Json :=
  .ofProperties [("pid", some (.ofNat owner.pid)), ("instance", some (.str owner.instance_))]

def JournalRow.toJson (row : JournalRow) : Json :=
  .ofProperties [("jobId", some (.str row.jobId)), ("laneId", some (.str row.laneId)),
    ("cwd", some (.str row.cwd)), ("startedAt", some (.ofNumber row.startedAt)),
    ("spec", row.spec.map .str), ("label", row.label.map .str),
    ("owner", row.owner.map JournalOwner.toJson),
    ("startingTree", row.startingTree.map JournalStartingTree.toJson),
    ("brokerExecution", row.brokerExecution.map JournalBrokerExecution.toJson)]

/-! ## Reading -/

/-- A property that is absent or a string. -/
def optionalString (v : Option Json) : Option (Option Text) :=
  match v with
  | none => some none
  | some (.str s) => some (some s)
  | some _ => none

/-- `typeof v === "string"` for every element. -/
def stringItems? (items : List Json) : Option (List Text) :=
  items.mapM fun item => Json.string? (some item)

/-- `isOwner`, and the owner. -/
def readOwner (value : Json) : Option JournalOwner :=
  match Json.count? (value.get? (text "pid")), Json.string? (value.get? (text "instance")) with
  | some pid, some instance_ =>
    if h : 0 < pid ∧ pid ≤ maxSafeInteger then some ⟨pid, instance_, h.1, h.2⟩ else none
  | _, _ => none

/-- The owner of a row, where a row may have none. -/
def optionalOwner (v : Option Json) : Option (Option JournalOwner) :=
  match v with
  | none => some none
  | some value => (readOwner value).map some

def readBrokerExecution (value : Json) : Option JournalBrokerExecution :=
  match value, Json.string? (value.get? (text "executionId")) with
  | .obj fields, some executionId =>
    if h : isExecutionId executionId = true then
      if fields.length = 2 ∧ value.get? (text "kind") = some (Json.ofString "daemon-v1") then
        some ⟨executionId, h⟩
      else none
    else none
  | _, _ => none

/-- A pair of strings. -/
def readEntry (pair : Json) : Option (Text × Text) :=
  match pair with
  | .arr [.str path, .str status] => some (path, status)
  | _ => none

/-- The scope of a tree, where there may be none. -/
def readScope (v : Option Json) : Option (Option (List Text)) :=
  match v with
  | none => some none
  | some (.arr items) => (stringItems? items).map some
  | some _ => none

def readStartingTree (value : Json) : Option JournalStartingTree := do
  let prefix_ ← Json.string? (value.get? (text "prefix"))
  let items ← Json.array? (value.get? (text "entries"))
  let entries ← items.mapM readEntry
  let scope ← readScope (value.get? (text "scope"))
  if h : entries.length ≤ MAX_ACTIVITY_STAT_PATHS then some ⟨prefix_, entries, scope, h⟩ else none

/-- A row of the file. A malformed tree or execution is left out of it. -/
def readJournalRow (value : Json) : Option JournalRow := do
  let jobId ← Json.string? (value.get? (text "jobId"))
  let laneId ← Json.string? (value.get? (text "laneId"))
  let cwd ← Json.string? (value.get? (text "cwd"))
  let startedAt ← Json.number? (value.get? (text "startedAt"))
  let spec ← optionalString (value.get? (text "spec"))
  let label ← optionalString (value.get? (text "label"))
  let owner ← optionalOwner (value.get? (text "owner"))
  some
    { jobId, laneId, spec, cwd, startedAt, label, owner
      startingTree := (value.get? (text "startingTree")).bind readStartingTree
      brokerExecution := (value.get? (text "brokerExecution")).bind readBrokerExecution }

/-! ### Reading back -/

section ReadBack

theorem mapM_map_some {α β : Type} {write : α → β} {read : β → Option α}
    (h : ∀ a, read (write a) = some a) (l : List α) : (l.map write).mapM read = some l := by
  induction l with
  | nil => rfl
  | cons a rest ih => simp [h, ih]

@[simp] theorem readBrokerExecution_toJson (execution : JournalBrokerExecution) :
    readBrokerExecution execution.toJson = some execution := by
  obtain ⟨executionId, hcanonical⟩ := execution
  have hid : (JournalBrokerExecution.toJson ⟨executionId, hcanonical⟩).get? (text "executionId")
      = some (.str executionId) := by
    simp [JournalBrokerExecution.toJson]
  have hkind : (JournalBrokerExecution.toJson ⟨executionId, hcanonical⟩).get? (text "kind")
      = some (Json.ofString "daemon-v1") := by
    simp [JournalBrokerExecution.toJson]
  have hstring : Json.string? ((JournalBrokerExecution.toJson ⟨executionId, hcanonical⟩).get?
      (text "executionId")) = some executionId := by
    rw [hid]
    rfl
  unfold readBrokerExecution
  rw [hstring]
  change (if h : isExecutionId executionId = true then
      if 2 = 2 ∧ (JournalBrokerExecution.toJson ⟨executionId, hcanonical⟩).get? (text "kind")
          = some (Json.ofString "daemon-v1") then
        some (⟨executionId, h⟩ : JournalBrokerExecution)
      else none
    else none) = _
  rw [dif_pos hcanonical, if_pos ⟨rfl, hkind⟩]

@[simp] theorem readOwner_toJson (owner : JournalOwner) : readOwner owner.toJson = some owner := by
  obtain ⟨pid, instance_, hpositive, hsafe⟩ := owner
  simp [readOwner, JournalOwner.toJson, Json.string?, hpositive, hsafe]

theorem readScope_toJson (scope : Option (List Text)) :
    readScope (scope.map fun scope => .arr (scope.map .str)) = some scope := by
  cases scope with
  | none => rfl
  | some items =>
    have hitems : stringItems? (items.map .str) = some items :=
      @mapM_map_some _ _ Json.str (fun item => Json.string? (some item)) (fun _ => rfl) items
    simp [readScope, hitems]

@[simp] theorem readStartingTree_toJson (tree : JournalStartingTree) :
    readStartingTree tree.toJson = some tree := by
  obtain ⟨prefix_, entries, scope, hbounded⟩ := tree
  have hentries : (entries.map entryJson).mapM readEntry = some entries :=
    @mapM_map_some _ _ entryJson readEntry (fun _ => rfl) entries
  have hscope := readScope_toJson scope
  simp [readStartingTree, JournalStartingTree.toJson, Json.string?, hentries, hscope, hbounded]

theorem optionalString_map (s : Option Text) : optionalString (s.map .str) = some s := by
  cases s <;> rfl

theorem optionalOwner_map (owner : Option JournalOwner) :
    optionalOwner (owner.map JournalOwner.toJson) = some owner := by
  cases owner with
  | none => rfl
  | some owner => simp [optionalOwner]

/-- **A row reads back** where its start is finite. -/
theorem readJournalRow_toJson {row : JournalRow} (h : row.startedAt.isFinite = true) :
    readJournalRow row.toJson = some row := by
  obtain ⟨jobId, laneId, spec, cwd, startedAt, label, startingTree, brokerExecution, owner⟩ := row
  have hspec := optionalString_map spec
  have hlabel := optionalString_map label
  have howner := optionalOwner_map owner
  have hstart := number?_ofNumber h
  have htree : (startingTree.map JournalStartingTree.toJson).bind readStartingTree
      = startingTree := by
    cases startingTree <;> simp
  have hexecution : (brokerExecution.map JournalBrokerExecution.toJson).bind readBrokerExecution
      = brokerExecution := by
    cases brokerExecution <;> simp
  simp [readJournalRow, JournalRow.toJson, Json.string?, hstart, hspec, hlabel, howner, htree,
    hexecution]

end ReadBack

/-! ## The file -/

def JOB_JOURNAL_VERSION : Nat := 1

/-- The file of some rows. -/
def journalFile (jobs : List JournalRow) : Json :=
  .ofProperties [("version", some (.ofNat JOB_JOURNAL_VERSION)),
    ("jobs", some (.arr (jobs.map JournalRow.toJson)))]

/-- `isJournalFile`, and the values of the file. -/
def journalValues? (file : Json) : Option (List Json) :=
  if file.get? (text "version") = some (.ofNat JOB_JOURNAL_VERSION) then
    Json.array? (file.get? (text "jobs"))
  else none

/-- The rows on disk; a file that is missing or invalid has none. -/
def diskRows (file : Option Json) : List JournalRow :=
  ((file.bind journalValues?).getD []).filterMap readJournalRow

@[simp] theorem journalValues?_journalFile (jobs : List JournalRow) :
    journalValues? (journalFile jobs) = some (jobs.map JournalRow.toJson) := by
  simp [journalValues?, journalFile]

/-- The rows of a written file read back. -/
theorem diskRows_journalFile {jobs : List JournalRow}
    (h : ∀ row ∈ jobs, row.startedAt.isFinite = true) : diskRows (some (journalFile jobs)) = jobs := by
  rw [diskRows, Option.bind_some, journalValues?_journalFile, Option.getD_some]
  induction jobs with
  | nil => rfl
  | cons row rest ih =>
    rw [List.map_cons, List.filterMap_cons_some (readJournalRow_toJson (h row List.mem_cons_self)),
      ih fun other hother => h other (List.mem_cons_of_mem row hother)]

end LlmRelay
