import LlmRelay.Jobs.Journal

/-!
# One call on a journal

What one call of a live process does to the rows on disk. A journal holds exactly the rows on
disk that carry its token; a call keeps that, and it keeps the rows of other owners, unless it
takes or acknowledges one.

## Main definitions

* `JournalCall`, `JobJournal.call`: the calls on a journal;
* `JobJournal.Holds`: the rows of a journal are those on disk that carry its token;
* `JobJournal.CallSpec`: what a call leaves behind.

## Main results

* `JobJournal.CallSpec.publish`: a rewrite of the file;
* `JobJournal.call_spec`: every call.
-/

namespace LlmRelay

open Ecma

/-- A call on a journal. -/
inductive JournalCall where
  | note (row : JournalRow)
  | noteStartingTree (jobId : Text) (tree : TreeSnapshot) (scope : Option (List Text))
  | noteBrokerExecution (jobId executionId : Text)
  | claimBrokerOrphan (jobId : Text)
  | clear (jobId : Text)
  | clearOrphan (orphan : JournalRow)
  | orphans
  | foreign (jobId : Text)
  | foreignRows

namespace JobJournal

/-- The journal and the file after a call whose transaction is carried out. -/
def call (journal : JobJournal) (isAlive : Nat → Bool) (file : Option Json) :
    JournalCall → JobJournal × Option Json
  | .note row => journal.note isAlive true file row
  | .noteStartingTree jobId tree scope =>
    journal.noteStartingTree isAlive true file jobId tree scope
  | .noteBrokerExecution jobId executionId =>
    journal.noteBrokerExecution isAlive true file jobId executionId
  | .claimBrokerOrphan jobId => (journal.claimBrokerOrphan isAlive true file jobId).2
  | .clear jobId => journal.clear isAlive true file jobId
  | .clearOrphan orphan => journal.clearOrphan isAlive true file orphan
  | .orphans => ((journal.orphans isAlive file).2, file)
  | .foreign jobId => ((journal.foreign isAlive file jobId).2, file)
  | .foreignRows => ((journal.foreignRows isAlive file).2, file)

end JobJournal

/-! ## One call -/

section OneCall

variable {journal : JobJournal} {isAlive : Nat → Bool} {file : Option Json}

/-- The rows of a journal are the rows on disk that carry its token. -/
def JobJournal.Holds (journal : JobJournal) (file : Option Json) : Prop :=
  ∀ row, row ∈ journal.rows.rows.values ↔ row ∈ diskRows file ∧ journal.ownedHere row = true

/-- The call takes a row that no other live process owns. -/
def JobJournal.Takes (journal : JobJournal) (isAlive : Nat → Bool) (call : JournalCall)
    (row : JournalRow) (journal' : JobJournal) : Prop :=
  call = .claimBrokerOrphan row.jobId ∧ journal.ownedElsewhere isAlive row = false ∧
    { row with owner := some journal.self } ∈ journal'.rows.rows.values

/-- The call acknowledges a row that had no live owner at startup. -/
def JobJournal.Acknowledges (journal : JobJournal) (isAlive : Nat → Bool) (file : Option Json)
    (call : JournalCall) (row : JournalRow) : Prop :=
  ∃ orphan, call = .clearOrphan orphan ∧
    ∃ startup ∈ (journal.readOnce isAlive file).startupOrphans,
      sameJournalRowIdentity startup orphan = true ∧ sameJournalRowIdentity row startup = true

/-- What a call leaves behind: the journal still holds its rows, one of each job but a cleared
one, and a row of another owner stays, unless it is taken or acknowledged. -/
structure JobJournal.CallSpec (journal : JobJournal) (isAlive : Nat → Bool) (file : Option Json)
    (call : JournalCall) (journal' : JobJournal) (file' : Option Json) : Prop where
  self : journal'.self = journal.self
  sound : SoundDisk file'
  holds : journal'.Holds file'
  jobs : ∀ row ∈ journal.rows.rows.values, call = .clear row.jobId ∨
    ∃ row' ∈ journal'.rows.rows.values, row'.jobId = row.jobId
  foreign : ∀ row ∈ diskRows file', journal.ownedHere row = false → row ∈ diskRows file
  created : ∀ row ∈ diskRows file', (∃ row' ∈ diskRows file, row'.jobId = row.jobId) ∨
    ∃ noted, call = .note noted ∧ noted.jobId = row.jobId
  kept : ∀ row ∈ diskRows file, journal.ownedHere row = false →
    row ∈ diskRows file' ∨ journal.Takes isAlive call row journal' ∨
      (journal.Acknowledges isAlive file call row ∧ row ∉ diskRows file')
  orphans : ∀ row ∈ journal'.startupOrphans,
    row ∈ (journal.readOnce isAlive file).startupOrphans

theorem ownedHere_iff (row : JournalRow) :
    journal.ownedHere row = true ↔ row.owner = some journal.self := by
  unfold JobJournal.ownedHere
  cases row.owner with
  | none => simp
  | some owner =>
    obtain ⟨pid, instance_, hpositive, hsafe⟩ := owner
    obtain ⟨⟨pid', instance_', hpositive', hsafe'⟩, rows, loaded, startupOrphans⟩ := journal
    simp

variable {a b row : JournalRow}

theorem owner_eq_of_sameJournalRowIdentity (h : sameJournalRowIdentity a b = true) :
    b.owner = a.owner := by
  simp only [sameJournalRowIdentity, Bool.and_eq_true, decide_eq_true_eq] at h
  obtain ⟨⟨⟨⟨howner, -⟩, -⟩, -⟩, -⟩ := h
  cases ha : a.owner with
  | none =>
    rw [ha, Option.map_none, eq_comm, Option.map_eq_none_iff] at howner
    exact howner
  | some owner =>
    rw [ha, Option.map_some, eq_comm, Option.map_eq_some_iff] at howner
    obtain ⟨owner', hb, hpair⟩ := howner
    obtain ⟨pid, instance_, hpositive, hsafe⟩ := owner
    cases hpair
    exact hb

theorem jobId_eq_of_sameJournalRowIdentity (h : sameJournalRowIdentity a b = true) :
    a.jobId = b.jobId := by
  simp only [sameJournalRowIdentity, Bool.and_eq_true, decide_eq_true_eq] at h
  exact h.1.1.1.2

theorem sameJournalRowIdentity_trans {c : JournalRow} (hab : sameJournalRowIdentity a b = true)
    (hbc : sameJournalRowIdentity b c = true) : sameJournalRowIdentity a c = true := by
  simp only [sameJournalRowIdentity, Bool.and_eq_true, decide_eq_true_eq] at hab hbc ⊢
  obtain ⟨⟨⟨⟨howner, hjob⟩, hlane⟩, hcwd⟩, hstart⟩ := hab
  obtain ⟨⟨⟨⟨howner', hjob'⟩, hlane'⟩, hcwd'⟩, hstart'⟩ := hbc
  exact ⟨⟨⟨⟨howner.trans howner', hjob.trans hjob'⟩, hlane.trans hlane'⟩, hcwd.trans hcwd'⟩,
    hstart.trans hstart'⟩

theorem self_readOnce (journal : JobJournal) (isAlive : Nat → Bool) (file : Option Json) :
    (journal.readOnce isAlive file).self = journal.self ∧
      (journal.readOnce isAlive file).rows = journal.rows := by
  unfold JobJournal.readOnce
  split
  · exact ⟨rfl, rfl⟩
  · exact ⟨rfl, rfl⟩

theorem JobJournal.Holds.readOnce (h : journal.Holds file) :
    (journal.readOnce isAlive file).Holds file := by
  obtain ⟨hself, hrows⟩ := self_readOnce journal isAlive file
  intro row
  rw [hrows, ownedHere_iff, hself, ← ownedHere_iff]
  exact h row

/-- The own rows of a journal are its own on disk. -/
theorem JobJournal.Holds.owner (h : journal.Holds file) (hrow : row ∈ journal.rows.rows.values) :
    row.owner = some journal.self :=
  ownedHere_iff row |>.mp ((h row).mp hrow).2

theorem JobJournal.CallSpec.idle (isAlive : Nat → Bool) (hdisk : SoundDisk file)
    (h : journal.Holds file) (call : JournalCall) :
    journal.CallSpec isAlive file call (journal.readOnce isAlive file) file where
  self := (self_readOnce journal isAlive file).1
  sound := hdisk
  holds := h.readOnce
  jobs := fun row hrow => .inr ⟨row, by rwa [(self_readOnce journal isAlive file).2], rfl⟩
  foreign := fun _ hrow _ => hrow
  created := fun row hrow => .inl ⟨row, hrow, rfl⟩
  kept := fun _ hrow _ => .inl hrow
  orphans := fun _ hrow => hrow

/-- **A rewrite with other rows** of the same owner: it is enough that no row of another
owner has a job of theirs. -/
theorem JobJournal.CallSpec.publish (hdisk : SoundDisk file) {call : JournalCall} {rows : JobRows}
    (hown : ∀ row ∈ rows.rows.values, row.owner = some journal.self)
    (hfinite : ∀ row ∈ rows.rows.values, row.startedAt.isFinite = true)
    (hjobs : ∀ row ∈ journal.rows.rows.values, call = .clear row.jobId ∨
      ∃ row' ∈ rows.rows.values, row'.jobId = row.jobId)
    (hfree : ∀ own ∈ rows.rows.values, ∀ row ∈ diskRows file, row.jobId = own.jobId →
      journal.ownedHere row = true)
    (hcreated : ∀ row ∈ rows.rows.values, (∃ row' ∈ diskRows file, row'.jobId = row.jobId) ∨
      ∃ noted, call = .note noted ∧ noted.jobId = row.jobId) :
    let written := { journal.readOnce isAlive file with rows }
    journal.CallSpec isAlive file call written (written.persist true file) := by
  intro written
  have hself : written.self = journal.self := (self_readOnce journal isAlive file).1
  have hhere : ∀ row, written.ownedHere row = journal.ownedHere row := by
    intro row
    rw [Bool.eq_iff_iff, ownedHere_iff, ownedHere_iff, hself]
  obtain ⟨hsound, hmem⟩ := mem_persist_iff written hdisk hfinite
  refine ⟨hself, hsound, ?_, hjobs, ?_, ?_, ?_, fun row hrow => hrow⟩
  · intro row
    rw [hmem, hhere]
    constructor
    · intro hrow
      exact ⟨.inl hrow, (ownedHere_iff row).mpr (hown row hrow)⟩
    · rintro ⟨hrow | ⟨-, hforeign, -⟩, hown'⟩
      · exact hrow
      · rw [hforeign] at hown'
        cases hown'
  · intro row hrow hforeign
    rcases (hmem row).mp hrow with hnew | ⟨hold, -, -⟩
    · rw [(ownedHere_iff row).mpr (hown row hnew)] at hforeign
      cases hforeign
    · exact hold
  · intro row hrow
    rcases (hmem row).mp hrow with hnew | ⟨hold, -, -⟩
    · exact hcreated row hnew
    · exact .inl ⟨row, hold, rfl⟩
  · intro row hrow hforeign
    refine .inl ((hmem row).mpr (.inr ⟨hrow, (hhere row).trans hforeign, fun own hmemOwn heq => ?_⟩))
    rw [hfree own hmemOwn row hrow heq] at hforeign
    cases hforeign

theorem JobJournal.Holds.free (h : journal.Holds file) (hdisk : SoundDisk file) {own : JournalRow}
    (hown : own ∈ journal.rows.rows.values) (hrow : row ∈ diskRows file)
    (hjob : row.jobId = own.jobId) : journal.ownedHere row = true := by
  have hmem := (h own).mp hown
  have heq : row = own := List.inj_on_of_nodup_map hdisk.nodup hrow hmem.1 hjob
  rw [heq]
  exact hmem.2

variable (hdisk : SoundDisk file)

include hdisk

variable (h : journal.Holds file)

include h

theorem JobJournal.CallSpec.update
    (call : JournalCall) {row' : JournalRow} (hrow : row ∈ journal.rows.rows.values)
    (hid : row'.jobId = row.jobId) (howner : row'.owner = row.owner)
    (hstart : row'.startedAt = row.startedAt) :
    let written :=
      { journal.readOnce isAlive file with rows := (journal.readOnce isAlive file).rows.put row' }
    journal.CallSpec isAlive file call written (written.persist true file) := by
  rw [(self_readOnce journal isAlive file).2]
  refine .publish hdisk ?_ ?_ ?_ ?_ ?_
  · intro other hother
    rcases Table.mem_values_put hother with rfl | hold
    · rw [howner]
      exact h.owner hrow
    · exact h.owner hold
  · intro other hother
    rcases Table.mem_values_put hother with rfl | hold
    · rw [hstart]
      exact hdisk.finite row ((h row).mp hrow).1
    · exact hdisk.finite other ((h other).mp hold).1
  · intro other hother
    refine .inr ?_
    by_cases hjob : other.jobId = row'.jobId
    · exact ⟨row', Table.mem_values_put_iff.mpr (.inl rfl), hjob.symm⟩
    · exact ⟨other, Table.mem_values_put_iff.mpr (.inr ⟨hother, hjob⟩), rfl⟩
  · intro own hown other hother hjob
    rcases Table.mem_values_put hown with rfl | hold
    · exact h.free hdisk hrow hother (hjob.trans hid)
    · exact h.free hdisk hold hother hjob
  · intro other hother
    rcases Table.mem_values_put hother with rfl | hold
    · exact .inl ⟨row, ((h row).mp hrow).1, hid.symm⟩
    · exact .inl ⟨other, ((h other).mp hold).1, rfl⟩

theorem JobJournal.note_spec (row : JournalRow) (hfinite : row.startedAt.isFinite = true)
    (hfree : ∀ other ∈ diskRows file, other.jobId = row.jobId → journal.ownedHere other = true) :
    journal.CallSpec isAlive file (.note row) (journal.note isAlive true file row).1
      (journal.note isAlive true file row).2 := by
  obtain ⟨hself, hrows⟩ := self_readOnce journal isAlive file
  refine .publish hdisk ?_ ?_ ?_ ?_ ?_
  · intro other hother
    rw [hrows] at hother
    rcases Table.mem_values_put hother with rfl | hold
    · exact congrArg some hself
    · exact h.owner hold
  · intro other hother
    rw [hrows] at hother
    rcases Table.mem_values_put hother with rfl | hold
    · exact hfinite
    · exact hdisk.finite other ((h other).mp hold).1
  · intro other hother
    refine .inr ?_
    rw [hrows]
    by_cases hjob : other.jobId = row.jobId
    · exact ⟨_, Table.mem_values_put_iff.mpr (.inl rfl), hjob.symm⟩
    · exact ⟨other, Table.mem_values_put_iff.mpr (.inr ⟨hother, hjob⟩), rfl⟩
  · intro own hown other hother hjob
    rw [hrows] at hown
    rcases Table.mem_values_put hown with rfl | hold
    · exact hfree other hother hjob
    · exact h.free hdisk hold hother hjob
  · intro other hother
    rw [hrows] at hother
    rcases Table.mem_values_put hother with rfl | hold
    · exact .inr ⟨row, rfl, rfl⟩
    · exact .inl ⟨other, ((h other).mp hold).1, rfl⟩

theorem JobJournal.clear_spec (jobId : Text) :
    journal.CallSpec isAlive file (.clear jobId) (journal.clear isAlive true file jobId).1
      (journal.clear isAlive true file jobId).2 := by
  obtain ⟨-, hrows⟩ := self_readOnce journal isAlive file
  rw [JobJournal.clear]
  by_cases hmissing : ((journal.readOnce isAlive file).rows.rows.get? jobId).isNone = true
  · rw [if_pos hmissing]
    exact .idle _ hdisk h _
  · rw [if_neg hmissing, hrows]
    have hkept : ∀ row, row ∈ (journal.rows.removeWhere fun row => row.jobId = jobId).rows.values ↔
        row ∈ journal.rows.rows.values ∧ row.jobId ≠ jobId := by
      intro row
      simp
    refine .publish hdisk ?_ ?_ ?_ ?_ ?_
    · intro row hrow
      exact h.owner ((hkept row).mp hrow).1
    · intro row hrow
      exact hdisk.finite row ((h row).mp ((hkept row).mp hrow).1).1
    · intro row hrow
      by_cases hjob : row.jobId = jobId
      · exact .inl (by rw [hjob])
      · exact .inr ⟨row, (hkept row).mpr ⟨hrow, hjob⟩, rfl⟩
    · intro own hown row hrow hjob
      exact h.free hdisk ((hkept own).mp hown).1 hrow hjob
    · intro row hrow
      exact .inl ⟨row, ((h row).mp ((hkept row).mp hrow).1).1, rfl⟩

omit h

omit hdisk

/-- **A claim** writes the rows that the file had, or gives a row to the journal. -/
theorem JobJournal.claimBrokerOrphan_cases (journal : JobJournal) (hdisk : SoundDisk file)
    (jobId : Text) :
    (∃ file', SoundDisk file' ∧ diskRows file' = diskRows file ∧
      journal.claimBrokerOrphan isAlive true file jobId
        = (none, journal.readOnce isAlive file, file')) ∨
      ∃ row ∈ diskRows file, ∃ file', row.jobId = jobId ∧
        journal.ownedElsewhere isAlive row = false ∧ SoundDisk file' ∧
        journal.claimBrokerOrphan isAlive true file jobId
          = (some { row with owner := some journal.self },
            { journal.readOnce isAlive file with
              rows := journal.rows.put { row with owner := some journal.self } }, file') ∧
        ∀ other, other ∈ diskRows file' ↔
          other = { row with owner := some journal.self } ∨
            (other ∈ diskRows file ∧ other.jobId ≠ jobId) := by
  obtain ⟨hself, hrows⟩ := self_readOnce journal isAlive file
  rcases claimRow_cases (journal.readOnce isAlive file) isAlive jobId
    hdisk.nodup with hnone | ⟨row, hrow, hjob, -, hfree, hout, hids, hall⟩
  · obtain ⟨file', hfile, hsound, hdisk'⟩ := hdisk.transact
      (fun disk => ((journal.readOnce isAlive file).claimRow isAlive jobId disk).1)
      (by rw [hnone]; exact hdisk.nodup) (by rw [hnone]; exact hdisk.finite)
    rw [hnone] at hdisk'
    exact .inl ⟨file', hsound, hdisk', by simp [claimBrokerOrphan, hfile, hnone]⟩
  · rw [hself] at hout hall
    have hfinite : ∀ other ∈ ((journal.readOnce isAlive file).claimRow isAlive jobId
        (diskRows file)).1, other.startedAt.isFinite = true := by
      intro other hother
      rcases (hall other).mp hother with rfl | ⟨hold, -⟩
      · exact hdisk.finite row hrow
      · exact hdisk.finite other hold
    obtain ⟨file', hfile, hsound, hdisk'⟩ := hdisk.transact
      (fun disk => ((journal.readOnce isAlive file).claimRow isAlive jobId disk).1)
      (by rw [hids]; exact hdisk.nodup) hfinite
    rw [ownedElsewhere, hself] at hfree
    refine .inr ⟨row, hrow, file', hjob, hfree, hsound, ?_, fun other => ?_⟩
    · simp [claimBrokerOrphan, hfile, hout, hrows]
    · rw [hdisk']
      exact hall other

variable (hdisk : SoundDisk file)

include hdisk

variable (h : journal.Holds file)

include h

theorem JobJournal.claimBrokerOrphan_spec (jobId : Text) :
    journal.CallSpec isAlive file (.claimBrokerOrphan jobId)
      (journal.claimBrokerOrphan isAlive true file jobId).2.1
      (journal.claimBrokerOrphan isAlive true file jobId).2.2 := by
  obtain ⟨hself, hrows⟩ := self_readOnce journal isAlive file
  rcases journal.claimBrokerOrphan_cases hdisk jobId with
    ⟨file', hsound, hdisk', hcall⟩ | ⟨row, hrow, file', hjob, hfree, hsound, hcall, hmem⟩
  · rw [hcall]
    -- the file is rewritten with the rows that it had
    have hidle := JobJournal.CallSpec.idle isAlive hdisk h (.claimBrokerOrphan jobId)
    refine ⟨hidle.self, hsound, ?_, hidle.jobs, ?_, ?_, ?_, hidle.orphans⟩
    · intro row
      rw [hidle.holds row, hdisk']
    · rw [hdisk']
      exact hidle.foreign
    · rw [hdisk']
      exact hidle.created
    · intro row hrow _
      exact .inl (hdisk' ▸ hrow)
  · rw [hcall]
    have hclaimed : journal.ownedHere { row with owner := some journal.self } = true :=
      (ownedHere_iff _).mpr rfl
    refine ⟨hself, hsound, ?_, ?_, ?_, ?_, ?_, fun row hrow => hrow⟩
    · intro other
      rw [ownedHere_iff, hself, ← ownedHere_iff, hmem]
      constructor
      · intro hother
        rcases Table.mem_values_put_iff.mp hother with rfl | ⟨hold, hne⟩
        · exact ⟨.inl rfl, hclaimed⟩
        · exact ⟨.inr ⟨((h other).mp hold).1, fun heq => hne (heq.trans hjob.symm)⟩,
            ((h other).mp hold).2⟩
      · rintro ⟨rfl | ⟨hold, hne⟩, hown⟩
        · exact Table.mem_values_put_iff.mpr (.inl rfl)
        · exact Table.mem_values_put_iff.mpr (.inr ⟨(h other).mpr ⟨hold, hown⟩,
            fun heq => hne (heq.trans hjob)⟩)
    · intro other hother
      refine .inr ?_
      by_cases heq : other.jobId = row.jobId
      · exact ⟨_, Table.mem_values_put_iff.mpr (.inl rfl), heq.symm⟩
      · exact ⟨other, Table.mem_values_put_iff.mpr (.inr ⟨hother, heq⟩), rfl⟩
    · intro other hother hforeign
      rcases (hmem other).mp hother with rfl | ⟨hold, -⟩
      · rw [hclaimed] at hforeign
        cases hforeign
      · exact hold
    · intro other hother
      rcases (hmem other).mp hother with rfl | ⟨hold, -⟩
      · exact .inl ⟨row, hrow, rfl⟩
      · exact .inl ⟨other, hold, rfl⟩
    · intro other hother _
      by_cases heq : other.jobId = jobId
      · -- it is the row that was claimed
        have hsame : other = row :=
          List.inj_on_of_nodup_map hdisk.nodup hother hrow (heq.trans hjob.symm)
        subst hsame
        exact .inr (.inl ⟨by rw [hjob], hfree, Table.mem_values_put_iff.mpr (.inl rfl)⟩)
      · exact .inl ((hmem other).mpr (.inr ⟨hother, heq⟩))

theorem JobJournal.clearOrphan_spec
    (hstartup : ∀ row ∈ (journal.readOnce isAlive file).startupOrphans,
      row.owner ≠ some journal.self) (orphan : JournalRow) :
    journal.CallSpec isAlive file (.clearOrphan orphan)
      (journal.clearOrphan isAlive true file orphan).1
      (journal.clearOrphan isAlive true file orphan).2 := by
  obtain ⟨hself, hrows⟩ := self_readOnce journal isAlive file
  cases hfind : (journal.readOnce isAlive file).startupOrphans.find? fun row =>
      sameJournalRowIdentity row orphan with
  | none =>
    have hcall : journal.clearOrphan isAlive true file orphan
        = (journal.readOnce isAlive file, file) := by
      simp only [JobJournal.clearOrphan, hfind]
    rw [hcall]
    exact .idle _ hdisk h _
  | some startup =>
    have hmemStartup := List.mem_of_find?_eq_some hfind
    have hsameOrphan := List.find?_some hfind
    have hkept : ∀ row, row ∈ (diskRows file).filter (fun row =>
        !sameJournalRowIdentity row startup) ↔
          row ∈ diskRows file ∧ sameJournalRowIdentity row startup = false := by
      intro row
      simp
    obtain ⟨file', hfile, hsound, hdisk'⟩ := hdisk.transact
      (fun disk => disk.filter fun row => !sameJournalRowIdentity row startup)
      (hdisk.nodup.sublist (List.filter_sublist.map _))
      (fun row hrow => hdisk.finite row ((hkept row).mp hrow).1)
    have hcall : journal.clearOrphan isAlive true file orphan
        = ({ journal.readOnce isAlive file with
              startupOrphans := (journal.readOnce isAlive file).startupOrphans.filter fun row =>
                !sameJournalRowIdentity row startup }, file') := by
      simp only [JobJournal.clearOrphan, hfind, hfile, if_true]
    rw [hcall]
    refine ⟨hself, hsound, ?_, ?_, ?_, ?_, ?_, ?_⟩
    · intro row
      rw [ownedHere_iff, hself, ← ownedHere_iff, hdisk', hkept]
      change row ∈ (journal.readOnce isAlive file).rows.rows.values ↔ _
      rw [hrows, h row]
      constructor
      · rintro ⟨hrow, hown⟩
        refine ⟨⟨hrow, ?_⟩, hown⟩
        -- an own row is no orphan of the startup
        rw [← Bool.not_eq_true]
        intro hsame
        exact hstartup startup hmemStartup
          ((owner_eq_of_sameJournalRowIdentity hsame).trans ((ownedHere_iff row).mp hown))
      · rintro ⟨⟨hrow, -⟩, hown⟩
        exact ⟨hrow, hown⟩
    · intro row hrow
      exact .inr ⟨row, by rw [← hrows] at hrow; exact hrow, rfl⟩
    · intro row hrow _
      rw [hdisk'] at hrow
      exact ((hkept row).mp hrow).1
    · intro row hrow
      rw [hdisk'] at hrow
      exact .inl ⟨row, ((hkept row).mp hrow).1, rfl⟩
    · intro row hrow _
      rw [hdisk', hkept]
      cases hsame : sameJournalRowIdentity row startup with
      | false => exact .inl ⟨hrow, rfl⟩
      | true =>
        refine .inr (.inr ⟨⟨orphan, rfl, startup, hmemStartup, hsameOrphan, hsame⟩, ?_⟩)
        rintro ⟨-, hfalse⟩
        cases hfalse
    · intro row hrow
      exact (List.mem_filter.mp hrow).1

/-- **One call**, where a noted row has a finite start and a job of no other owner. -/
theorem JobJournal.call_spec (hstartup : ∀ row ∈ (journal.readOnce isAlive file).startupOrphans,
      row.owner ≠ some journal.self) (call : JournalCall)
    (hnote : ∀ row, call = .note row → row.startedAt.isFinite = true ∧
      ∀ other ∈ diskRows file, other.jobId = row.jobId → journal.ownedHere other = true) :
    journal.CallSpec isAlive file call (journal.call isAlive file call).1
      (journal.call isAlive file call).2 := by
  have hrows := (self_readOnce journal isAlive file).2
  have hfound : ∀ jobId row, (journal.readOnce isAlive file).rows.rows.get? jobId = some row →
      row ∈ journal.rows.rows.values := by
    intro jobId row hget
    rw [hrows] at hget
    exact OrderedMap.mem_values_of_get? hget
  cases call with
  | note row => exact JobJournal.note_spec hdisk h row (hnote row rfl).1 (hnote row rfl).2
  | noteStartingTree jobId tree scope =>
    rw [JobJournal.call, JobJournal.noteStartingTree]
    cases hget : (journal.readOnce isAlive file).rows.rows.get? jobId with
    | none =>
      exact .idle _ hdisk h _
    | some row =>
      simp only
      split
      · exact .update hdisk h _ (hfound jobId row hget) rfl rfl rfl
      · split
        · exact .update hdisk h _ (hfound jobId row hget) rfl rfl rfl
        · exact .idle _ hdisk h _
  | noteBrokerExecution jobId executionId =>
    rw [JobJournal.call, JobJournal.noteBrokerExecution]
    cases hget : (journal.readOnce isAlive file).rows.rows.get? jobId with
    | none =>
      exact .idle _ hdisk h _
    | some row =>
      simp only
      split
      · exact .update hdisk h _ (hfound jobId row hget) rfl rfl rfl
      · exact .idle _ hdisk h _
  | claimBrokerOrphan jobId => exact JobJournal.claimBrokerOrphan_spec hdisk h jobId
  | clear jobId => exact JobJournal.clear_spec hdisk h jobId
  | clearOrphan orphan => exact JobJournal.clearOrphan_spec hdisk h hstartup orphan
  | orphans => exact .idle _ hdisk h _
  | «foreign» jobId =>
    rw [JobJournal.call, JobJournal.foreign]
    split
    · exact .idle _ hdisk h _
    · exact .idle _ hdisk h _
  | foreignRows => exact .idle _ hdisk h _

end OneCall

end LlmRelay
