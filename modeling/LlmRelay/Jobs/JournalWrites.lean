import LlmRelay.Jobs.JournalCalls

/-!
# Which rows a journal removes

A call may find the lock or the disk unavailable. Whatever happens, a row that leaves the file is
one that the call is about, or an own one that the journal no longer has.

## Main definitions

* `JobJournal.WriteSpec`: what a call that may fail leaves behind.

## Main results

* `JobJournal.WriteSpec.publish`: a rewrite of the file;
* `note_writes`, `noteStartingTree_writes`, `noteBrokerExecution_writes`,
  `claimBrokerOrphan_writes`, `clear_writes`, `clearOrphan_writes`: the calls.
-/

namespace LlmRelay

open Ecma

/-- The jobs that a journal has. -/
def JobJournal.Has (journal : JobJournal) (jobId : Text) : Prop :=
  ∃ held ∈ journal.rows.rows.values, held.jobId = jobId

/-- Own rows carry the token and a finite start. -/
def JobJournal.OwnRows (journal : JobJournal) : Prop :=
  ∀ row ∈ journal.rows.rows.values,
    row.owner = some journal.self ∧ row.startedAt.isFinite = true

/-- What a call leaves behind where it may remove the rows that satisfy `gone`. -/
structure JobJournal.WriteSpec (journal : JobJournal) (isAlive : Nat → Bool) (file : Option Json)
    (gone : JournalRow → Prop) (journal' : JobJournal) (file' : Option Json) : Prop where
  self : journal'.self = journal.self
  sound : SoundDisk file'
  rows : journal'.OwnRows
  added : ∀ row ∈ diskRows file', row ∈ diskRows file ∨ row.owner = some journal.self
  own : ∀ row ∈ diskRows file', row.owner = some journal.self →
    journal'.Has row.jobId ∨ (row ∈ diskRows file ∧ (¬ journal.Has row.jobId ∨ gone row))
  removed : ∀ row ∈ diskRows file, (∃ row' ∈ diskRows file', row'.jobId = row.jobId) ∨
    (row.owner = some journal.self ∧ ¬ journal.Has row.jobId) ∨ gone row
  startup : ∀ row ∈ journal'.startupOrphans,
    row ∈ (journal.readOnce isAlive file).startupOrphans

section Writes

variable {journal : JobJournal} {isAlive : Nat → Bool} {file : Option Json}

theorem has_readOnce (journal : JobJournal) (isAlive : Nat → Bool) (file : Option Json)
    (jobId : Text) : (journal.readOnce isAlive file).Has jobId ↔ journal.Has jobId := by
  rw [JobJournal.Has, (self_readOnce journal isAlive file).2]
  rfl

theorem JobJournal.OwnRows.readOnce (h : journal.OwnRows) :
    (journal.readOnce isAlive file).OwnRows := by
  obtain ⟨hself, hrows⟩ := self_readOnce journal isAlive file
  rw [JobJournal.OwnRows, hself, hrows]
  exact h

theorem JobJournal.WriteSpec.idle (isAlive : Nat → Bool) (hdisk : SoundDisk file)
    (h : journal.OwnRows) (gone : JournalRow → Prop) :
    journal.WriteSpec isAlive file gone (journal.readOnce isAlive file) file where
  self := (self_readOnce journal isAlive file).1
  sound := hdisk
  rows := h.readOnce
  added := fun _ hrow => .inl hrow
  own := by
    intro row hrow _
    by_cases hhas : journal.Has row.jobId
    · exact .inl ((has_readOnce journal isAlive file _).mpr hhas)
    · exact .inr ⟨hrow, .inl hhas⟩
  removed := fun row hrow => .inl ⟨row, hrow, rfl⟩
  startup := fun _ hrow => hrow

variable (hdisk : SoundDisk file)

include hdisk

/-- **A rewrite** that may fail. -/
theorem JobJournal.WriteSpec.publish {written : JobJournal} (hself : written.self = journal.self)
    (hstartup : written.startupOrphans = (journal.readOnce isAlive file).startupOrphans)
    (hrows : written.OwnRows) {gone : JournalRow → Prop}
    (hkept : ∀ jobId, journal.Has jobId → written.Has jobId ∨
      ∀ row, row.owner = some journal.self → row.jobId = jobId → gone row) (available : Bool) :
    journal.WriteSpec isAlive file gone written (written.persist available file) := by
  -- a job that the journal had and has no more is one that may go
  have hlost : ∀ row, row.owner = some journal.self → ¬ written.Has row.jobId →
      ¬ journal.Has row.jobId ∨ gone row := by
    intro row howner hhas
    by_cases hhad : journal.Has row.jobId
    · rcases hkept row.jobId hhad with hstill | hgone
      · exact absurd hstill hhas
      · exact .inr (hgone row howner rfl)
    · exact .inl hhad
  cases available with
  | false =>
    refine ⟨hself, hdisk, hrows, fun row hrow => .inl hrow, ?_, fun row hrow =>
      .inl ⟨row, hrow, rfl⟩, fun row hrow => hstartup ▸ hrow⟩
    intro row hrow howner
    by_cases hhas : written.Has row.jobId
    · exact .inl hhas
    · exact .inr ⟨hrow, hlost row howner hhas⟩
  | true =>
    obtain ⟨hsound, hmem⟩ := mem_persist_iff written hdisk fun row hrow => (hrows row hrow).2
    refine ⟨hself, hsound, hrows, ?_, ?_, ?_, fun row hrow => hstartup ▸ hrow⟩
    · intro row hrow
      rcases (hmem row).mp hrow with hnew | ⟨hold, -, -⟩
      · exact .inr (hself ▸ (hrows row hnew).1)
      · exact .inl hold
    · intro row hrow howner
      rcases (hmem row).mp hrow with hnew | ⟨-, hforeign, -⟩
      · exact .inl ⟨row, hnew, rfl⟩
      · rw [← hself] at howner
        rw [(ownedHere_iff row).mpr howner] at hforeign
        cases hforeign
    · intro row hrow
      by_cases hhas : written.Has row.jobId
      · obtain ⟨held, hheld, hjob⟩ := hhas
        exact .inl ⟨held, (hmem held).mpr (.inl hheld), hjob⟩
      · cases hown : written.ownedHere row with
        | false =>
          refine .inl ⟨row, (hmem row).mpr (.inr ⟨hrow, hown, fun held hheld heq => ?_⟩), rfl⟩
          exact hhas ⟨held, hheld, heq.symm⟩
        | true =>
          have howner := (ownedHere_iff row).mp hown
          rw [hself] at howner
          rcases hlost row howner hhas with hnot | hgone
          · exact .inr (.inl ⟨howner, hnot⟩)
          · exact .inr (.inr hgone)

variable (h : journal.OwnRows)

include h

theorem JobJournal.WriteSpec.put {row : JournalRow}
    (howner : row.owner = some journal.self) (hfinite : row.startedAt.isFinite = true)
    (gone : JournalRow → Prop) (available : Bool) {written : JobJournal}
    (hself : written.self = journal.self)
    (hstartup : written.startupOrphans = (journal.readOnce isAlive file).startupOrphans)
    (hrows : written.rows = journal.rows.put row) :
    journal.WriteSpec isAlive file gone (written.publish available file).1
      (written.publish available file).2 := by
  refine JobJournal.WriteSpec.publish hdisk hself hstartup ?_ ?_ available
  · intro other hother
    rw [hself]
    rw [hrows] at hother
    rcases Table.mem_values_put hother with rfl | hold
    · exact ⟨howner, hfinite⟩
    · exact h other hold
  · rintro jobId ⟨held, hheld, hjob⟩
    left
    rw [JobJournal.Has, hrows]
    by_cases hsame : held.jobId = row.jobId
    · exact ⟨row, Table.mem_values_put_iff.mpr (.inl rfl), hsame.symm.trans hjob⟩
    · exact ⟨held, Table.mem_values_put_iff.mpr (.inr ⟨hheld, hsame⟩), hjob⟩

variable (available : Bool)

include available

theorem note_writes
    (row : JournalRow) (hfinite : row.startedAt.isFinite = true) (gone : JournalRow → Prop) :
    journal.WriteSpec isAlive file gone (journal.note isAlive available file row).1
      (journal.note isAlive available file row).2 := by
  obtain ⟨hself, hrows⟩ := self_readOnce journal isAlive file
  refine .put hdisk h ?_ ?_ gone available hself rfl (congrArg (Table.put · _) hrows)
  · exact congrArg some hself
  · exact hfinite

theorem noteStartingTree_writes
    (jobId : Text) (tree : TreeSnapshot) (scope : Option (List Text)) (gone : JournalRow → Prop) :
    journal.WriteSpec isAlive file gone
      (journal.noteStartingTree isAlive available file jobId tree scope).1
      (journal.noteStartingTree isAlive available file jobId tree scope).2 := by
  obtain ⟨hself, hrows⟩ := self_readOnce journal isAlive file
  rw [JobJournal.noteStartingTree]
  cases hget : (journal.readOnce isAlive file).rows.rows.get? jobId with
  | none =>
    exact .idle _ hdisk h gone
  | some row =>
    rw [hrows] at hget
    have hrow := h row (OrderedMap.mem_values_of_get? hget)
    simp only [hrows]
    split
    · exact .put hdisk h (by exact hrow.1) (by exact hrow.2) gone available hself rfl rfl
    · split
      · exact .put hdisk h (by exact hrow.1) (by exact hrow.2) gone available hself rfl rfl
      · exact .idle _ hdisk h gone

theorem noteBrokerExecution_writes (jobId executionId : Text) (gone : JournalRow → Prop) :
    journal.WriteSpec isAlive file gone
      (journal.noteBrokerExecution isAlive available file jobId executionId).1
      (journal.noteBrokerExecution isAlive available file jobId executionId).2 := by
  obtain ⟨hself, hrows⟩ := self_readOnce journal isAlive file
  rw [JobJournal.noteBrokerExecution]
  cases hget : (journal.readOnce isAlive file).rows.rows.get? jobId with
  | none =>
    exact .idle _ hdisk h gone
  | some row =>
    rw [hrows] at hget
    have hrow := h row (OrderedMap.mem_values_of_get? hget)
    simp only [hrows]
    split
    · exact .put hdisk h (by exact hrow.1) (by exact hrow.2) gone available hself rfl rfl
    · exact .idle _ hdisk h gone

theorem clear_writes (jobId : Text) :
    journal.WriteSpec isAlive file (fun row => row.owner = some journal.self ∧ row.jobId = jobId)
      (journal.clear isAlive available file jobId).1
      (journal.clear isAlive available file jobId).2 := by
  obtain ⟨hself, hrows⟩ := self_readOnce journal isAlive file
  rw [JobJournal.clear]
  by_cases hmissing : ((journal.readOnce isAlive file).rows.rows.get? jobId).isNone = true
  · rw [if_pos hmissing]
    exact .idle _ hdisk h _
  · rw [if_neg hmissing, hrows]
    have hkept : ∀ row, row ∈ (journal.rows.removeWhere fun row => row.jobId = jobId).rows.values ↔
        row ∈ journal.rows.rows.values ∧ row.jobId ≠ jobId := by
      intro row
      simp
    refine .publish hdisk ?_ ?_ ?_ ?_ available
    · exact hself
    · rfl
    · intro row hrow
      obtain ⟨howner, hfinite⟩ := h row ((hkept row).mp hrow).1
      exact ⟨howner.trans (congrArg some hself.symm), hfinite⟩
    · rintro other ⟨held, hheld, hjob⟩
      by_cases hsame : held.jobId = jobId
      · exact .inr fun row howner hrow => ⟨howner, hrow.trans (hjob.symm.trans hsame)⟩
      · exact .inl ⟨held, (hkept held).mpr ⟨hheld, hsame⟩, hjob⟩

theorem claimBrokerOrphan_writes (jobId : Text) (gone : JournalRow → Prop) :
    journal.WriteSpec isAlive file gone (journal.claimBrokerOrphan isAlive available file jobId).2.1
      (journal.claimBrokerOrphan isAlive available file jobId).2.2 := by
  obtain ⟨hself, hrows⟩ := self_readOnce journal isAlive file
  cases available with
  | false => exact .idle _ hdisk h gone
  | true =>
    rcases journal.claimBrokerOrphan_cases hdisk jobId with
      ⟨file', hsound, hdisk', hcall⟩ | ⟨row, hrow, file', hjob, -, hsound, hcall, hmem⟩
    · rw [hcall]
      -- the file is rewritten with the rows that it had
      obtain ⟨-, -, hown, -, howns, -, hstartup⟩ :=
        JobJournal.WriteSpec.idle isAlive hdisk h gone
      refine ⟨hself, hsound, hown, fun row hrow => .inl (hdisk' ▸ hrow), ?_,
        fun row hrow => .inl ⟨row, hdisk'.symm ▸ hrow, rfl⟩, hstartup⟩
      intro row hrow
      rw [hdisk'] at hrow
      exact howns row hrow
    · rw [hcall]
      refine ⟨hself, hsound, ?_, ?_, ?_, ?_, fun row hrow => hrow⟩
      · intro other hother
        rcases Table.mem_values_put hother with rfl | hold
        · exact ⟨congrArg some hself.symm, hdisk.finite row hrow⟩
        · rw [hself]
          exact h other hold
      · intro other hother
        rcases (hmem other).mp hother with rfl | ⟨hold, -⟩
        · exact .inr rfl
        · exact .inl hold
      · intro other hother howner
        rcases (hmem other).mp hother with rfl | ⟨hold, hne⟩
        · exact .inl ⟨_, Table.mem_values_put_iff.mpr (.inl rfl), rfl⟩
        · by_cases hhas : journal.Has other.jobId
          · obtain ⟨held, hheld, hsame⟩ := hhas
            refine .inl ⟨held, Table.mem_values_put_iff.mpr (.inr ⟨hheld, ?_⟩), hsame⟩
            exact fun heq => hne (hsame.symm.trans (heq.trans hjob))
          · exact .inr ⟨hold, .inl hhas⟩
      · intro other hother
        by_cases heq : other.jobId = jobId
        · exact .inl ⟨_, (hmem _).mpr (.inl rfl), hjob.trans heq.symm⟩
        · exact .inl ⟨other, (hmem other).mpr (.inr ⟨hother, heq⟩), rfl⟩

theorem clearOrphan_writes (orphan : JournalRow) :
    journal.WriteSpec isAlive file (fun row => sameJournalRowIdentity row orphan = true)
      (journal.clearOrphan isAlive available file orphan).1
      (journal.clearOrphan isAlive available file orphan).2 := by
  obtain ⟨hself, hrows⟩ := self_readOnce journal isAlive file
  rw [JobJournal.clearOrphan]
  cases hfind : (journal.readOnce isAlive file).startupOrphans.find? fun row =>
      sameJournalRowIdentity row orphan with
  | none =>
    exact .idle _ hdisk h _
  | some startup =>
    cases available with
    | false =>
      exact .idle _ hdisk h _
    | true =>
      have hsameOrphan := List.find?_some hfind
      have hkept : ∀ row, row ∈ (diskRows file).filter (fun row =>
          !sameJournalRowIdentity row startup) ↔
            row ∈ diskRows file ∧ sameJournalRowIdentity row startup = false := by
        intro row
        simp
      obtain ⟨file', hfile, hsound, hdisk'⟩ := hdisk.transact
        (fun disk => disk.filter fun row => !sameJournalRowIdentity row startup)
        (hdisk.nodup.sublist (List.filter_sublist.map _))
        (fun row hrow => hdisk.finite row ((hkept row).mp hrow).1)
      simp only [hfile, if_true]
      obtain ⟨-, -, hown, -, howns, -, -⟩ := JobJournal.WriteSpec.idle isAlive hdisk h
        fun row => sameJournalRowIdentity row orphan = true
      refine ⟨hself, hsound, hown, ?_, ?_, ?_, fun row hrow => List.mem_of_mem_filter hrow⟩
      · intro row hrow
        rw [hdisk'] at hrow
        exact .inl ((hkept row).mp hrow).1
      · intro row hrow
        rw [hdisk'] at hrow
        exact howns row ((hkept row).mp hrow).1
      · intro row hrow
        rw [hdisk']
        cases hsame : sameJournalRowIdentity row startup with
        | false => exact .inl ⟨row, (hkept row).mpr ⟨hrow, hsame⟩, rfl⟩
        | true => exact .inr (.inr (sameJournalRowIdentity_trans hsame hsameOrphan))

end Writes

end LlmRelay
