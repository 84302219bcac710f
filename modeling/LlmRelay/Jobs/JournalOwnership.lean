import LlmRelay.Jobs.JournalCalls

/-!
# Who owns a row of the journal

Any number of processes share one journal file. A row belongs to the live process that
published or claimed it: no other process changes it. Once its owner is dead, it stays until
one live process claims it or acknowledges it.

## Main definitions

* `JournalWorld`: the file, the processes, and who created which job;
* `JournalWorld.step`: the start, the death, or one call of a process;
* `JournalWorld.Sound`: the invariant of all runs.

## Main results

* `JournalWorld.Sound.step`, `JournalWorld.Sound.run`: every allowed run keeps the invariant;
* `journal_ownership`: what one event does to the rows on disk, after any run.
-/

namespace LlmRelay

open Ecma

/-! ## Tokens -/

/-- The token of a journal; `stamp` is the clock and a counter. -/
def instanceToken (pid : Nat) (stamp : String) : Text :=
  text (toString pid ++ "-" ++ stamp)

theorem pid_eq_of_instanceToken_eq {p q : Nat} {s t : String}
    (h : instanceToken p s = instanceToken q t) : p = q := by
  have hlists := congrArg String.toList (text_injective h)
  simp only [String.toList_append, List.append_assoc] at hlists
  have hdigits : ∀ n (r : String),
      ((toString n).toList ++ ("-".toList ++ r.toList)).takeWhile (· ≠ '-') = Nat.toDigits 10 n := by
    intro n r
    change (n.repr.toList ++ _).takeWhile _ = _
    rw [Nat.toList_repr, List.takeWhile_append_of_pos]
    · simp
    · intro c hc
      have hdigit := Nat.isDigit_of_mem_toDigits (by decide) (by decide) hc
      rw [decide_eq_true_eq]
      rintro rfl
      exact absurd hdigit (by decide)
  have hkept := congrArg (List.takeWhile (· ≠ '-')) hlists
  rw [hdigits, hdigits] at hkept
  have hp := Nat.ofDigitChars_toDigits (n := p) (show 1 < 10 by decide) (by decide)
  rw [hkept, Nat.ofDigitChars_toDigits (by decide) (by decide)] at hp
  exact hp.symm

/-! ## Any number of processes -/

/-- A process and its journal. -/
structure JournalProcess where
  journal : JobJournal
  alive : Bool

/-- The file, the processes by pid, the pids of every process so far, and which process
created which job. -/
structure JournalWorld where
  file : Option Json
  processes : Nat → Option JournalProcess
  seen : List Nat
  creators : Text → Option Nat

/-- What may happen next: a process starts, dies, or makes one call. -/
inductive JournalEvent where
  | start (owner : JournalOwner)
  | die (pid : Nat)
  | call (pid : Nat) (call : JournalCall)

namespace JournalWorld

/-- A file that earlier processes left behind; they are all dead. -/
def initial (file : Option Json) : JournalWorld where
  file := file
  processes := fun _ => none
  seen := 0 :: (diskRows file).filterMap fun row => row.owner.map (·.pid)
  creators := fun jobId => if jobId ∈ (diskRows file).map (·.jobId) then some 0 else none

/-- `isAlive`, truthfully. -/
def isAlive (world : JournalWorld) (pid : Nat) : Bool :=
  (world.processes pid).any (·.alive)

/-- The process that created the job of a noted row. -/
def noteCreator (creators : Text → Option Nat) (pid : Nat) : JournalCall → Text → Option Nat
  | .note row =>
    if (creators row.jobId).isSome then creators else Function.update creators row.jobId (some pid)
  | _ => creators

/-- One event; the dead make no calls. -/
def step (world : JournalWorld) : JournalEvent → JournalWorld
  | .start owner =>
    { world with
      processes := Function.update world.processes owner.pid (some ⟨.create owner, true⟩)
      seen := owner.pid :: world.seen }
  | .die pid =>
    { world with
      processes := Function.update world.processes pid
        ((world.processes pid).map fun process => { process with alive := false }) }
  | .call pid call =>
    match world.processes pid with
    | none => world
    | some process =>
      if process.alive then
        let (journal, file) := process.journal.call world.isAlive world.file call
        { world with
          file
          processes := Function.update world.processes pid (some ⟨journal, true⟩)
          creators := noteCreator world.creators pid call }
      else world

/-- The events of a run, one after another. -/
def run (world : JournalWorld) (events : List JournalEvent) : JournalWorld :=
  events.foldl step world

/-- Pids are distinct, and a process notes the jobs that it created or has taken over. -/
def Allowed (world : JournalWorld) : JournalEvent → Prop
  | .start owner =>
    owner.pid ∉ world.seen ∧ ∃ stamp, owner.instance_ = instanceToken owner.pid stamp
  | .call pid (.note row) =>
    row.startedAt.isFinite = true ∧
      (world.creators row.jobId = none ∨ world.creators row.jobId = some pid ∨
        ∃ process, world.processes pid = some process ∧
          ∃ own ∈ process.journal.rows.rows.values, own.jobId = row.jobId)
  | _ => True

/-- Every event of the run is allowed when it happens. -/
def AllowedRun : JournalWorld → List JournalEvent → Prop
  | _, [] => True
  | world, event :: rest => world.Allowed event ∧ AllowedRun (world.step event) rest

/-! ### The invariant -/

/-- What holds of every world: live journals hold the rows with their token, dead owners stay
dead, and the job of a live creator is its own. -/
structure Sound (world : JournalWorld) : Prop where
  disk : SoundDisk world.file
  filed : ∀ {pid process}, world.processes pid = some process →
    process.journal.self.pid = pid ∧ pid ∈ world.seen ∧
      ∃ stamp, process.journal.self.instance_ = instanceToken pid stamp
  holds : ∀ {pid process}, world.processes pid = some process → process.alive = true →
    process.journal.Holds world.file
  owners : ∀ row ∈ diskRows world.file, ∀ owner, row.owner = some owner →
    owner.pid ∈ world.seen ∧
      ∀ process, world.processes owner.pid = some process → owner = process.journal.self
  startup : ∀ {pid process}, world.processes pid = some process →
    ∀ row ∈ process.journal.startupOrphans, ∀ owner, row.owner = some owner →
      owner.pid ∈ world.seen ∧ world.isAlive owner.pid = false
  created : ∀ row ∈ diskRows world.file, ∃ pid, world.creators row.jobId = some pid ∧
    pid ∈ world.seen ∧ ∀ process, world.processes pid = some process → process.alive = true →
      row.owner = some process.journal.self

section Invariant

variable {world : JournalWorld} {pid : Nat} {process : JournalProcess}

theorem isAlive_of_process (h : world.processes pid = some process) :
    world.isAlive pid = process.alive := by
  simp [isAlive, h]

theorem sound_initial {file : Option Json} (hfile : SoundDisk file) : (initial file).Sound where
  disk := hfile
  filed := fun h => nomatch h
  holds := fun h => nomatch h
  owners := by
    intro row hrow owner howner
    refine ⟨List.mem_cons_of_mem 0 (List.mem_filterMap.mpr ⟨row, hrow, ?_⟩), fun _ h => nomatch h⟩
    rw [howner]
    rfl
  startup := fun h => nomatch h
  created := by
    intro row hrow
    refine ⟨0, ?_, List.mem_cons_self, fun _ h => nomatch h⟩
    exact if_pos (List.mem_map_of_mem hrow)

variable {process' : JournalProcess} {row : JournalRow}

variable (h : world.Sound)

include h

variable (hprocess : world.processes pid = some process)

include hprocess

theorem Sound.ownedElsewhere_of_alive {other : Nat}
    (hother : world.processes other = some process') (halive : process'.alive = true)
    (hne : other ≠ pid) (howner : row.owner = some process'.journal.self) :
    process.journal.ownedElsewhere world.isAlive row = true := by
  obtain ⟨hpid, -, stamp, htoken⟩ := h.filed hprocess
  obtain ⟨hpid', -, stamp', htoken'⟩ := h.filed hother
  have hinstance : process'.journal.self.instance_ ≠ process.journal.self.instance_ := by
    rw [htoken, htoken']
    exact fun heq => hne (pid_eq_of_instanceToken_eq heq)
  rw [JobJournal.ownedElsewhere, howner]
  simp only
  rw [if_neg hinstance, hpid, hpid', if_neg hne, isAlive_of_process hother, halive]

theorem Sound.startup_readOnce
    (hrow : row ∈ (process.journal.readOnce world.isAlive world.file).startupOrphans)
    {owner : JournalOwner} (howner : row.owner = some owner) :
    owner.pid ∈ world.seen ∧ world.isAlive owner.pid = false := by
  rw [JobJournal.readOnce] at hrow
  split at hrow
  · exact h.startup hprocess row hrow owner howner
  · -- the rows were read in this call
    obtain ⟨hdisk, hfree⟩ := List.mem_filter.mp hrow
    obtain ⟨hseen, hsame⟩ := h.owners row hdisk owner howner
    refine ⟨hseen, ?_⟩
    rw [Bool.and_eq_true, decide_eq_true_eq, howner, Bool.not_eq_true',
      JobJournal.ownedElsewhere, howner] at hfree
    obtain ⟨hinstance, helsewhere⟩ := hfree
    have hinstance' : owner.instance_ ≠ process.journal.self.instance_ :=
      fun heq => hinstance (congrArg some heq)
    have hpid : owner.pid ≠ process.journal.self.pid := by
      intro heq
      rw [(h.filed hprocess).1] at heq
      exact hinstance' (congrArg JournalOwner.instance_ (hsame process (heq ▸ hprocess)))
    simp only at helsewhere
    rw [if_neg hinstance', if_neg hpid] at helsewhere
    exact helsewhere

variable (halive : process.alive = true)

include halive

theorem Sound.startup_foreign :
    ∀ row ∈ (process.journal.readOnce world.isAlive world.file).startupOrphans,
      row.owner ≠ some process.journal.self := by
  intro row hrow howner
  have hdead := (h.startup_readOnce hprocess hrow howner).2
  rw [(h.filed hprocess).1, isAlive_of_process hprocess, halive] at hdead
  cases hdead

theorem Sound.note_free {noted : JournalRow} (hallowed : world.Allowed (.call pid (.note noted))) :
    ∀ row ∈ diskRows world.file, row.jobId = noted.jobId →
      process.journal.ownedHere row = true := by
  intro row hrow hjob
  obtain ⟨creator, hcreator, -, howned⟩ := h.created row hrow
  rw [hjob] at hcreator
  rcases hallowed.2 with hnone | hself | ⟨process', hprocess', own, hown, hsame⟩
  · rw [hnone] at hcreator
    cases hcreator
  · rw [hself] at hcreator
    cases hcreator
    exact (ownedHere_iff row).mpr (howned process hprocess halive)
  · rw [hprocess] at hprocess'
    cases hprocess'
    exact (h.holds hprocess halive).free h.disk hown hrow (hjob.trans hsame.symm)

theorem Sound.call_spec {call : JournalCall} (hallowed : world.Allowed (.call pid call)) :
    process.journal.CallSpec world.isAlive world.file call
      (process.journal.call world.isAlive world.file call).1
      (process.journal.call world.isAlive world.file call).2 := by
  refine JobJournal.call_spec h.disk (h.holds hprocess halive)
    (h.startup_foreign hprocess halive) call ?_
  rintro row rfl
  exact ⟨hallowed.1, h.note_free hprocess halive hallowed⟩

theorem Sound.mem_of_alive {call : JournalCall}
    (hallowed : world.Allowed (.call pid call)) {other : Nat}
    (hother : world.processes other = some process') (halive' : process'.alive = true)
    (hne : other ≠ pid) (hrow : row ∈ diskRows world.file)
    (howner : row.owner = some process'.journal.self) :
    row ∈ diskRows (process.journal.call world.isAlive world.file call).2 := by
  have hself := (h.filed hprocess).1
  have hself' := (h.filed hother).1
  have hforeign : process.journal.ownedHere row = false := by
    rw [← Bool.not_eq_true, ownedHere_iff, howner]
    intro heq
    have hsame : process'.journal.self = process.journal.self := Option.some.inj heq
    exact hne (by rw [← hself', hsame, hself])
  rcases (h.call_spec hprocess halive hallowed).kept row hrow hforeign with
    hkept | ⟨-, hfree, -⟩ | ⟨⟨orphan, -, startup, hstartup, -, hsame⟩, -⟩
  · exact hkept
  · rw [h.ownedElsewhere_of_alive hprocess hother halive' hne howner] at hfree
    cases hfree
  · -- its owner would be dead
    have hdead := (h.startup_readOnce hprocess hstartup
      ((owner_eq_of_sameJournalRowIdentity hsame).trans howner)).2
    rw [hself', isAlive_of_process hother, halive'] at hdead
    cases hdead

omit halive

omit hprocess

omit h

theorem step_call (hprocess : world.processes pid = some process) (halive : process.alive = true)
    (call : JournalCall) :
    world.step (.call pid call) =
      { world with
        file := (process.journal.call world.isAlive world.file call).2
        processes := Function.update world.processes pid
          (some ⟨(process.journal.call world.isAlive world.file call).1, true⟩)
        creators := noteCreator world.creators pid call } := by
  simp only [step, hprocess, if_pos halive]

theorem step_call_of_dead (call : JournalCall) (hdead : world.isAlive pid = false) :
    world.step (.call pid call) = world := by
  rw [step]
  cases hprocess : world.processes pid with
  | none => rfl
  | some process =>
    rw [isAlive_of_process hprocess] at hdead
    simp only [hdead, Bool.false_eq_true, if_false]

theorem exists_process_of_isAlive (h : world.isAlive pid = true) :
    ∃ process, world.processes pid = some process ∧ process.alive = true :=
  (Option.any_eq_true _ _).mp h

/-- A process that starts. -/
theorem Sound.start (h : world.Sound) {owner : JournalOwner}
    (hallowed : world.Allowed (.start owner)) : (world.step (.start owner)).Sound := by
  obtain ⟨hnew, stamp, htoken⟩ := hallowed
  have hold : ∀ {other}, other ∈ world.seen →
      Function.update world.processes owner.pid (some ⟨.create owner, true⟩) other
        = world.processes other := by
    intro other hother
    refine Function.update_of_ne ?_ _ _
    rintro rfl
    exact hnew hother
  -- a process is the new one, or it was there before
  have hcases : ∀ {other process},
      (world.step (.start owner)).processes other = some process →
        (other = owner.pid ∧ process = ⟨.create owner, true⟩) ∨
          (other ≠ owner.pid ∧ world.processes other = some process) := by
    intro other process hother
    exact Transition.party_cases hother
  refine ⟨h.disk, ?_, ?_, ?_, ?_, ?_⟩
  · intro other process hother
    rcases hcases hother with ⟨rfl, rfl⟩ | ⟨-, hother⟩
    · exact ⟨rfl, List.mem_cons_self, stamp, htoken⟩
    · obtain ⟨hpid, hseen, htoken'⟩ := h.filed hother
      exact ⟨hpid, List.mem_cons_of_mem _ hseen, htoken'⟩
  · intro other process hother halive
    rcases hcases hother with ⟨rfl, rfl⟩ | ⟨-, hother⟩
    · -- no row on disk carries the new token
      intro row
      constructor
      · intro hrow
        cases hrow
      · rintro ⟨hrow, hown⟩
        exact absurd (h.owners row hrow owner ((ownedHere_iff row).mp hown)).1 hnew
    · exact h.holds hother halive
  · intro row hrow owner' howner
    obtain ⟨hseen, hsame⟩ := h.owners row hrow owner' howner
    refine ⟨List.mem_cons_of_mem _ hseen, fun process hprocess => hsame process ?_⟩
    exact (hold hseen).symm.trans hprocess
  · intro other process hother row hrow owner' howner
    rcases hcases hother with ⟨rfl, rfl⟩ | ⟨-, hother⟩
    · cases hrow
    · obtain ⟨hseen, hdead⟩ := h.startup hother row hrow owner' howner
      refine ⟨List.mem_cons_of_mem _ hseen, ?_⟩
      have hsame := hold hseen
      rw [← hdead]
      exact congrArg (Option.any (·.alive)) hsame
  · intro row hrow
    obtain ⟨creator, hcreator, hseen, howned⟩ := h.created row hrow
    refine ⟨creator, hcreator, List.mem_cons_of_mem _ hseen, fun process hprocess => ?_⟩
    exact howned process ((hold hseen).symm.trans hprocess)

theorem Sound.die (h : world.Sound) (pid : Nat) : (world.step (.die pid)).Sound := by
  -- a process has the journal it had, and lives only if it did
  have hcases : ∀ {other process}, (world.step (.die pid)).processes other = some process →
      ∃ before, world.processes other = some before ∧ before.journal = process.journal ∧
        (process.alive = true → before.alive = true) := by
    intro other process hother
    change Function.update world.processes pid _ other = _ at hother
    by_cases heq : other = pid
    · subst heq
      rw [Function.update_self] at hother
      obtain ⟨before, hbefore, rfl⟩ := Option.map_eq_some_iff.mp hother
      exact ⟨before, hbefore, rfl, fun h => nomatch h⟩
    · rw [Function.update_of_ne heq] at hother
      exact ⟨process, hother, rfl, id⟩
  have hdead : ∀ other, world.isAlive other = false →
      (world.step (.die pid)).isAlive other = false := by
    intro other hother
    rw [← Bool.not_eq_true]
    intro halive
    obtain ⟨process, hprocess, halive⟩ := exists_process_of_isAlive halive
    obtain ⟨before, hbefore, -, himp⟩ := hcases hprocess
    rw [isAlive_of_process hbefore, himp halive] at hother
    cases hother
  refine ⟨h.disk, ?_, ?_, ?_, ?_, ?_⟩
  · intro other process hother
    obtain ⟨before, hbefore, hjournal, -⟩ := hcases hother
    exact hjournal ▸ h.filed hbefore
  · intro other process hother halive
    obtain ⟨before, hbefore, hjournal, himp⟩ := hcases hother
    exact hjournal ▸ h.holds hbefore (himp halive)
  · intro row hrow owner howner
    obtain ⟨hseen, hsame⟩ := h.owners row hrow owner howner
    refine ⟨hseen, fun process hprocess => ?_⟩
    obtain ⟨before, hbefore, hjournal, -⟩ := hcases hprocess
    exact hjournal ▸ hsame before hbefore
  · intro other process hother row hrow owner howner
    obtain ⟨before, hbefore, hjournal, -⟩ := hcases hother
    rw [← hjournal] at hrow
    obtain ⟨hseen, hnot⟩ := h.startup hbefore row hrow owner howner
    exact ⟨hseen, hdead _ hnot⟩
  · intro row hrow
    obtain ⟨creator, hcreator, hseen, howned⟩ := h.created row hrow
    refine ⟨creator, hcreator, hseen, fun process hprocess halive => ?_⟩
    obtain ⟨before, hbefore, hjournal, himp⟩ := hcases hprocess
    exact hjournal ▸ howned before hbefore (himp halive)

theorem noteCreator_of_some {creators : Text → Option Nat} {call : JournalCall} {jobId : Text}
    {creator : Nat} (h : creators jobId = some creator) :
    noteCreator creators pid call jobId = some creator := by
  unfold noteCreator
  split
  · split
    · exact h
    · rename_i row hnone
      have hne : jobId ≠ row.jobId := by
        rintro rfl
        rw [h] at hnone
        exact hnone rfl
      rw [Function.update_of_ne hne]
      exact h
  · exact h

/-- A call of a live process. -/
theorem Sound.call (h : world.Sound) (hprocess : world.processes pid = some process)
    (halive : process.alive = true) {call : JournalCall}
    (hallowed : world.Allowed (.call pid call)) : (world.step (.call pid call)).Sound := by
  have hspec := h.call_spec hprocess halive hallowed
  have hkept : ∀ {other : Nat} {process' : JournalProcess}, world.processes other = some process' →
      process'.alive = true → other ≠ pid → ∀ row ∈ diskRows world.file,
      row.owner = some process'.journal.self →
      row ∈ diskRows (process.journal.call world.isAlive world.file call).2 := by
    intro other process' hother halive' hne row hrow howner
    exact h.mem_of_alive hprocess halive hallowed hother halive' hne hrow howner
  rw [step_call hprocess halive]
  -- every other process is as before, and this one has its new journal
  have hcases : ∀ {other process'}, Function.update world.processes pid
      (some ⟨(process.journal.call world.isAlive world.file call).1, true⟩) other
        = some process' →
      (other = pid ∧ process' = ⟨(process.journal.call world.isAlive world.file call).1, true⟩) ∨
        (other ≠ pid ∧ world.processes other = some process') := by
    intro other process' hother
    exact Transition.party_cases hother
  have hdead : ∀ other, world.isAlive other = false → Option.any (·.alive) (Function.update
      world.processes pid (some ⟨(process.journal.call world.isAlive world.file call).1, true⟩)
        other) = false := by
    intro other hother
    have hne : other ≠ pid := by
      rintro rfl
      rw [isAlive_of_process hprocess, halive] at hother
      cases hother
    rw [Function.update_of_ne hne]
    exact hother
  refine ⟨hspec.sound, ?_, ?_, ?_, ?_, ?_⟩
  · intro other process' hother
    rcases hcases hother with ⟨rfl, rfl⟩ | ⟨-, hother⟩
    · rw [hspec.self]
      exact h.filed hprocess
    · exact h.filed hother
  · intro other process' hother halive'
    rcases hcases hother with ⟨rfl, rfl⟩ | ⟨hne, hother⟩
    · exact hspec.holds
    · intro row
      rw [h.holds hother halive' row, ownedHere_iff]
      constructor
      · rintro ⟨hrow, howner⟩
        exact ⟨hkept hother halive' hne row hrow howner, howner⟩
      · rintro ⟨hrow, howner⟩
        refine ⟨hspec.foreign row hrow ?_, howner⟩
        rw [← Bool.not_eq_true, ownedHere_iff, howner]
        intro heq
        have hpid := congrArg JournalOwner.pid (Option.some.inj heq)
        rw [(h.filed hother).1, (h.filed hprocess).1] at hpid
        exact hne hpid
  · intro row hrow owner howner
    cases hown : process.journal.ownedHere row with
    | true =>
      have hself : owner = process.journal.self :=
        Option.some.inj (howner.symm.trans ((ownedHere_iff row).mp hown))
      subst hself
      refine ⟨(h.filed hprocess).1 ▸ (h.filed hprocess).2.1, fun process' hprocess' => ?_⟩
      rcases hcases hprocess' with ⟨-, rfl⟩ | ⟨hne, -⟩
      · exact hspec.self.symm
      · exact absurd (h.filed hprocess).1 hne
    | false =>
      obtain ⟨hseen, hsame⟩ := h.owners row (hspec.foreign row hrow hown) owner howner
      refine ⟨hseen, fun process' hprocess' => ?_⟩
      rcases hcases hprocess' with ⟨heq, rfl⟩ | ⟨-, hprocess'⟩
      · exact (hsame process (heq ▸ hprocess)).trans hspec.self.symm
      · exact hsame process' hprocess'
  · intro other process' hother row hrow owner howner
    rcases hcases hother with ⟨rfl, rfl⟩ | ⟨-, hother⟩
    · obtain ⟨hseen, hnot⟩ := h.startup_readOnce hprocess (hspec.orphans row hrow) howner
      exact ⟨hseen, hdead _ hnot⟩
    · obtain ⟨hseen, hnot⟩ := h.startup hother row hrow owner howner
      exact ⟨hseen, hdead _ hnot⟩
  · intro row hrow
    have hown_of : ∀ before ∈ diskRows world.file, before.jobId = row.jobId →
        process.journal.ownedHere before = true → row.owner = some process.journal.self := by
      intro before hbefore hjob hown
      rw [← ownedHere_iff, ← Bool.not_eq_false]
      intro hforeign
      have heq : row = before :=
        List.inj_on_of_nodup_map h.disk.nodup (hspec.foreign row hrow hforeign) hbefore hjob.symm
      rw [heq, hown] at hforeign
      cases hforeign
    by_cases hdisk : ∃ before ∈ diskRows world.file, before.jobId = row.jobId
    · -- the job was on disk
      obtain ⟨before, hbefore, hjob⟩ := hdisk
      obtain ⟨creator, hcreator, hseen, howned⟩ := h.created before hbefore
      rw [hjob] at hcreator
      refine ⟨creator, noteCreator_of_some hcreator, hseen, fun process' hprocess' halive' => ?_⟩
      rcases hcases hprocess' with ⟨rfl, rfl⟩ | ⟨hne, hprocess'⟩
      · rw [hspec.self]
        exact hown_of before hbefore hjob
          ((ownedHere_iff before).mpr (howned process hprocess halive))
      · have howner := howned process' hprocess' halive'
        have hstill := hkept hprocess' halive' hne before hbefore howner
        rw [List.inj_on_of_nodup_map hspec.sound.nodup hrow hstill hjob.symm]
        exact howner
    · -- the job is noted in this call, and it is this process that created it
      have hown : row.owner = some process.journal.self := by
        rw [← ownedHere_iff, ← Bool.not_eq_false]
        exact fun hforeign => hdisk ⟨row, hspec.foreign row hrow hforeign, rfl⟩
      rcases hspec.created row hrow with hbefore | ⟨noted, rfl, hjob⟩
      · exact absurd hbefore hdisk
      have hcreator : noteCreator world.creators pid (.note noted) row.jobId = some pid := by
        rcases hallowed.2 with hnone | hself | ⟨process', hprocess', own, hownRow, hsame⟩
        · rw [hjob] at hnone
          simp [noteCreator, hjob, hnone]
        · rw [hjob] at hself
          exact noteCreator_of_some hself
        · rw [hprocess] at hprocess'
          cases hprocess'
          exact absurd ⟨own, ((h.holds hprocess halive own).mp hownRow).1, hsame.trans hjob⟩ hdisk
      refine ⟨pid, hcreator, (h.filed hprocess).2.1, fun process' hprocess' _ => ?_⟩
      rcases hcases hprocess' with ⟨-, rfl⟩ | ⟨hne, -⟩
      · rw [hspec.self]
        exact hown
      · exact absurd rfl hne

/-- **The step lemma**: every allowed event keeps the invariant. -/
theorem Sound.step (h : world.Sound) {event : JournalEvent} (hallowed : world.Allowed event) :
    (world.step event).Sound := by
  cases event with
  | start owner => exact h.start hallowed
  | die pid => exact h.die pid
  | call pid call =>
    cases hlives : world.isAlive pid with
    | false => exact (step_call_of_dead call hlives).symm ▸ h
    | true =>
      obtain ⟨process, hprocess, halive⟩ := exists_process_of_isAlive hlives
      exact h.call hprocess halive hallowed

/-- **The run lemma**: every allowed run keeps it. -/
theorem Sound.run (h : world.Sound) {events : List JournalEvent}
    (hallowed : world.AllowedRun events) : (world.run events).Sound := by
  induction events generalizing world with
  | nil => exact h
  | cons event rest ih => exact ih (h.step hallowed.1) hallowed.2

end Invariant

end JournalWorld

/-! ## Ownership -/

/-- The process is alive and has the journal. -/
def JournalWorld.Runs (world : JournalWorld) (pid : Nat) (journal : JobJournal) : Prop :=
  world.processes pid = some ⟨journal, true⟩

open JournalWorld in
/-- The row of a live process, after one more event. -/
theorem JournalWorld.Sound.published {world : JournalWorld} (h : world.Sound)
    {event : JournalEvent} (hevent : world.Allowed event) {pid : Nat} {journal : JobJournal}
    (hruns : world.Runs pid journal) {row : JournalRow} (hrow : row ∈ journal.rows.rows.values) :
    row ∈ diskRows (world.step event).file ∨ ∃ call, event = .call pid call ∧
      (call = .clear row.jobId ∨ ∃ row' ∈ diskRows (world.step event).file,
        row'.jobId = row.jobId ∧ row'.owner = some journal.self) := by
  obtain ⟨hdisk, hown⟩ := (h.holds hruns rfl row).mp hrow
  cases event with
  | start owner => exact .inl hdisk
  | die pid' => exact .inl hdisk
  | call pid' call =>
    cases hlives : world.isAlive pid' with
    | false =>
      rw [step_call_of_dead call hlives]
      exact .inl hdisk
    | true =>
      obtain ⟨process, hprocess, halive⟩ := exists_process_of_isAlive hlives
      rw [step_call hprocess halive]
      by_cases hsame : pid = pid'
      · -- its own call
        subst hsame
        rw [Runs, hprocess] at hruns
        cases hruns
        have hspec := h.call_spec hprocess halive hevent
        refine .inr ⟨call, rfl, ?_⟩
        rcases hspec.jobs row hrow with hclear | ⟨row', hrow', hjob⟩
        · exact .inl hclear
        · have hmem := (hspec.holds row').mp hrow'
          have howner := (ownedHere_iff row').mp hmem.2
          rw [hspec.self] at howner
          exact .inr ⟨row', hmem.1, hjob, howner⟩
      · exact .inl (h.mem_of_alive hprocess halive hevent hruns rfl hsame hdisk
          ((ownedHere_iff row).mp hown))

open JournalWorld in
theorem JournalWorld.Sound.orphaned {world : JournalWorld} (h : world.Sound)
    {event : JournalEvent} (hevent : world.Allowed event) {row : JournalRow}
    (hrow : row ∈ diskRows world.file)
    (hdead : ∀ owner, row.owner = some owner → world.isAlive owner.pid = false) :
    row ∈ diskRows (world.step event).file ∨
      ∃ pid journal', (world.step event).Runs pid journal' ∧
        ((event = .call pid (.claimBrokerOrphan row.jobId) ∧
            { row with owner := some journal'.self } ∈ journal'.rows.rows.values) ∨
          ∃ orphan, event = .call pid (.clearOrphan orphan) ∧
            sameJournalRowIdentity row orphan = true ∧
            row ∉ diskRows (world.step event).file) := by
  cases event with
  | start owner => exact .inl hrow
  | die pid => exact .inl hrow
  | call pid call =>
    cases hlives : world.isAlive pid with
    | false =>
      rw [step_call_of_dead call hlives]
      exact .inl hrow
    | true =>
      obtain ⟨process, hprocess, halive⟩ := exists_process_of_isAlive hlives
      have hspec := h.call_spec hprocess halive hevent
      have hforeign : process.journal.ownedHere row = false := by
        rw [← Bool.not_eq_true, ownedHere_iff]
        intro howner
        have hnot := hdead _ howner
        rw [(h.filed hprocess).1, isAlive_of_process hprocess, halive] at hnot
        cases hnot
      rw [step_call hprocess halive]
      rcases hspec.kept row hrow hforeign with
        hkept | ⟨rfl, -, hclaimed⟩ | ⟨⟨orphan, rfl, startup, -, hfound, hsame⟩, hgone⟩
      · exact .inl hkept
      · refine .inr ⟨pid, _, Function.update_self .., .inl ⟨rfl, ?_⟩⟩
        rw [hspec.self]
        exact hclaimed
      · exact .inr ⟨pid, _, Function.update_self .., .inr ⟨orphan, rfl,
          sameJournalRowIdentity_trans hsame hfound, hgone⟩⟩

/-- **Ownership of journal rows**, after any run of any number of processes.
The row that a live process published for a job is on disk, and stays there unaltered by every
event that is not a call of its process; such a call keeps a row for the job unless it clears it.
A row whose owner is dead stays until a live process claims it, and then has it, or
acknowledges it. No two live processes have rows of one job. -/
theorem journal_ownership {file : Option Json} (hfile : SoundDisk file)
    {events : List JournalEvent} (hrun : (JournalWorld.initial file).AllowedRun events)
    {event : JournalEvent} (hevent : ((JournalWorld.initial file).run events).Allowed event) :
    let world := (JournalWorld.initial file).run events
    let next := world.step event
    (∀ pid journal, world.Runs pid journal → ∀ row ∈ journal.rows.rows.values,
      row ∈ diskRows world.file ∧ row.owner = some journal.self ∧
        (row ∈ diskRows next.file ∨ ∃ call, event = .call pid call ∧
          (call = .clear row.jobId ∨ ∃ row' ∈ diskRows next.file,
            row'.jobId = row.jobId ∧ row'.owner = some journal.self))) ∧
    (∀ row ∈ diskRows world.file,
      (∀ owner, row.owner = some owner → world.isAlive owner.pid = false) →
      row ∈ diskRows next.file ∨
        ∃ pid journal', next.Runs pid journal' ∧
          ((event = .call pid (.claimBrokerOrphan row.jobId) ∧
              { row with owner := some journal'.self } ∈ journal'.rows.rows.values) ∨
            ∃ orphan, event = .call pid (.clearOrphan orphan) ∧
              sameJournalRowIdentity row orphan = true ∧ row ∉ diskRows next.file)) ∧
    ∀ p q journal journal', world.Runs p journal → world.Runs q journal' →
      ∀ row ∈ journal.rows.rows.values, ∀ row' ∈ journal'.rows.rows.values,
        row.jobId = row'.jobId → p = q := by
  intro world next
  have hsound : world.Sound := (JournalWorld.sound_initial hfile).run hrun
  refine ⟨?_, fun row hrow hdead => hsound.orphaned hevent hrow hdead, ?_⟩
  · intro pid journal hruns row hrow
    have hmem := (hsound.holds hruns rfl row).mp hrow
    exact ⟨hmem.1, (ownedHere_iff row).mp hmem.2, hsound.published hevent hruns hrow⟩
  · intro p q journal journal' hp hq row hrow row' hrow' hjob
    have hmem := (hsound.holds hp rfl row).mp hrow
    have hmem' := (hsound.holds hq rfl row').mp hrow'
    -- the two rows are one row on disk, which has one owner
    have heq : row = row' :=
      List.inj_on_of_nodup_map hsound.disk.nodup hmem.1 hmem'.1 hjob
    subst heq
    have hself := ((ownedHere_iff row).mp hmem.2).symm.trans ((ownedHere_iff row).mp hmem'.2)
    have hpid := congrArg JournalOwner.pid (Option.some.inj hself)
    rw [(hsound.filed hp).1, (hsound.filed hq).1] at hpid
    exact hpid

/-! ### A run -/

/-- A row of one job, as its process notes it. -/
def sampleJournalRow : JournalRow where
  jobId := text "lj-1"
  laneId := text "codex"
  spec := none
  cwd := text "/work"
  startedAt := 5
  label := none
  startingTree := none
  brokerExecution := none
  owner := none

/-- The owners of two processes. -/
def sampleJournalOwner (pid : Nat) (h : 0 < pid ∧ pid ≤ maxSafeInteger) : JournalOwner :=
  ⟨pid, instanceToken pid "1-1", pid_pos h, pid_le h⟩

/-- A process notes a job, and another one starts. -/
def sampleJournalRun : List JournalEvent :=
  [.start (sampleJournalOwner 7 seven_isPid), .call 7 (.note sampleJournalRow),
    .start (sampleJournalOwner 8 eight_isPid)]

theorem journal_ownership_sample :
    SoundDisk none ∧ (JournalWorld.initial none).AllowedRun sampleJournalRun ∧
    ∀ journal, ((JournalWorld.initial none).run sampleJournalRun).Runs 7 journal →
      ∀ row ∈ journal.rows.rows.values,
        row ∈ diskRows ((JournalWorld.initial none).run sampleJournalRun).file := by
  have hdisk : SoundDisk none :=
    { valid := fun _ h => nomatch h
      nodup := List.nodup_nil
      finite := fun _ h => absurd h List.not_mem_nil }
  have hrun : (JournalWorld.initial none).AllowedRun sampleJournalRun :=
    ⟨⟨by decide, "1-1", rfl⟩, ⟨rfl, .inl rfl⟩, ⟨by decide, "1-1", rfl⟩, trivial⟩
  have hevent : ((JournalWorld.initial none).run sampleJournalRun).Allowed
      (.call 8 (.claimBrokerOrphan (text "lj-1"))) := trivial
  refine ⟨hdisk, hrun, fun journal hruns row hrow => ?_⟩
  exact ((journal_ownership hdisk hrun hevent).1 7 journal hruns row hrow).1

end LlmRelay
