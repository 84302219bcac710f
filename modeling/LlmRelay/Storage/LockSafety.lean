import LlmRelay.Storage.FileLock

/-!
# Any number of transactions over one file

Any number of calls in any number of processes, interleaved operation by operation, with a
process dying at any point. A call between its publication and the removal of its file is the
only one that is alive there, and every replacement of the target applies one update to what
the one before it left.

## Main definitions

* `LockWorld`: the shared files, and the calls by their instance;
* `LockWorld.step`: a call begins, a process dies, or a call carries out one operation;
* `LockWorld.Sound`: the invariant of all runs;
* `LockWorld.commits`: the transactions of a run that replaced the target, in order.

## Main results

* `LockWorld.Sound.step`, `LockWorld.Sound.run`: the invariant;
* `LockWorld.exclusion`: at most one live call holds the lock;
* `LockWorld.target_run`: the target is what the commits make of it, one after another.
-/

namespace LlmRelay

open Ecma

/-! ## Phases -/

namespace LockPhase

/-- From the publication of the claim to the removal of its file. -/
def critical : LockPhase → Bool
  | load | save _ | replace _ _ | unlinkOwn _ => true
  | list (.release _) | read (.release _) _ => true
  | _ => false

/-- The owner that the call saw in the lock. -/
def observed? : LockPhase → Option LockOwner
  | probe observed | retire observed => some observed
  | list (.confirm observed) | read (.confirm observed) _ => some observed
  | _ => none

/-- The owner that the call takes for dead. -/
def condemned? : LockPhase → Option LockOwner
  | retire observed | list (.confirm observed) | read (.confirm observed) _ => some observed
  | _ => none

/-- The text that the call is about to write. -/
def pending? : LockPhase → Option Text
  | save next | replace next _ => some next
  | _ => none

/-- The target has been replaced, and the lock is given back. -/
def committed : LockPhase → Bool
  | list (.release true) | read (.release true) _ | unlinkOwn true => true
  | removeEmpty (.release true) | done true => true
  | _ => false

/-- The target is not replaced any more. -/
def over_ : LockPhase → Bool
  | list (.release _) | read (.release _) _ | unlinkOwn _ | removeEmpty (.release _) => true
  | cleanup | done _ => true
  | _ => false

end LockPhase

/-! ## One operation -/

/-- What one operation of a call can do: where it takes the call, and what it changes. -/
structure LockCall.ActSpec (call : LockCall) (env : LockEnv) (files : LockFiles)
    (phase : LockPhase) (files' : LockFiles) : Prop where
  critical : phase.critical = true → call.phase.critical = true ∨
    (call.phase = .publish ∧ files'.lock = some [call.owner.entry])
  observed : ∀ owner, phase.observed? = some owner → call.phase.observed? = some owner ∨
    ∃ directory file, files.lock = some directory ∧ readLockOwner directory file = some owner
  condemned : ∀ owner, phase.condemned? = some owner → call.phase.condemned? = some owner ∨
    (call.phase = .probe owner ∧ env.isAlive owner.pid = false)
  pending : ∀ next, phase.pending? = some next → call.phase.pending? = some next ∨
    call.transaction.next files.target = some next
  committed : phase.committed = true → call.phase.committed = true ∨
    ∃ next attempt, call.phase = .replace next attempt ∧ env.io = .done
  over_ : call.phase.over_ = true → phase.over_ = true
  lock : files'.lock = files.lock ∨
    (call.phase = .publish ∧ (files.lock = none ∨ files.lock = some []) ∧ phase = .load ∧
      files'.lock = some [call.owner.entry]) ∨
    (∃ observed directory, call.phase = .retire observed ∧ files.lock = some directory ∧
      files'.lock = some (unlinked directory (ownerFilename observed.instance_))) ∨
    (∃ committed directory, call.phase = .unlinkOwn committed ∧ files.lock = some directory ∧
      phase = .removeEmpty (.release committed) ∧
      files'.lock = some (unlinked directory (ownerFilename call.owner.instance_))) ∨
    (files.lock = some [] ∧ files'.lock = none)
  target : files'.target = files.target ∨
    ∃ next attempt, call.phase = .replace next attempt ∧ env.io = .done ∧
      phase = .list (.release true) ∧ files'.target = .text next

section Operation

variable {call : LockCall} {env : LockEnv} {files : LockFiles}

theorem LockCall.ActSpec.idle {phase : LockPhase}
    (hcritical : phase.critical = true → call.phase.critical = true)
    (hobserved : ∀ owner, phase.observed? = some owner → call.phase.observed? = some owner)
    (hcondemned : ∀ owner, phase.condemned? = some owner → call.phase.condemned? = some owner)
    (hpending : ∀ next, phase.pending? = some next → call.phase.pending? = some next)
    (hcommitted : phase.committed = true → call.phase.committed = true)
    (hover : call.phase.over_ = true → phase.over_ = true) :
    call.ActSpec env files phase files where
  critical := fun h => .inl (hcritical h)
  observed := fun owner h => .inl (hobserved owner h)
  condemned := fun owner h => .inl (hcondemned owner h)
  pending := fun next h => .inl (hpending next h)
  committed := fun h => .inl (hcommitted h)
  over_ := hover
  lock := .inl rfl
  target := .inl rfl

attribute [local simp] LockPhase.critical LockPhase.observed? LockPhase.condemned?
  LockPhase.pending? LockPhase.committed LockPhase.over_

theorem LockCall.ActSpec.ownerRead {reading : OwnerReading} {current : Option LockOwner}
    (hfrom : call.phase = .list reading ∨ ∃ file, call.phase = .read reading file)
    (hcurrent : ∀ owner, current = some owner →
      ∃ directory file, files.lock = some directory ∧ readLockOwner directory file = some owner) :
    call.ActSpec env files (call.ownerRead reading current) files := by
  obtain ⟨owner, transaction, timeoutMs, phase, alive⟩ := call
  cases reading with
  | observe =>
    cases current with
    | none =>
      rcases hfrom with rfl | ⟨file, rfl⟩
      all_goals apply LockCall.ActSpec.idle <;> simp [LockCall.ownerRead]
    | some seen =>
      have hseen : ∀ found, (LockPhase.probe seen).observed? = some found →
          ∃ directory file, files.lock = some directory ∧
            readLockOwner directory file = some found := by
        intro found hfound
        cases hfound
        exact hcurrent seen rfl
      refine ⟨?_, fun found hfound => .inr (hseen found hfound), ?_, ?_, ?_, ?_, .inl rfl, .inl rfl⟩
      all_goals rcases hfrom with rfl | ⟨file, rfl⟩
      all_goals simp [LockCall.ownerRead]
  | confirm observed =>
    rw [LockCall.ownerRead]
    split
    all_goals
      rcases hfrom with rfl | ⟨file, rfl⟩
      all_goals apply LockCall.ActSpec.idle <;> simp
  | release committed =>
    rw [LockCall.ownerRead]
    split
    all_goals
      rcases hfrom with rfl | ⟨file, rfl⟩
      all_goals apply LockCall.ActSpec.idle <;> cases committed <;> simp

/-- **One operation** does what the specification says. -/
theorem LockCall.act_spec (call : LockCall) (platform : Platform) (env : LockEnv)
    (files : LockFiles) :
    call.ActSpec env files (call.act platform env files).1 (call.act platform env files).2 := by
  obtain ⟨owner, transaction, timeoutMs, phase, alive⟩ := call
  cases phase with
  | makeClaim | writeOwner | check | cleanup | done success =>
    simp only [LockCall.act]
    try split
    all_goals apply LockCall.ActSpec.idle <;> simp
  | publish =>
    simp only [LockCall.act]
    split
    · rename_i h
      have hlock : files.lock = none ∨ files.lock = some [] := by
        rcases files with ⟨_ | _ | _, target⟩
        · exact .inl rfl
        · exact .inr rfl
        · exact absurd h.2 Bool.false_ne_true
      refine ⟨fun _ => .inr ⟨rfl, rfl⟩, ?_, ?_, ?_, ?_, ?_, .inr (.inl ⟨rfl, hlock, rfl, rfl⟩),
        .inl rfl⟩
      all_goals simp
    · apply LockCall.ActSpec.idle <;> simp
  | contended expected =>
    simp only [LockCall.act]
    split
    · apply LockCall.ActSpec.idle <;> simp
    · split
      all_goals apply LockCall.ActSpec.idle <;> simp
  | list reading =>
    simp only [LockCall.act]
    split
    · rcases reading with _ | observed | committed | committed
      all_goals apply LockCall.ActSpec.idle <;> simp
    · exact .ownerRead (.inl rfl) fun _ h => nomatch h
  | read reading file =>
    simp only [LockCall.act]
    split
    · rename_i hlock _
      exact .ownerRead (.inr ⟨file, rfl⟩) fun _ h => ⟨_, file, hlock, h⟩
    · exact .ownerRead (.inr ⟨file, rfl⟩) fun _ h => nomatch h
  | probe observed =>
    simp only [LockCall.act]
    split
    · apply LockCall.ActSpec.idle <;> simp
    · rename_i hdead
      refine ⟨?_, ?_, ?_, ?_, ?_, ?_, .inl rfl, .inl rfl⟩
      all_goals simp [hdead]
  | retire observed =>
    simp only [LockCall.act]
    split
    · cases hlock : files.lock with
      | none => apply LockCall.ActSpec.idle <;> simp
      | some directory =>
        dsimp only
        split
        · refine ⟨?_, ?_, ?_, ?_, ?_, ?_, .inr (.inr (.inl ⟨observed, directory, rfl, hlock,
            rfl⟩)), .inl rfl⟩
          all_goals simp
        · apply LockCall.ActSpec.idle <;> simp
    · apply LockCall.ActSpec.idle <;> simp
  | unlinkOwn committed =>
    simp only [LockCall.act]
    split
    · rename_i directory hlock _
      split
      · refine ⟨?_, ?_, ?_, ?_, ?_, ?_, .inr (.inr (.inr (.inl ⟨committed, directory, rfl, hlock,
          rfl, rfl⟩))), .inl rfl⟩
        all_goals cases committed <;> simp
      · apply LockCall.ActSpec.idle <;> cases committed <;> simp
    · apply LockCall.ActSpec.idle <;> cases committed <;> simp
  | removeEmpty removal =>
    simp only [LockCall.act]
    split
    · cases removal with
      | retry => apply LockCall.ActSpec.idle <;> simp [LockCall.notRemoved]
      | release committed =>
        apply LockCall.ActSpec.idle <;> cases committed <;> simp [LockCall.notRemoved]
    · cases removal with
      | retry => apply LockCall.ActSpec.idle <;> simp [LockCall.removed]
      | release committed =>
        apply LockCall.ActSpec.idle <;> cases committed <;> simp [LockCall.removed]
    · have hlock : files.lock.filter (fun directory => !directory.isEmpty) = files.lock ∨
          (files.lock = some [] ∧ files.lock.filter (fun directory => !directory.isEmpty) = none) := by
        rcases files with ⟨_ | _ | _, target⟩
        · exact .inl rfl
        · exact .inr ⟨rfl, rfl⟩
        · exact .inl rfl
      refine ⟨?_, ?_, ?_, ?_, ?_, ?_, hlock.imp id fun h => .inr (.inr (.inr h)), .inl rfl⟩
      all_goals rcases removal with _ | _ | _ <;> simp [LockCall.removed]
  | load =>
    simp only [LockCall.act]
    split
    · rename_i next _ hnext
      refine ⟨?_, ?_, ?_, ?_, ?_, ?_, .inl rfl, .inl rfl⟩
      all_goals simp [hnext]
    · apply LockCall.ActSpec.idle <;> simp [LockCall.workFailed]
  | save next =>
    simp only [LockCall.act]
    split
    all_goals apply LockCall.ActSpec.idle <;> simp [LockCall.workFailed]
  | replace next attempt =>
    simp only [LockCall.act]
    split
    · rename_i hio
      refine ⟨?_, ?_, ?_, ?_, ?_, ?_, .inl rfl, .inr ⟨next, attempt, rfl, hio, rfl, rfl⟩⟩
      all_goals simp [hio]
    · split
      all_goals apply LockCall.ActSpec.idle <;> simp [LockCall.workFailed]
    · apply LockCall.ActSpec.idle <;> simp [LockCall.workFailed]

end Operation

/-! ## The world -/

/-- The files, and the calls by their instance. -/
structure LockWorld where
  files : LockFiles
  calls : Text → Option LockCall

/-- What may happen next. -/
inductive LockEvent where
  | start (owner : LockOwner) (transaction : Transaction) (timeoutMs : Number)
  | die (pid : Nat)
  | act (instance_ : Text) (env : LockEnv)

namespace LockWorld

/-- The target as earlier transactions left it, and no lock. -/
def initial (target : TargetFile) : LockWorld :=
  ⟨⟨none, target⟩, fun _ => none⟩

/-- One event; the dead do nothing. -/
def step (platform : Platform) (world : LockWorld) : LockEvent → LockWorld
  | .start owner transaction timeoutMs =>
    { world with
      calls := Function.update world.calls owner.instance_
        (some ⟨owner, transaction, timeoutMs, .makeClaim, true⟩) }
  | .die pid =>
    { world with
      calls := fun i => (world.calls i).map fun call =>
        if call.owner.pid = pid then { call with alive := false } else call }
  | .act i env =>
    match world.calls i with
    | none => world
    | some call =>
      if call.alive then
        ⟨(call.act platform env world.files).2,
          Function.update world.calls i
            (some { call with phase := (call.act platform env world.files).1 })⟩
      else world

/-- The events of a run, one after another. -/
def run (platform : Platform) (world : LockWorld) (events : List LockEvent) : LockWorld :=
  events.foldl (step platform) world

/-- Instances are unique, and only the dead are reported dead. -/
def Allowed (world : LockWorld) : LockEvent → Prop
  | .start owner _ _ => world.calls owner.instance_ = none
  | .die _ => True
  | .act _ env => ∀ i call, world.calls i = some call → env.isAlive call.owner.pid = false →
    call.alive = false

/-- Every event of the run is allowed when it happens. -/
def AllowedRun (platform : Platform) : LockWorld → List LockEvent → Prop
  | _, [] => True
  | world, event :: rest =>
    world.Allowed event ∧ AllowedRun platform (world.step platform event) rest

/-- The transaction whose update an event commits. -/
def commit? (world : LockWorld) : LockEvent → Option (Text × Transaction)
  | .act i env =>
    match world.calls i with
    | none => none
    | some call =>
      match call.phase with
      | .replace _ _ => if call.alive ∧ env.io = .done then some (i, call.transaction) else none
      | _ => none
  | _ => none

/-- The transactions that replaced the target in a run. -/
def commits (platform : Platform) : LockWorld → List LockEvent → List (Text × Transaction)
  | _, [] => []
  | world, event :: rest =>
    (world.commit? event).toList ++ commits platform (world.step platform event) rest

/-! ### The invariant -/

/-- What holds of every world. -/
structure Sound (world : LockWorld) : Prop where
  filed : ∀ {i call}, world.calls i = some call → call.owner.instance_ = i
  lock : ∀ directory, world.files.lock = some directory → directory = [] ∨
    ∃ i call, world.calls i = some call ∧ directory = [call.owner.entry]
  critical : ∀ {i call}, world.calls i = some call → call.alive = true →
    call.phase.critical = true → world.files.lock = some [call.owner.entry]
  observed : ∀ {i call owner}, world.calls i = some call → call.phase.observed? = some owner →
    ∃ j other, world.calls j = some other ∧ other.owner = owner
  condemned : ∀ {i call owner}, world.calls i = some call → call.phase.condemned? = some owner →
    ∀ j other, world.calls j = some other → other.owner = owner → other.alive = false
  pending : ∀ {i call next}, world.calls i = some call → call.alive = true →
    call.phase.pending? = some next → call.transaction.next world.files.target = some next

section Invariant

variable {world : LockWorld} {platform : Platform}

theorem sound_initial (target : TargetFile) : (initial target).Sound where
  filed := fun h => nomatch h
  lock := fun _ h => nomatch h
  critical := fun h => nomatch h
  observed := fun h => nomatch h
  condemned := fun h => nomatch h
  pending := fun h => nomatch h

/-- **Exclusion**: two live calls that hold the lock are one. -/
theorem Sound.exclusion (h : world.Sound) {i j : Text} {call other : LockCall}
    (hcall : world.calls i = some call) (hother : world.calls j = some other)
    (halive : call.alive = true) (halive' : other.alive = true)
    (hcritical : call.phase.critical = true) (hcritical' : other.phase.critical = true) :
    i = j := by
  have hlock := h.critical hcall halive hcritical
  rw [h.critical hother halive' hcritical'] at hlock
  have hname : ownerFilename other.owner.instance_ = ownerFilename call.owner.instance_ :=
    congrArg Prod.fst (List.singleton_injective (Option.some.inj hlock))
  rw [← h.filed hcall, ← h.filed hother]
  exact (ownerFilename_injective hname).symm

theorem observed?_of_condemned? {phase : LockPhase} {owner : LockOwner}
    (h : phase.condemned? = some owner) : phase.observed? = some owner := by
  cases phase with
  | list reading | read reading file => cases reading <;> simp_all [LockPhase.condemned?, LockPhase.observed?]
  | retire observed => exact h
  | _ => cases h

theorem critical_of_pending? {phase : LockPhase} {next : Text} (h : phase.pending? = some next) :
    phase.critical = true := by
  cases phase with
  | save _ | replace _ _ => rfl
  | _ => cases h

theorem unlinked_entry (owner : LockOwner) (file : Text) :
    unlinked [owner.entry] file = if ownerFilename owner.instance_ = file then [] else [owner.entry] := by
  by_cases h : ownerFilename owner.instance_ = file
  · simp [unlinked, LockOwner.entry, h]
  · simp [unlinked, LockOwner.entry, h]

theorem Sound.start (h : world.Sound) {owner : LockOwner} {transaction : Transaction}
    {timeoutMs : Number} (hfresh : world.calls owner.instance_ = none) :
    (world.step platform (.start owner transaction timeoutMs)).Sound := by
  -- the earlier calls are still there
  have hkept : ∀ {j other}, world.calls j = some other →
      Function.update world.calls owner.instance_
        (some (⟨owner, transaction, timeoutMs, .makeClaim, true⟩ : LockCall)) j = some other := by
    intro j other hother
    have hne : j ≠ owner.instance_ := by
      rintro rfl
      rw [hfresh] at hother
      cases hother
    rw [Function.update_of_ne hne, hother]
  refine ⟨?_, ?_, ?_, ?_, ?_, ?_⟩
  · intro j other hother
    rcases Transition.party_cases hother with ⟨rfl, rfl⟩ | ⟨-, hother⟩
    · rfl
    · exact h.filed hother
  · intro directory hlock
    exact (h.lock directory hlock).imp id fun ⟨j, other, hother, heq⟩ =>
      ⟨j, other, hkept hother, heq⟩
  · intro j other hother halive hcritical
    rcases Transition.party_cases hother with ⟨rfl, rfl⟩ | ⟨-, hother⟩
    · cases hcritical
    · exact h.critical hother halive hcritical
  · intro j other seen hother hseen
    rcases Transition.party_cases hother with ⟨rfl, rfl⟩ | ⟨-, hother⟩
    · cases hseen
    · obtain ⟨k, claimant, hclaimant, howner⟩ := h.observed hother hseen
      exact ⟨k, claimant, hkept hclaimant, howner⟩
  · intro j other seen hother hseen k claimant hclaimant howner
    rcases Transition.party_cases hother with ⟨rfl, rfl⟩ | ⟨-, hother⟩
    · cases hseen
    · rcases Transition.party_cases hclaimant with ⟨rfl, rfl⟩ | ⟨-, hclaimant⟩
      · -- the owner was seen before, and the new name is in use
        obtain ⟨k, claimant, hclaimant, hsame⟩ := h.observed hother (observed?_of_condemned? hseen)
        have hname := h.filed hclaimant
        rw [hsame, ← howner] at hname
        rw [← hname, hfresh] at hclaimant
        cases hclaimant
      · exact h.condemned hother hseen k claimant hclaimant howner
  · intro j other next hother halive hnext
    rcases Transition.party_cases hother with ⟨rfl, rfl⟩ | ⟨-, hother⟩
    · cases hnext
    · exact h.pending hother halive hnext

/-- The death of a process stops its calls. -/
theorem Sound.die (h : world.Sound) (pid : Nat) : (world.step platform (.die pid)).Sound := by
  -- a call is as before, or it is dead
  have hcases : ∀ {j other}, (world.step platform (.die pid)).calls j = some other →
      ∃ call, world.calls j = some call ∧ other.owner = call.owner ∧
        other.transaction = call.transaction ∧ other.phase = call.phase ∧
        (other.alive = true → call.alive = true) := by
    intro j other hother
    obtain ⟨call, hcall, rfl⟩ := Option.map_eq_some_iff.mp hother
    refine ⟨call, hcall, ?_⟩
    split
    · exact ⟨rfl, rfl, rfl, fun halive => nomatch halive⟩
    · exact ⟨rfl, rfl, rfl, id⟩
  have hkept : ∀ {j call}, world.calls j = some call →
      ∃ other, (world.step platform (.die pid)).calls j = some other ∧
        other.owner = call.owner := by
    intro j call hcall
    refine ⟨_, Option.map_eq_some_iff.mpr ⟨call, hcall, rfl⟩, ?_⟩
    split <;> rfl
  have hfiles : (world.step platform (.die pid)).files = world.files := rfl
  refine ⟨?_, ?_, ?_, ?_, ?_, ?_⟩
  · intro j other hother
    obtain ⟨call, hcall, howner, -⟩ := hcases hother
    rw [howner]
    exact h.filed hcall
  · intro directory hlock
    refine (h.lock directory hlock).imp id ?_
    rintro ⟨j, call, hcall, heq⟩
    obtain ⟨other, hother, howner⟩ := hkept hcall
    exact ⟨j, other, hother, howner ▸ heq⟩
  · intro j other hother halive hcritical
    obtain ⟨call, hcall, howner, -, hphase, hlive⟩ := hcases hother
    rw [howner]
    exact h.critical hcall (hlive halive) (hphase ▸ hcritical)
  · intro j other seen hother hseen
    obtain ⟨call, hcall, -, -, hphase, -⟩ := hcases hother
    obtain ⟨k, claimant, hclaimant, hsame⟩ := h.observed hcall (hphase ▸ hseen)
    obtain ⟨claimant', hclaimant', howner⟩ := hkept hclaimant
    exact ⟨k, claimant', hclaimant', howner.trans hsame⟩
  · intro j other seen hother hseen k claimant hclaimant howner
    obtain ⟨call, hcall, -, -, hphase, -⟩ := hcases hother
    obtain ⟨claimant', hclaimant', hsame, -, -, hlive⟩ := hcases hclaimant
    have hdead := h.condemned hcall (hphase ▸ hseen) k claimant' hclaimant' (hsame ▸ howner)
    by_contra halive
    rw [hlive (Bool.not_eq_false _ ▸ halive)] at hdead
    cases hdead
  · intro j other next hother halive hnext
    obtain ⟨call, hcall, -, htransaction, hphase, hlive⟩ := hcases hother
    rw [htransaction]
    exact h.pending hcall (hlive halive) (hphase ▸ hnext)

section Acting

variable {i : Text} {call : LockCall} {env : LockEnv} {phase : LockPhase} {files : LockFiles}

theorem Sound.lock_kept (h : world.Sound) (hcall : world.calls i = some call)
    (hspec : call.ActSpec env world.files phase files) {j : Text}
    {other : LockCall} (hne : j ≠ i) (hother : world.calls j = some other)
    (halive' : other.alive = true) (hcritical : other.phase.critical = true) :
    files.lock = some [other.owner.entry] := by
  have hlock := h.critical hother halive' hcritical
  rcases hspec.lock with hsame | ⟨-, hfree, -⟩ | ⟨seen, directory, hretire, hdirectory, hnew⟩ |
    ⟨committed, directory, hown, hdirectory, -, hnew⟩ | ⟨hempty, -⟩
  · rw [hsame, hlock]
  · rw [hlock] at hfree
    rcases hfree with hnone | hempty
    · cases hnone
    · cases hempty
  · -- the retired file is that of a dead call
    rw [hlock] at hdirectory
    cases hdirectory
    rw [hnew, unlinked_entry, if_neg]
    intro hname
    have hcondemned : call.phase.condemned? = some seen := by rw [hretire]; rfl
    obtain ⟨k, claimant, hclaimant, howner⟩ :=
      h.observed hcall (observed?_of_condemned? hcondemned)
    have hinstance : claimant.owner.instance_ = other.owner.instance_ :=
      howner ▸ (ownerFilename_injective hname).symm
    rw [h.filed hclaimant, h.filed hother] at hinstance
    subst hinstance
    have hdead := h.condemned hcall hcondemned k claimant hclaimant howner
    rw [hother] at hclaimant
    cases hclaimant
    rw [halive'] at hdead
    cases hdead
  · rw [hlock] at hdirectory
    cases hdirectory
    rw [hnew, unlinked_entry, if_neg]
    intro hname
    have hinstance := ownerFilename_injective hname
    rw [h.filed hcall, h.filed hother] at hinstance
    exact hne hinstance
  · rw [hlock] at hempty
    cases hempty

/-- **One operation** of a live call keeps the invariant. -/
theorem Sound.act (h : world.Sound) (hcall : world.calls i = some call) (halive : call.alive = true)
    (hdead : ∀ j other, world.calls j = some other → env.isAlive other.owner.pid = false →
      other.alive = false)
    (hspec : call.ActSpec env world.files phase files) :
    (⟨files, Function.update world.calls i (some { call with phase })⟩ : LockWorld).Sound := by
  -- only the phase of the call is new
  have hcases : ∀ {j other}, Function.update world.calls i (some { call with phase }) j = some other →
      ∃ before, world.calls j = some before ∧ other.owner = before.owner ∧
        other.alive = before.alive := by
    intro j other hother
    rcases Transition.party_cases hother with ⟨rfl, rfl⟩ | ⟨-, hother⟩
    · exact ⟨call, hcall, rfl, rfl⟩
    · exact ⟨other, hother, rfl, rfl⟩
  have hkept : ∀ {j before}, world.calls j = some before →
      ∃ other, Function.update world.calls i (some { call with phase }) j = some other ∧
        other.owner = before.owner := by
    intro j before hbefore
    by_cases heq : j = i
    · subst heq
      rw [hcall] at hbefore
      cases hbefore
      exact ⟨_, Function.update_self .., rfl⟩
    · exact ⟨before, by rw [Function.update_of_ne heq, hbefore], rfl⟩
  refine ⟨?_, ?_, ?_, ?_, ?_, ?_⟩
  · intro j other hother
    obtain ⟨before, hbefore, howner, -⟩ := hcases hother
    rw [howner]
    exact h.filed hbefore
  · intro directory hdirectory
    -- an owner in the lock is the owner of a call
    have howned : ∀ {j before}, world.calls j = some before →
        ∃ j other, Function.update world.calls i (some { call with phase }) j = some other ∧
          [before.owner.entry] = [other.owner.entry] := by
      intro j before hbefore
      obtain ⟨other, hother, howner⟩ := hkept hbefore
      exact ⟨j, other, hother, by rw [howner]⟩
    have hunlinked : ∀ {directory' file}, world.files.lock = some directory' →
        directory = unlinked directory' file → directory = [] ∨
          ∃ j other, Function.update world.calls i (some { call with phase }) j = some other ∧
            directory = [other.owner.entry] := by
      rintro directory' file hlock rfl
      rcases h.lock directory' hlock with rfl | ⟨j, before, hbefore, rfl⟩
      · exact .inl rfl
      · rw [unlinked_entry]
        split
        · exact .inl rfl
        · exact .inr (howned hbefore)
    rcases hspec.lock with hsame | ⟨-, -, -, hnew⟩ | ⟨seen, directory', -, hlock, hnew⟩ |
      ⟨committed, directory', -, hlock, -, hnew⟩ | ⟨-, hnone⟩
    · rw [hsame] at hdirectory
      rcases h.lock directory hdirectory with hempty | ⟨j, before, hbefore, rfl⟩
      · exact .inl hempty
      · exact .inr (howned hbefore)
    · rw [hnew] at hdirectory
      cases hdirectory
      exact .inr (howned hcall)
    · rw [hnew] at hdirectory
      exact hunlinked hlock (Option.some.inj hdirectory).symm
    · rw [hnew] at hdirectory
      exact hunlinked hlock (Option.some.inj hdirectory).symm
    · rw [hnone] at hdirectory
      cases hdirectory
  · intro j other hother halive' hcritical
    rcases Transition.party_cases hother with ⟨rfl, rfl⟩ | ⟨hne, hother⟩
    · rcases hspec.critical hcritical with hbefore | ⟨-, hnew⟩
      · -- the call held the lock before, and does not give it back here
        have hlock := h.critical hcall halive hbefore
        rcases hspec.lock with hsame | ⟨-, -, -, hnew⟩ | ⟨seen, directory, hretire, -⟩ |
          ⟨committed, directory, -, -, hgone, -⟩ | ⟨hempty, -⟩
        · exact hsame.trans hlock
        · exact hnew
        · rw [hretire] at hbefore
          cases hbefore
        · rw [hgone] at hcritical
          cases hcritical
        · rw [hlock] at hempty
          cases hempty
      · exact hnew
    · exact h.lock_kept hcall hspec hne hother halive' hcritical
  · intro j other seen hother hseen
    have hbefore : ∃ k claimant, world.calls k = some claimant ∧ claimant.owner = seen := by
      rcases Transition.party_cases hother with ⟨rfl, rfl⟩ | ⟨-, hother⟩
      · rcases hspec.observed seen hseen with hbefore | ⟨directory, file, hlock, hread⟩
        · exact h.observed hcall hbefore
        · rcases h.lock directory hlock with rfl | ⟨k, claimant, hclaimant, rfl⟩
          · cases hread
          · exact ⟨k, claimant, hclaimant, (eq_of_readLockOwner hread).symm⟩
      · exact h.observed hother hseen
    obtain ⟨k, claimant, hclaimant, hsame⟩ := hbefore
    obtain ⟨after, hafter, howner⟩ := hkept hclaimant
    exact ⟨k, after, hafter, howner.trans hsame⟩
  · intro j other seen hother hseen k claimant hclaimant howner
    obtain ⟨before, hbefore, hsame, hlive⟩ := hcases hclaimant
    rw [hlive]
    rw [hsame] at howner
    rcases Transition.party_cases hother with ⟨rfl, rfl⟩ | ⟨-, hother⟩
    · rcases hspec.condemned seen hseen with hearlier | ⟨-, hprobe⟩
      · exact h.condemned hcall hearlier k before hbefore howner
      · exact hdead k before hbefore (howner ▸ hprobe)
    · exact h.condemned hother hseen k before hbefore howner
  · intro j other next hother halive' hnext
    rcases Transition.party_cases hother with ⟨rfl, rfl⟩ | ⟨hne, hother⟩
    · have htarget : files.target = world.files.target := by
        rcases hspec.target with hsame | ⟨_, _, -, -, hphase, -⟩
        · exact hsame
        · rw [hphase] at hnext
          cases hnext
      rw [htarget]
      rcases hspec.pending next hnext with hbefore | hread
      · have hearlier := h.pending hcall halive hbefore
        exact hearlier
      · exact hread
    · have htarget : files.target = world.files.target := by
        rcases hspec.target with hsame | ⟨_, _, hphase, -⟩
        · exact hsame
        · -- both calls would hold the lock
          have hcritical : call.phase.critical = true := by rw [hphase]; rfl
          exact absurd (h.exclusion hother hcall halive' halive (critical_of_pending? hnext)
            hcritical) hne
      rw [htarget]
      exact h.pending hother halive' hnext

end Acting

theorem step_act_cases (world : LockWorld) (platform : Platform) (i : Text) (env : LockEnv) :
    (world.step platform (.act i env) = world ∧ world.commit? (.act i env) = none) ∨
      ∃ call, world.calls i = some call ∧ call.alive = true ∧
        world.step platform (.act i env) = ⟨(call.act platform env world.files).2,
          Function.update world.calls i
            (some { call with phase := (call.act platform env world.files).1 })⟩ := by
  cases hcall : world.calls i with
  | none => exact .inl ⟨by simp only [step, hcall], by simp only [commit?, hcall]⟩
  | some call =>
    cases halive : call.alive with
    | false =>
      refine .inl ⟨by simp [step, hcall, halive], ?_⟩
      simp only [commit?, hcall, halive]
      cases call.phase <;> simp
    | true => exact .inr ⟨call, rfl, halive, by simp [step, hcall, halive]⟩

variable {event : LockEvent}

/-- **The step lemma**: every allowed event keeps the invariant. -/
theorem Sound.step (h : world.Sound) (hallowed : world.Allowed event) :
    (world.step platform event).Sound := by
  cases event with
  | start owner transaction timeoutMs => exact h.start hallowed
  | die pid => exact h.die pid
  | act i env =>
    rcases step_act_cases world platform i env with ⟨hidle, -⟩ | ⟨call, hcall, halive, hstep⟩
    · rw [hidle]
      exact h
    · rw [hstep]
      exact h.act hcall halive hallowed (call.act_spec platform env world.files)

variable {events : List LockEvent}

/-- **The run lemma**: every world of an allowed run satisfies the invariant. -/
theorem Sound.run (h : world.Sound) (hrun : world.AllowedRun platform events) :
    (world.run platform events).Sound := by
  induction events generalizing world with
  | nil => exact h
  | cons event rest ih => exact ih (h.step hrun.1) hrun.2

/-! ### Commits -/

theorem commit?_eq_some {i : Text} {transaction : Transaction}
    (h : world.commit? event = some (i, transaction)) :
    ∃ env call next attempt, event = .act i env ∧ world.calls i = some call ∧
      call.alive = true ∧ call.phase = .replace next attempt ∧ env.io = .done ∧
      call.transaction = transaction := by
  cases event with
  | act i' env =>
    simp only [commit?] at h
    cases hcall : world.calls i' with
    | none =>
      rw [hcall] at h
      cases h
    | some call =>
      simp only [hcall] at h
      cases hphase : call.phase with
      | replace next attempt =>
        simp only [hphase] at h
        split at h
        · rename_i hlive
          cases h
          exact ⟨env, call, next, attempt, rfl, hcall, hlive.1, hphase, hlive.2, rfl⟩
        · cases h
      | _ =>
        simp only [hphase] at h
        cases h
  | _ => cases h

variable (platform) in
/-- **One event** leaves the target, or it is a commit: the new target is what the transaction
makes of the old one. -/
theorem Sound.target_step (h : world.Sound) (event : LockEvent) :
    (world.commit? event = none ∧ (world.step platform event).files.target = world.files.target) ∨
      ∃ i transaction next, world.commit? event = some (i, transaction) ∧
        transaction.next world.files.target = some next ∧
        (world.step platform event).files.target = .text next := by
  cases hcommit : world.commit? event with
  | none =>
    refine .inl ⟨rfl, ?_⟩
    cases event with
    | start owner transaction timeoutMs => rfl
    | die pid => rfl
    | act i env =>
      rcases step_act_cases world platform i env with ⟨hidle, -⟩ | ⟨call, hcall, halive, hstep⟩
      · rw [hidle]
      · rw [hstep]
        rcases (call.act_spec platform env world.files).target with
          hsame | ⟨next, attempt, hphase, hio, -, -⟩
        · exact hsame
        · simp only [commit?, hcall, hphase, halive, hio, and_self, if_true] at hcommit
          cases hcommit
  | some commit =>
    obtain ⟨i, transaction⟩ := commit
    obtain ⟨env, call, next, attempt, rfl, hcall, halive, hphase, hio, rfl⟩ :=
      commit?_eq_some hcommit
    have hpending : call.phase.pending? = some next := by rw [hphase]; rfl
    refine .inr ⟨i, call.transaction, next, rfl, h.pending hcall halive hpending, ?_⟩
    simp only [LockWorld.step, hcall, halive, if_true, LockCall.act, hphase, hio]

/-- **Serial commits**: the target is what the commits of the run make of the first one, each
from what the one before it left. -/
theorem Sound.target_run (h : world.Sound) (hrun : world.AllowedRun platform events) :
    (world.commits platform events).foldlM
        (fun target commit => (commit.2.next target).map TargetFile.text) world.files.target
      = some (world.run platform events).files.target := by
  induction events generalizing world with
  | nil => rfl
  | cons event rest ih =>
    have hrest := ih (h.step hrun.1) hrun.2
    rw [commits, List.foldlM_append]
    rcases h.target_step platform event with
      ⟨hnone, hsame⟩ | ⟨i, transaction, next, hcommit, hnext, hnew⟩
    · rw [hnone, ← hsame]
      exact hrest
    · rw [hcommit, Option.toList_some, List.foldlM_cons, hnext]
      rw [hnew] at hrest
      exact hrest

/-- What the commits so far say about the calls. -/
structure Recorded (world : LockWorld) (done : List (Text × Transaction)) : Prop where
  nodup : (done.map Prod.fst).Nodup
  over_ : ∀ i ∈ done.map Prod.fst, ∃ call, world.calls i = some call ∧ call.phase.over_ = true
  success : ∀ i call, world.calls i = some call → call.phase.committed = true →
    (i, call.transaction) ∈ done

theorem recorded_initial (target : TargetFile) : (initial target).Recorded [] where
  nodup := List.nodup_nil
  over_ := fun _ h => nomatch h
  success := fun _ _ h => nomatch h

/-- **One event**: a commit is the only one of its call, and a call that reports success has
committed. -/
theorem Recorded.step {done : List (Text × Transaction)} (h : world.Recorded done)
    (hallowed : world.Allowed event) :
    (world.step platform event).Recorded (done ++ (world.commit? event).toList) := by
  cases event with
  | start owner transaction timeoutMs =>
    have hnone : world.commit? (.start owner transaction timeoutMs) = none := rfl
    rw [hnone, Option.toList_none, List.append_nil]
    refine ⟨h.nodup, ?_, ?_⟩
    · intro i hi
      obtain ⟨call, hcall, hover⟩ := h.over_ i hi
      refine ⟨call, ?_, hover⟩
      have hne : i ≠ owner.instance_ := by
        rintro rfl
        rw [hallowed] at hcall
        cases hcall
      exact (Function.update_of_ne hne _ _).trans hcall
    · intro i call hcall hcommitted
      rcases Transition.party_cases hcall with ⟨rfl, rfl⟩ | ⟨-, hcall⟩
      · cases hcommitted
      · exact h.success i call hcall hcommitted
  | die pid =>
    have hnone : world.commit? (.die pid) = none := rfl
    rw [hnone, Option.toList_none, List.append_nil]
    refine ⟨h.nodup, ?_, ?_⟩
    · intro i hi
      obtain ⟨call, hcall, hover⟩ := h.over_ i hi
      refine ⟨_, Option.map_eq_some_iff.mpr ⟨call, hcall, rfl⟩, ?_⟩
      split
      · exact hover
      · exact hover
    · intro i call hcall hcommitted
      obtain ⟨before, hbefore, rfl⟩ := Option.map_eq_some_iff.mp hcall
      have hsame : (if before.owner.pid = pid then { before with alive := false }
          else before).transaction = before.transaction := by split <;> rfl
      rw [hsame]
      refine h.success i before hbefore ?_
      split at hcommitted
      · exact hcommitted
      · exact hcommitted
  | act i env =>
    rcases step_act_cases world platform i env with ⟨hidle, hnone⟩ | ⟨call, hcall, halive, hstep⟩
    · rw [hidle, hnone, Option.toList_none, List.append_nil]
      exact h
    · have hspec := call.act_spec platform env world.files
      rw [hstep]
      -- the calls that are over stay so
      have hover : ∀ j ∈ done.map Prod.fst, ∃ other,
          Function.update world.calls i
            (some { call with phase := (call.act platform env world.files).1 }) j = some other ∧
          other.phase.over_ = true := by
        intro j hj
        obtain ⟨other, hother, hover⟩ := h.over_ j hj
        by_cases heq : j = i
        · subst heq
          rw [hcall] at hother
          cases hother
          exact ⟨_, Function.update_self .., hspec.over_ hover⟩
        · exact ⟨other, by rw [Function.update_of_ne heq, hother], hover⟩
      cases hcommit : world.commit? (.act i env) with
      | none =>
        rw [Option.toList_none, List.append_nil]
        refine ⟨h.nodup, hover, ?_⟩
        intro j other hother hcommitted
        rcases Transition.party_cases hother with ⟨rfl, rfl⟩ | ⟨-, hother⟩
        · rcases hspec.committed hcommitted with hbefore | ⟨next, attempt, hphase, hio⟩
          · exact h.success j call hcall hbefore
          · simp only [commit?, hcall, hphase, halive, hio] at hcommit
            cases hcommit
        · exact h.success j other hother hcommitted
      | some commit =>
        obtain ⟨j, transaction⟩ := commit
        obtain ⟨_, _, next, attempt, hevent, hcall', -, hphase, hio, rfl⟩ :=
          commit?_eq_some hcommit
        cases hevent
        rw [hcall] at hcall'
        cases hcall'
        have hact : (call.act platform env world.files).1 = .list (.release true) := by
          simp only [LockCall.act, hphase, hio]
        have hnew : i ∉ done.map Prod.fst := by
          intro hi
          obtain ⟨other, hother, hover⟩ := h.over_ i hi
          rw [hcall] at hother
          cases hother
          rw [hphase] at hover
          cases hover
        refine ⟨?_, ?_, ?_⟩
        · rw [Option.toList_some, List.map_append, List.map_singleton, List.nodup_append_comm,
            List.singleton_append, List.nodup_cons]
          exact ⟨hnew, h.nodup⟩
        · intro j hj
          rw [List.map_append, List.mem_append] at hj
          rcases hj with hj | hj
          · exact hover j hj
          · rw [Option.toList_some, List.map_singleton, List.mem_singleton] at hj
            subst hj
            refine ⟨_, Function.update_self .., ?_⟩
            rw [hact]
            rfl
        · intro j other hother hcommitted
          rw [List.mem_append]
          rcases Transition.party_cases hother with ⟨rfl, rfl⟩ | ⟨-, hother⟩
          · exact .inr (List.mem_singleton_self _)
          · exact .inl (h.success j other hother hcommitted)

/-- **The commits of a run** are of distinct calls, and every successful call is among them. -/
theorem Recorded.run {done : List (Text × Transaction)} (h : world.Recorded done)
    (hrun : world.AllowedRun platform events) :
    (world.run platform events).Recorded (done ++ world.commits platform events) := by
  induction events generalizing world done with
  | nil =>
    rw [commits, List.append_nil]
    exact h
  | cons event rest ih =>
    rw [commits, ← List.append_assoc]
    exact ih (h.step hrun.1) hrun.2

end Invariant

end LockWorld

end LlmRelay
