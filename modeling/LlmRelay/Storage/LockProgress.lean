import LlmRelay.Storage.LockSafety

/-!
# Progress, and the transactions as a whole

A call that tries alone gets the lock in a bounded number of operations, where the owner that
it may find in the lock is reported dead: it retires the file of the dead owner, removes the
empty directory, and publishes its own claim. An owner that is dead but reported alive keeps
the lock.

## Main definitions

* `LockPhase.trying`: the call is on its way to the lock;
* `LockCall.Acquires`: every few operations of the call alone take it there.

## Main results

* `LockCall.acquires`: from every phase on the way;
* `json_transactions`: exclusion, serial commits, no unusable file overwritten, and progress;
* `dead_owner_kept`: where a dead owner is reported alive.
-/

namespace LlmRelay

open Ecma

/-- On the way to the lock, with no operation failed. -/
def LockPhase.trying : LockPhase → Bool
  | makeClaim | writeOwner | check | publish | contended true | probe _ | retire _ => true
  | list .observe | list (.confirm _) | read .observe _ | read (.confirm _) _ => true
  | removeEmpty .retry => true
  | _ => false

/-! ## Alone -/

namespace LockCall

/-- At most `n` operations of the call alone take it to the lock, whatever it sees. -/
def Acquires (platform : Platform) (Ok : LockEnv → Prop) :
    Nat → LockCall → LockFiles → Prop
  | 0, call, _ => call.phase.critical = true
  | n + 1, call, files => call.phase.critical = true ∨
    ∀ env, Ok env → Acquires platform Ok n
      { call with phase := (call.act platform env files).1 } (call.act platform env files).2

/-- Operations succeed, the timeout is not reached, and the owner in the lock is reported
dead. -/
structure Unhindered (call : LockCall) (lock : Option LockDirectory) (env : LockEnv) : Prop where
  io : env.io = .done
  now : call.timeoutMs.le (env.now.sub call.owner.acquiredAt) = false
  dead : ∀ owner : LockOwner, lock = some [owner.entry] → env.isAlive owner.pid = false

section Alone

variable {platform : Platform} {Ok : LockEnv → Prop} {call : LockCall} {files : LockFiles}

theorem Acquires.succ {n : Nat} (h : call.Acquires platform Ok n files) :
    call.Acquires platform Ok (n + 1) files := by
  induction n generalizing call files with
  | zero => exact .inl h
  | succ n ih => exact h.imp id fun hnext env hok => ih (hnext env hok)

theorem Acquires.mono {n m : Nat} (hle : n ≤ m) (h : call.Acquires platform Ok n files) :
    call.Acquires platform Ok m files := by
  induction hle with
  | refl => exact h
  | step _ ih => exact ih.succ

/-- The call in another phase. -/
def at_ (call : LockCall) (phase : LockPhase) : LockCall :=
  { call with phase }

theorem Acquires.of_acts {n : Nat} {phase : LockPhase} (h : ∀ env, Ok env → ∃ phase' files',
      (call.at_ phase).act platform env files = (phase', files') ∧
        (call.at_ phase').Acquires platform Ok n files') :
    (call.at_ phase).Acquires platform Ok (n + 1) files := by
  refine .inr fun env hok => ?_
  obtain ⟨phase', files', hact, hnext⟩ := h env hok
  rw [hact]
  exact hnext

theorem Acquires.of_act {n : Nat} {phase phase' : LockPhase} {files' : LockFiles}
    (hact : ∀ env, Ok env → (call.at_ phase).act platform env files = (phase', files'))
    (h : (call.at_ phase').Acquires platform Ok n files') :
    (call.at_ phase).Acquires platform Ok (n + 1) files :=
  .of_acts fun env hok => ⟨phase', files', hact env hok, h⟩

end Alone

section Trying

variable {platform : Platform} {call : LockCall} {lock : Option LockDirectory}
  (target : TargetFile)

/-! ### No lock, or an empty one -/

theorem acquires_publish_free :
    (call.at_ .publish).Acquires platform (call.Unhindered lock) 1 ⟨none, target⟩ := by
  have hact : ∀ env, call.Unhindered lock env → (call.at_ .publish).act platform env ⟨none, target⟩
      = (.load, ⟨some [call.owner.entry], target⟩) := by
    intro env hok
    simp [at_, act, hok.io, renames]
  exact .of_act hact rfl

theorem acquires_check_free :
    (call.at_ .check).Acquires platform (call.Unhindered lock) 2 ⟨none, target⟩ := by
  refine .of_act (fun env hok => ?_) (acquires_publish_free target)
  simp [at_, act, hok.now]

theorem acquires_removeEmpty_empty :
    (call.at_ (.removeEmpty .retry)).Acquires platform (call.Unhindered lock) 3
      ⟨some [], target⟩ := by
  refine .of_act (fun env hok => ?_) (acquires_check_free target)
  simp [at_, act, hok.io, removed]

theorem acquires_list_empty :
    (call.at_ (.list .observe)).Acquires platform (call.Unhindered lock) 4 ⟨some [], target⟩ := by
  refine .of_act (fun env hok => ?_) (acquires_removeEmpty_empty target)
  simp [at_, act, ownerRead]

theorem acquires_publish_empty :
    (call.at_ .publish).Acquires platform (call.Unhindered lock) 6 ⟨some [], target⟩ := by
  cases platform with
  | posix =>
    have hload : (call.at_ .load).Acquires .posix (call.Unhindered lock) 5
        ⟨some [call.owner.entry], target⟩ := .inl rfl
    refine .of_act (fun env hok => ?_) hload
    simp [at_, act, hok.io, renames]
  | win32 =>
    have hcontended : (call.at_ (.contended true)).Acquires .win32 (call.Unhindered lock) 5
        ⟨some [], target⟩ := by
      refine .of_act (fun env hok => ?_) (acquires_list_empty target)
      simp [at_, act, hok.io]
    refine .of_act (fun env hok => ?_) hcontended
    simp [at_, act, hok.io, renames]

/-! ### The lock of a dead owner -/

section DeadOwner

variable (owner : LockOwner)

theorem acquires_retire_dead :
    (call.at_ (.retire owner)).Acquires platform (call.Unhindered lock) 4
      ⟨some [owner.entry], target⟩ := by
  refine .of_act (fun env hok => ?_) (acquires_removeEmpty_empty target)
  simp [at_, act, hok.io, unlinked, LockOwner.entry, lookupEntry]

theorem acquires_confirm_dead :
    (call.at_ (.list (.confirm owner))).Acquires platform (call.Unhindered lock) 6
      ⟨some [owner.entry], target⟩ := by
  have hread : (call.at_ (.read (.confirm owner) (ownerFilename owner.instance_))).Acquires
      platform (call.Unhindered lock) 5 ⟨some [owner.entry], target⟩ := by
    refine .of_act (fun env hok => ?_) (acquires_retire_dead target owner)
    simp [at_, act, hok.io, readLockOwner_entry, ownerRead, sameClaim]
  refine .of_act (fun env hok => ?_) hread
  simp [at_, act, hok.io, LockOwner.entry]

theorem acquires_probe_dead :
    (call.at_ (.probe owner)).Acquires platform (call.Unhindered (some [owner.entry])) 7
      ⟨some [owner.entry], target⟩ := by
  refine .of_act (fun env hok => ?_) (acquires_confirm_dead target owner)
  simp [at_, act, hok.dead owner rfl]

theorem acquires_list_dead :
    (call.at_ (.list .observe)).Acquires platform (call.Unhindered (some [owner.entry])) 9
      ⟨some [owner.entry], target⟩ := by
  have hread : (call.at_ (.read .observe (ownerFilename owner.instance_))).Acquires platform
      (call.Unhindered (some [owner.entry])) 8 ⟨some [owner.entry], target⟩ := by
    refine .of_act (fun env hok => ?_) (acquires_probe_dead target owner)
    simp [at_, act, hok.io, readLockOwner_entry, ownerRead]
  refine .of_act (fun env hok => ?_) hread
  simp [at_, act, hok.io, LockOwner.entry]

theorem acquires_publish_dead :
    (call.at_ .publish).Acquires platform (call.Unhindered (some [owner.entry])) 11
      ⟨some [owner.entry], target⟩ := by
  have hcontended : (call.at_ (.contended true)).Acquires platform
      (call.Unhindered (some [owner.entry])) 10 ⟨some [owner.entry], target⟩ := by
    refine .of_act (fun env hok => ?_) (acquires_list_dead target owner)
    simp [at_, act, hok.io]
  refine .of_act (fun env hok => ?_) hcontended
  simp [at_, act, hok.io, renames]

end DeadOwner

/-- A lock that no live call holds: none, an empty directory, or that of an owner. -/
inductive Claimable : Option LockDirectory → Prop
  | none : Claimable none
  | empty : Claimable (some [])
  | owned (owner : LockOwner) : Claimable (some [owner.entry])

/-! ### From any phase on the way -/

variable (hlock : Claimable lock)

include hlock

theorem acquires_publish :
    (call.at_ .publish).Acquires platform (call.Unhindered lock) 11 ⟨lock, target⟩ := by
  cases hlock with
  | none => exact (acquires_publish_free target).mono (by decide)
  | empty => exact (acquires_publish_empty target).mono (by decide)
  | owned owner => exact acquires_publish_dead target owner

theorem acquires_check :
    (call.at_ .check).Acquires platform (call.Unhindered lock) 12 ⟨lock, target⟩ := by
  refine .of_act (fun env hok => ?_) (acquires_publish target hlock)
  simp [at_, act, hok.now]

theorem acquires_removeEmpty :
    (call.at_ (.removeEmpty .retry)).Acquires platform (call.Unhindered lock) 13
      ⟨lock, target⟩ := by
  cases hlock with
  | none =>
    refine .of_act (fun env hok => ?_) (acquires_check target .none)
    simp [at_, act, hok.io, removed]
  | empty => exact (acquires_removeEmpty_empty target).mono (by decide)
  | owned owner =>
    refine .of_act (fun env hok => ?_) (acquires_check target (.owned owner))
    simp [at_, act, hok.io, removed]

theorem acquires_list :
    (call.at_ (.list .observe)).Acquires platform (call.Unhindered lock) 14 ⟨lock, target⟩ := by
  cases hlock with
  | none =>
    refine .of_act (fun env hok => ?_) (acquires_removeEmpty target .none)
    simp [at_, act, ownerRead]
  | empty => exact (acquires_list_empty target).mono (by decide)
  | owned owner => exact (acquires_list_dead target owner).mono (by decide)

theorem acquires_contended :
    (call.at_ (.contended true)).Acquires platform (call.Unhindered lock) 15 ⟨lock, target⟩ := by
  refine .of_acts fun env hok => ?_
  cases lock with
  | none =>
    refine ⟨.check, ⟨none, target⟩, ?_, (acquires_check target hlock).mono (by decide)⟩
    simp [at_, act]
  | some directory =>
    refine ⟨.list .observe, ⟨some directory, target⟩, ?_, acquires_list target hlock⟩
    simp [at_, act, hok.io]

theorem acquires_read (file : Text) :
    (call.at_ (.read .observe file)).Acquires platform (call.Unhindered lock) 14
      ⟨lock, target⟩ := by
  have hnull : (call.at_ (.removeEmpty .retry)).Acquires platform (call.Unhindered lock) 13
      ⟨lock, target⟩ := acquires_removeEmpty target hlock
  cases hlock with
  | none =>
    refine .of_act (fun env hok => ?_) hnull
    simp [at_, act, ownerRead]
  | empty =>
    refine .of_act (fun env hok => ?_) hnull
    simp [at_, act, hok.io, readLockOwner, lookupEntry, ownerRead]
  | owned owner =>
    cases hread : readLockOwner [owner.entry] file with
    | none =>
      refine .of_act (fun env hok => ?_) hnull
      simp [at_, act, hok.io, hread, ownerRead]
    | some other =>
      obtain rfl := eq_of_readLockOwner hread
      refine .of_act (fun env hok => ?_) ((acquires_probe_dead target _).mono (by decide))
      simp [at_, act, hok.io, hread, ownerRead]

variable (observed : LockOwner)

include observed

theorem acquires_retire :
    (call.at_ (.retire observed)).Acquires platform (call.Unhindered lock) 13
      ⟨lock, target⟩ := by
  have hmissed := @acquires_check platform call lock target hlock
  cases hlock with
  | none =>
    refine .of_act (fun env hok => ?_) hmissed
    simp [at_, act, hok.io]
  | empty =>
    refine .of_act (fun env hok => ?_) hmissed
    simp [at_, act, hok.io, lookupEntry]
  | owned owner =>
    by_cases hname : ownerFilename owner.instance_ = ownerFilename observed.instance_
    · refine .of_act (fun env hok => ?_) ((acquires_removeEmpty_empty target).mono (by decide))
      simp [at_, act, hok.io, lookupEntry, LockOwner.entry, hname, unlinked]
    · refine .of_act (fun env hok => ?_) hmissed
      simp [at_, act, hok.io, lookupEntry, LockOwner.entry, hname]

theorem acquires_confirm_read (file : Text) :
    (call.at_ (.read (.confirm observed) file)).Acquires platform (call.Unhindered lock) 14
      ⟨lock, target⟩ := by
  refine .of_acts fun env hok => ?_
  have hact : ∃ current, (call.at_ (.read (.confirm observed) file)).act platform env ⟨lock, target⟩
      = ((call.at_ (.read (.confirm observed) file)).ownerRead (.confirm observed) current,
        ⟨lock, target⟩) := by
    cases lock with
    | none => exact ⟨none, by simp [at_, act]⟩
    | some directory => exact ⟨readLockOwner directory file, by simp [at_, act, hok.io]⟩
  obtain ⟨current, hact⟩ := hact
  refine ⟨_, _, hact, ?_⟩
  rw [ownerRead]
  split
  · exact acquires_retire target hlock observed
  · exact (acquires_check target hlock).mono (by decide)

theorem acquires_confirm :
    (call.at_ (.list (.confirm observed))).Acquires platform (call.Unhindered lock) 15
      ⟨lock, target⟩ := by
  have hmissed : (call.at_ .check).Acquires platform (call.Unhindered lock) 14 ⟨lock, target⟩ :=
    (acquires_check target hlock).mono (by decide)
  cases hlock with
  | none =>
    refine .of_act (fun env hok => ?_) hmissed
    simp [at_, act, ownerRead]
  | empty =>
    refine .of_act (fun env hok => ?_) hmissed
    simp [at_, act, ownerRead]
  | owned owner =>
    refine .of_act (fun env hok => ?_) (acquires_confirm_read target (.owned owner) observed
      (ownerFilename owner.instance_))
    simp [at_, act, hok.io, LockOwner.entry]

theorem acquires_probe :
    (call.at_ (.probe observed)).Acquires platform (call.Unhindered lock) 16 ⟨lock, target⟩ := by
  refine .of_acts fun env hok => ?_
  cases halive : env.isAlive observed.pid with
  | true =>
    refine ⟨.check, ⟨lock, target⟩, ?_, (acquires_check target hlock).mono (by decide)⟩
    simp [at_, act, halive]
  | false =>
    refine ⟨.list (.confirm observed), ⟨lock, target⟩, ?_, acquires_confirm target hlock observed⟩
    simp [at_, act, halive]

omit observed

/-- **Progress**: a call on its way to the lock gets it, within 16 operations. -/
theorem acquires (htrying : call.phase.trying = true) :
    call.Acquires platform (call.Unhindered lock) 16 ⟨lock, target⟩ := by
  have hwrite : (call.at_ .writeOwner).Acquires platform (call.Unhindered lock) 13
      ⟨lock, target⟩ := by
    refine .of_act (fun env hok => ?_) (acquires_check target hlock)
    simp [at_, act, hok.io]
  have hmake : (call.at_ .makeClaim).Acquires platform (call.Unhindered lock) 14
      ⟨lock, target⟩ := by
    refine .of_act (fun env hok => ?_) hwrite
    simp [at_, act, hok.io]
  show (call.at_ call.phase).Acquires platform (call.Unhindered lock) 16 ⟨lock, target⟩
  cases hphase : call.phase with
  | makeClaim => exact hmake.mono (by decide)
  | writeOwner => exact hwrite.mono (by decide)
  | check => exact (acquires_check target hlock).mono (by decide)
  | publish => exact (acquires_publish target hlock).mono (by decide)
  | contended expected =>
    rw [hphase] at htrying
    cases expected with
    | false => cases htrying
    | true => exact (acquires_contended target hlock).mono (by decide)
  | list reading =>
    rw [hphase] at htrying
    cases reading with
    | observe => exact (acquires_list target hlock).mono (by decide)
    | confirm observed => exact (acquires_confirm target hlock observed).mono (by decide)
    | release committed => cases htrying
  | read reading file =>
    rw [hphase] at htrying
    cases reading with
    | observe => exact (acquires_read target hlock file).mono (by decide)
    | confirm observed =>
      exact (acquires_confirm_read target hlock observed file).mono (by decide)
    | release committed => cases htrying
  | probe observed => exact acquires_probe target hlock observed
  | retire observed => exact (acquires_retire target hlock observed).mono (by decide)
  | removeEmpty removal =>
    rw [hphase] at htrying
    cases removal with
    | retry => exact (acquires_removeEmpty target hlock).mono (by decide)
    | release committed => cases htrying
  | _ =>
    rw [hphase] at htrying
    cases htrying

end Trying

end LockCall

/-! ## The transactions as a whole -/

namespace LockWorld

theorem run_alone {platform : Platform} {Ok : LockEnv → Prop} {i : Text} {n : Nat}
    {world : LockWorld} {call : LockCall} (hcall : world.calls i = some call)
    (halive : call.alive = true) (h : call.Acquires platform Ok n world.files)
    {envs : List LockEnv} (hok : ∀ env ∈ envs, Ok env) (hlength : n ≤ envs.length) :
    ∃ k ≤ n, ∃ later, (world.run platform ((envs.take k).map (.act i))).calls i = some later ∧
      later.alive = true ∧ later.phase.critical = true := by
  induction n generalizing world call envs with
  | zero => exact ⟨0, le_refl 0, call, hcall, halive, h⟩
  | succ n ih =>
    rcases h with hcritical | hnext
    · exact ⟨0, Nat.zero_le _, call, hcall, halive, hcritical⟩
    · cases envs with
      | nil => cases hlength
      | cons env rest =>
        have hstep : world.step platform (.act i env) = ⟨(call.act platform env world.files).2,
            Function.update world.calls i
              (some { call with phase := (call.act platform env world.files).1 })⟩ := by
          simp [step, hcall, halive]
        obtain ⟨k, hk, later, hlater⟩ := @ih (world.step platform (.act i env))
          { call with phase := (call.act platform env world.files).1 }
          (by rw [hstep]; exact Function.update_self ..) halive
          (by rw [hstep]; exact hnext env (hok env List.mem_cons_self))
          rest (fun env' h' => hok env' (List.mem_cons_of_mem env h'))
          (Nat.le_of_succ_le_succ hlength)
        exact ⟨k + 1, Nat.succ_le_succ hk, later, hlater⟩

/-- The owner in the lock, where there is one, is a call whose process is reported dead. -/
def Unhindered (world : LockWorld) (call : LockCall) (env : LockEnv) : Prop :=
  env.io = .done ∧ call.timeoutMs.le (env.now.sub call.owner.acquiredAt) = false ∧
    ∀ j holder, world.calls j = some holder →
      world.files.lock = some [holder.owner.entry] → env.isAlive holder.owner.pid = false

end LockWorld

/-- **Transactions over one file**: in every run of any number of calls, of processes that may
die at any point, at most one live call holds the lock; the target is what the committed
updates make of it one after another, each at most once, and every update that reports success
is one of them; a target that cannot be read, parsed or validated is not overwritten; and a
call that tries alone gets the lock, where the owner in it, if any, is reported dead. -/
theorem json_transactions (platform : Platform) (target : TargetFile) {events : List LockEvent}
    (hrun : (LockWorld.initial target).AllowedRun platform events) :
    let world := (LockWorld.initial target).run platform events
    let commits := (LockWorld.initial target).commits platform events
    (∀ i j call other, world.calls i = some call → world.calls j = some other →
      call.alive = true → other.alive = true →
      call.phase.critical = true → other.phase.critical = true → i = j) ∧
    (commits.foldlM (fun target commit => (commit.2.next target).map TargetFile.text) target
        = some world.files.target ∧
      (commits.map Prod.fst).Nodup ∧
      ∀ i call, world.calls i = some call → call.phase = .done true →
        (i, call.transaction) ∈ commits) ∧
    (∀ event, (world.step platform event).files.target ≠ world.files.target →
      ∃ i transaction, world.commit? event = some (i, transaction) ∧
        (readTransactionJsonSync world.files.target transaction.validator).isSome = true) ∧
    ∀ i call, world.calls i = some call → call.alive = true → call.phase.trying = true →
      ∀ envs : List LockEnv, (∀ env ∈ envs, world.Unhindered call env) → 16 ≤ envs.length →
        ∃ k ≤ 16, ∃ later,
          (world.run platform ((envs.take k).map (.act i))).calls i = some later ∧
            later.alive = true ∧ later.phase.critical = true := by
  intro world commits
  have hsound : world.Sound := (LockWorld.sound_initial target).run hrun
  have hrecorded : world.Recorded ([] ++ commits) :=
    (LockWorld.recorded_initial target).run hrun
  refine ⟨?_, ⟨?_, hrecorded.nodup, ?_⟩, ?_, ?_⟩
  · intro i j call other hcall hother halive halive' hcritical hcritical'
    exact hsound.exclusion hcall hother halive halive' hcritical hcritical'
  · exact (LockWorld.sound_initial target).target_run hrun
  · intro i call hcall hdone
    refine hrecorded.success i call hcall ?_
    rw [hdone]
    rfl
  · intro event hchanged
    rcases hsound.target_step platform event with
      ⟨-, hsame⟩ | ⟨i, transaction, next, hcommit, hnext, -⟩
    · exact absurd hsame hchanged
    · refine ⟨i, transaction, hcommit, ?_⟩
      obtain ⟨current, hread, -⟩ := Option.bind_eq_some_iff.mp hnext
      rw [hread]
      rfl
  · intro i call hcall halive htrying envs hok hlength
    -- the owner in the lock is a call
    have hclaimable : LockCall.Claimable world.files.lock := by
      cases hlock : world.files.lock with
      | none => exact .none
      | some directory =>
        rcases hsound.lock directory hlock with rfl | ⟨j, holder, -, rfl⟩
        · exact .empty
        · exact .owned holder.owner
    have hacquires : call.Acquires platform (call.Unhindered world.files.lock) 16 world.files :=
      LockCall.acquires world.files.target hclaimable htrying
    refine LockWorld.run_alone hcall halive hacquires (fun env henv => ?_) hlength
    obtain ⟨hio, hnow, hdead⟩ := hok env henv
    refine ⟨hio, hnow, fun owner howner => ?_⟩
    rcases hsound.lock _ howner with hempty | ⟨j, holder, hholder, heq⟩
    · cases hempty
    · have hsame : owner = holder.owner := by
        have hread := readLockOwner_entry owner
        rw [heq] at hread
        exact eq_of_readLockOwner hread
      rw [hsame] at howner ⊢
      exact hdead j holder hholder howner

/-! ### A dead owner that is reported alive -/

/-- The claims of two processes. -/
def sampleLockOwner (pid : Nat) (h : 0 < pid ∧ pid ≤ maxSafeInteger) (instance_ : String)
    (hcanonical : isInstance (text instance_) = true) : LockOwner :=
  ⟨pid, text instance_, 0, pid_pos h, pid_le h, hcanonical, rfl⟩

def deadLockOwner : LockOwner :=
  sampleLockOwner 7 seven_isPid "00000000-0000-0000-0000-000000000007" (by decide)

def triedLockOwner : LockOwner :=
  sampleLockOwner 8 eight_isPid "00000000-0000-0000-0000-000000000008" (by decide)

/-- An update that starts from an empty object. -/
def sampleTransaction : Transaction where
  validator := none
  update := fun current => some (current.getD (.obj []))
  space := none

/-- Operations succeed, and every process seems to be alive. -/
def cautiousEnv : LockEnv :=
  ⟨.done, 0, fun _ => true⟩

theorem not_timedOut : Number.le 5000 (Number.sub 0 0) = false := by
  decide +kernel

/-- A process takes the lock and dies, and another one begins a transaction. -/
def deadOwnerRun : List LockEvent :=
  [.start deadLockOwner sampleTransaction 5000] ++
    List.replicate 4 (.act deadLockOwner.instance_ cautiousEnv) ++
    [.die 7, .start triedLockOwner sampleTransaction 5000]

theorem json_transactions_sample :
    (LockWorld.initial .absent).AllowedRun .posix
        [.start deadLockOwner sampleTransaction 5000] ∧
      ∃ k ≤ 16, ∃ later, (((LockWorld.initial .absent).run .posix
          [.start deadLockOwner sampleTransaction 5000]).run .posix
            (((List.replicate 16 cautiousEnv).take k).map (.act deadLockOwner.instance_))).calls
              deadLockOwner.instance_ = some later ∧
        later.alive = true ∧ later.phase.critical = true := by
  have hrun : (LockWorld.initial .absent).AllowedRun .posix
      [.start deadLockOwner sampleTransaction 5000] := ⟨rfl, trivial⟩
  refine ⟨hrun, (json_transactions .posix .absent hrun).2.2.2 _ _ (Function.update_self ..) rfl rfl
    _ (fun env henv => ?_) (List.length_replicate ▸ le_refl 16)⟩
  rw [List.eq_of_mem_replicate henv]
  exact ⟨rfl, not_timedOut, fun j holder _ hlock => nomatch hlock⟩

/-- The phases of a call that finds the dead owner again and again. -/
def stuckPhases : List LockPhase :=
  [.makeClaim, .writeOwner, .check, .publish, .contended true, .list .observe,
    .read .observe (ownerFilename deadLockOwner.instance_), .probe deadLockOwner]

/-- The call, in one of its phases. -/
def triedCall (phase : LockPhase) : LockCall :=
  ⟨triedLockOwner, sampleTransaction, 5000, phase, true⟩

theorem act_stuck {phase : LockPhase} (h : phase ∈ stuckPhases) (target : TargetFile) :
    ∃ phase' ∈ stuckPhases,
      (triedCall phase).act .posix cautiousEnv ⟨some [deadLockOwner.entry], target⟩
        = (phase', ⟨some [deadLockOwner.entry], target⟩) := by
  have hcheck : Number.le 5000 (Number.sub 0 triedLockOwner.acquiredAt) = false := not_timedOut
  have hread := readLockOwner_entry deadLockOwner
  simp only [stuckPhases, List.mem_cons, List.not_mem_nil, or_false] at h
  rcases h with rfl | rfl | rfl | rfl | rfl | rfl | rfl | rfl
  · exact ⟨.writeOwner, by simp [stuckPhases], rfl⟩
  · exact ⟨.check, by simp [stuckPhases], rfl⟩
  · exact ⟨.publish, by simp [stuckPhases], by simp [triedCall, LockCall.act, cautiousEnv, hcheck]⟩
  · exact ⟨.contended true, by simp [stuckPhases], rfl⟩
  · exact ⟨.list .observe, by simp [stuckPhases], rfl⟩
  · exact ⟨.read .observe (ownerFilename deadLockOwner.instance_), by simp [stuckPhases], rfl⟩
  · refine ⟨.probe deadLockOwner, by simp [stuckPhases], ?_⟩
    simp [triedCall, LockCall.act, cautiousEnv, hread, LockCall.ownerRead]
  · exact ⟨.check, by simp [stuckPhases], rfl⟩

theorem run_stuck {world : LockWorld} {phase : LockPhase}
    (hlock : world.files.lock = some [deadLockOwner.entry])
    (hcall : world.calls triedLockOwner.instance_ = some (triedCall phase))
    (hphase : phase ∈ stuckPhases) (n : Nat) :
    ∃ phase' ∈ stuckPhases, (world.run .posix
      (List.replicate n (.act triedLockOwner.instance_ cautiousEnv))).calls
        triedLockOwner.instance_ = some (triedCall phase') := by
  induction n generalizing world phase with
  | zero => exact ⟨phase, hphase, hcall⟩
  | succ n ih =>
    obtain ⟨phase', hphase', hact⟩ := act_stuck hphase world.files.target
    rw [← hlock] at hact
    have hstep : world.step .posix (.act triedLockOwner.instance_ cautiousEnv) = ⟨world.files,
        Function.update world.calls triedLockOwner.instance_ (some (triedCall phase'))⟩ := by
      simp only [LockWorld.step, hcall, hact]
      rfl
    rw [List.replicate_succ, LockWorld.run, List.foldl_cons, hstep]
    have hcall' : Function.update world.calls triedLockOwner.instance_ (some (triedCall phase'))
        triedLockOwner.instance_ = some (triedCall phase') := Function.update_self ..
    exact ih hlock hcall' hphase'

/-- **A dead owner that is reported alive** keeps the lock: no live call holds it, and yet a
call that tries alone does not get it, however many operations it carries out. -/
theorem dead_owner_kept :
    (LockWorld.initial .absent).AllowedRun .posix deadOwnerRun ∧
    (∀ j holder, ((LockWorld.initial .absent).run .posix deadOwnerRun).calls j = some holder →
      ((LockWorld.initial .absent).run .posix deadOwnerRun).files.lock
        = some [holder.owner.entry] → holder.alive = false) ∧
    ∀ n later, (((LockWorld.initial .absent).run .posix deadOwnerRun).run .posix
        (List.replicate n (.act triedLockOwner.instance_ cautiousEnv))).calls
          triedLockOwner.instance_ = some later →
      later.phase.critical = false := by
  have hallowed : (LockWorld.initial .absent).AllowedRun .posix deadOwnerRun := by
    refine ⟨rfl, ?_, ?_, ?_, ?_, trivial, rfl, trivial⟩
    all_goals exact fun _ _ _ h => nomatch h
  have hsound := (LockWorld.sound_initial .absent).run hallowed
  have hlock : ((LockWorld.initial .absent).run .posix deadOwnerRun).files.lock
      = some [deadLockOwner.entry] := by
    decide +kernel
  have hdead : (((LockWorld.initial .absent).run .posix deadOwnerRun).calls
      deadLockOwner.instance_).map (·.alive) = some false := by
    decide +kernel
  refine ⟨hallowed, ?_, ?_⟩
  · intro j holder hholder hown
    rw [hlock] at hown
    have hname : ownerFilename deadLockOwner.instance_ = ownerFilename holder.owner.instance_ :=
      congrArg Prod.fst (List.singleton_injective (Option.some.inj hown))
    have hinstance := ownerFilename_injective hname
    rw [hsound.filed hholder] at hinstance
    rw [hinstance, hholder] at hdead
    exact Option.some.inj hdead
  · intro n later hlater
    obtain ⟨phase, hphase, hstuck⟩ := run_stuck hlock rfl (List.mem_cons_self) n
    rw [hstuck] at hlater
    cases hlater
    simp only [stuckPhases, List.mem_cons, List.not_mem_nil, or_false] at hphase
    rcases hphase with rfl | rfl | rfl | rfl | rfl | rfl | rfl | rfl <;> rfl

end LlmRelay
