import LlmRelay.Ecma.JsonLayout
import LlmRelay.Storage.LockOwner

/-!
# Transactions over one JSON file

The lock of `storage/file-lock.ts` and the transaction of `storage/json-store.ts`, one
file-system operation after another. A call is in a phase, its next operation; what it
carries from one operation to the next is part of the phase. Claim directories and temporary
files are private to a call, so only the lock directory and the target file are shared.

## Main definitions

* `Transaction`: what a caller asks for;
* `readTransactionJsonSync`, `Transaction.next`: the value that is read, and the text that
  replaces it;
* `LockPhase`: the next operation of a call;
* `LockCall.act`: one operation.
-/

namespace LlmRelay

open Ecma

/-! ## The target -/

/-- What is at the path of the target; `unreadable` stands for everything that cannot be read. -/
inductive TargetFile where
  | absent
  | unreadable
  | text (t : Text)

/-- A mutation of the file: the check of what is read, the update, which may throw, and the
indentation. -/
structure Transaction where
  validator : Option (Json → Bool)
  update : Option Json → Option Json
  space : Option Nat

/-- The current value, if the file can be used: a missing file is a starting state, and an
unusable one is not. -/
def readTransactionJsonSync (target : TargetFile) (validator : Option (Json → Bool)) :
    Option (Option Json) :=
  match target with
  | .absent => some none
  | .unreadable => none
  | .text raw =>
    if raw.trim = [] then none
    else
      match Json.parse raw with
      | none => none
      | some parsed => if validator.all fun valid => valid parsed then some (some parsed) else none

/-- The text that the transaction writes over the target, unless it throws. -/
def Transaction.next (transaction : Transaction) (target : TargetFile) : Option Text :=
  (readTransactionJsonSync target transaction.validator).bind fun current =>
    (transaction.update current).map fun next =>
      Json.stringifyIndented (transaction.space.getD 2) next ++ [lf]

/-! ## Phases -/

/-- Why the owner of the lock is read. -/
inductive OwnerReading where
  | observe
  | confirm (observed : LockOwner)
  | release (committed : Bool)
  deriving DecidableEq

/-- After which an empty lock directory is removed. -/
inductive LockRemoval where
  | retry
  | release (committed : Bool)
  deriving DecidableEq

/-- The next operation of a call. -/
inductive LockPhase where
  | makeClaim
  | writeOwner
  | check
  | publish
  | contended (expected : Bool)
  | list (reading : OwnerReading)
  | read (reading : OwnerReading) (file : Text)
  | probe (observed : LockOwner)
  | retire (observed : LockOwner)
  | unlinkOwn (committed : Bool)
  | removeEmpty (removal : LockRemoval)
  | cleanup
  | load
  | save (next : Text)
  | replace (next : Text) (attempt : Nat)
  | done (success : Bool)
  deriving DecidableEq

/-- How an operation goes: it is carried out, refused with a code of contention, or it fails
with another one. -/
inductive IoOutcome where
  | done
  | refused
  | broken
  deriving DecidableEq

/-- What a call sees beyond the files: how the operation goes, the clock, and which processes
seem to be alive. -/
structure LockEnv where
  io : IoOutcome
  now : Number
  isAlive : Nat → Bool

inductive Platform where
  | posix
  | win32
  deriving DecidableEq

/-- What calls share. -/
structure LockFiles where
  lock : Option LockDirectory
  target : TargetFile

/-- One call of `transactionalUpdateJsonSync`. -/
structure LockCall where
  owner : LockOwner
  transaction : Transaction
  timeoutMs : Number
  phase : LockPhase
  alive : Bool

def WINDOWS_RENAME_RETRY_DELAYS_MS : List Nat := [10, 20, 40, 80, 160, 250, 250, 250]

/-! ## Operations -/

/-- A directory replaces no directory, or an empty one where the platform allows it. -/
def renames (platform : Platform) : Option LockDirectory → Bool
  | none => true
  | some directory => directory.isEmpty && platform = .posix

/-- The directory without a file. -/
def unlinked (directory : LockDirectory) (file : Text) : LockDirectory :=
  directory.filter fun entry => entry.1 ≠ file

/-- The same claim, as far as a later reading can tell. -/
def sameClaim (a b : LockOwner) : Bool :=
  a.pid = b.pid && a.instance_ = b.instance_

namespace LockCall

variable (call : LockCall)

/-- The call goes on with the owner that it read. -/
def ownerRead : OwnerReading → Option LockOwner → LockPhase
  | .observe, none => .removeEmpty .retry
  | .observe, some observed => .probe observed
  | .confirm observed, current =>
    if current.any fun owner => sameClaim owner observed then .retire observed else .check
  | .release committed, current =>
    if current.any fun owner => sameClaim owner call.owner then .unlinkOwn committed
    else .done false

/-- After `removeEmptyLock`; whether it removed the directory only decides about a pause. -/
def removed : LockRemoval → LockPhase
  | .retry => .check
  | .release committed => .done committed

/-- After `removeEmptyLock` threw. -/
def notRemoved : LockRemoval → LockPhase
  | .retry => .cleanup
  | .release _ => .done false

/-- The work threw, or its replacement of the target did. -/
def workFailed : LockPhase :=
  .list (.release false)

/-- One operation: the next phase, and the files. -/
def act (platform : Platform) (env : LockEnv) (files : LockFiles) : LockPhase × LockFiles :=
  match call.phase with
  | .makeClaim => (if env.io = .done then .writeOwner else .done false, files)
  | .writeOwner => (if env.io = .done then .check else .cleanup, files)
  | .check =>
    (if call.timeoutMs.le (env.now.sub call.owner.acquiredAt) then .cleanup else .publish, files)
  | .publish =>
    if env.io = .done ∧ renames platform files.lock = true then
      (.load, { files with lock := some [call.owner.entry] })
    else (.contended (env.io ≠ .broken), files)
  | .contended expected =>
    -- `existsSync` is false where it cannot tell
    if files.lock.isSome = true ∧ env.io = .done then (.list .observe, files)
    else (if expected then .check else .cleanup, files)
  | .list reading =>
    match files.lock, env.io with
    | some [(file, _)], .done => (.read reading file, files)
    | _, _ => (call.ownerRead reading none, files)
  | .read reading file =>
    match files.lock, env.io with
    | some directory, .done => (call.ownerRead reading (readLockOwner directory file), files)
    | _, _ => (call.ownerRead reading none, files)
  | .probe observed =>
    (if env.isAlive observed.pid then .check else .list (.confirm observed), files)
  | .retire observed =>
    if env.io = .done then
      match files.lock with
      | none => (.check, files)
      | some directory =>
        if (lookupEntry (ownerFilename observed.instance_) directory).isSome then
          (.removeEmpty .retry,
            { files with lock := some (unlinked directory (ownerFilename observed.instance_)) })
        else (.check, files)
    else (.cleanup, files)
  | .unlinkOwn committed =>
    match files.lock, env.io with
    | some directory, .done =>
      if (lookupEntry (ownerFilename call.owner.instance_) directory).isSome then
        (.removeEmpty (.release committed),
          { files with lock := some (unlinked directory (ownerFilename call.owner.instance_)) })
      else (.done false, files)
    | _, _ => (.done false, files)
  | .removeEmpty removal =>
    match env.io with
    | .broken => (notRemoved removal, files)
    | .refused => (removed removal, files)
    | .done =>
      (removed removal,
        { files with lock := files.lock.filter fun directory => !directory.isEmpty })
  | .cleanup => (.done false, files)
  | .load =>
    match env.io, call.transaction.next files.target with
    | .done, some next => (.save next, files)
    | _, _ => (workFailed, files)
  | .save next => (if env.io = .done then .replace next 0 else workFailed, files)
  | .replace next attempt =>
    match env.io with
    | .done => (.list (.release true), { files with target := .text next })
    | .refused =>
      (if platform = .win32 ∧ attempt < WINDOWS_RENAME_RETRY_DELAYS_MS.length then
          .replace next (attempt + 1)
        else workFailed, files)
    | .broken => (workFailed, files)
  | .done success => (.done success, files)

end LockCall

end LlmRelay
