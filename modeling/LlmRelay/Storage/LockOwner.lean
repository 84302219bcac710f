import LlmRelay.Jobs.JournalRow

/-!
# The owner file of a file lock

A lock is a directory with one file that names its owner (`storage/file-lock.ts`). The name of
the file carries the instance of the claim, so it differs from that of every other claim. A
file is kept as the value that its text parses to.

## Main definitions

* `LockOwner`: who claimed the lock;
* `LockDirectory`: the files of a lock directory;
* `readLockOwner`: the owner that one file of a directory names.

## Main results

* `readLockOwner_entry`: the file of an owner reads back;
* `ownerFilename_injective`: files of two claims have different names.
-/

namespace LlmRelay

open Ecma

def LOCK_VERSION : Nat := 2

/-- Groups of hexadecimal digits of the given lengths, with hyphens between them. -/
def hexGroups : List Nat → Text → Bool
  | [], t => t = []
  | [n], t => t.length = n && t.all isHexDigit
  | n :: rest, t =>
    (t.take n).length = n && (t.take n).all isHexDigit && t[n]? = some 0x2D
      && hexGroups rest (t.drop (n + 1))

/-- `INSTANCE_PATTERN`. -/
def isInstance (t : Text) : Bool :=
  hexGroups [8, 4, 4, 4, 12] t

/-- One claim on a lock. -/
@[ext]
structure LockOwner where
  pid : Nat
  instance_ : Text
  acquiredAt : Number
  positive : 0 < pid
  safe : pid ≤ maxSafeInteger
  canonical : isInstance instance_ = true
  finite : acquiredAt.isFinite = true

instance : DecidableEq LockOwner := fun a b =>
  decidable_of_iff (a.pid = b.pid ∧ a.instance_ = b.instance_ ∧ a.acquiredAt = b.acquiredAt)
    LockOwner.ext_iff.symm

def LockOwner.toJson (owner : LockOwner) : Json :=
  .ofProperties [("version", some (.ofNat LOCK_VERSION)), ("pid", some (.ofNat owner.pid)),
    ("instance", some (.str owner.instance_)), ("acquiredAt", some (.num owner.acquiredAt))]

/-- `isLockOwner`, and the owner. -/
def isLockOwner (value : Json) : Option LockOwner :=
  match Json.count? (value.get? (text "pid")), Json.string? (value.get? (text "instance")),
    Json.number? (value.get? (text "acquiredAt")) with
  | some pid, some instance_, some acquiredAt =>
    if h : (0 < pid ∧ pid ≤ maxSafeInteger) ∧ isInstance instance_ = true
        ∧ acquiredAt.isFinite = true then
      if value.get? (text "version") = some (.ofNat LOCK_VERSION) then
        some ⟨pid, instance_, acquiredAt, h.1.1, h.1.2, h.2.1, h.2.2⟩
      else none
    else none
  | _, _, _ => none

def ownerFilename (instance_ : Text) : Text :=
  text "owner-" ++ instance_ ++ text ".json"

/-! ## Directories -/

/-- The files of a directory, by name; the content is absent where it is no JSON text. -/
abbrev LockDirectory := List (Text × Option Json)

/-- The one file of a claim. -/
def LockOwner.entry (owner : LockOwner) : Text × Option Json :=
  (ownerFilename owner.instance_, some owner.toJson)

/-- The owner that a file names, where the file is its own. -/
def readLockOwner (directory : LockDirectory) (file : Text) : Option LockOwner :=
  match lookupEntry file directory with
  | some (some parsed) =>
    (isLockOwner parsed).filter fun owner => file = ownerFilename owner.instance_
  | _ => none

@[simp] theorem isLockOwner_toJson (owner : LockOwner) : isLockOwner owner.toJson = some owner := by
  obtain ⟨pid, instance_, acquiredAt, hpositive, hsafe, hcanonical, hfinite⟩ := owner
  simp [isLockOwner, LockOwner.toJson, Json.string?, Json.number?, hpositive, hsafe, hcanonical,
    hfinite]

theorem ownerFilename_injective : Function.Injective ownerFilename := by
  intro a b h
  exact List.append_cancel_left (List.append_cancel_right h)

/-- The file of an owner reads back. -/
theorem readLockOwner_entry (owner : LockOwner) :
    readLockOwner [owner.entry] (ownerFilename owner.instance_) = some owner := by
  simp [readLockOwner, LockOwner.entry, lookupEntry]

theorem eq_of_readLockOwner {owner other : LockOwner} {file : Text}
    (h : readLockOwner [owner.entry] file = some other) : other = owner := by
  by_cases hname : ownerFilename owner.instance_ = file
  · subst hname
    rw [readLockOwner_entry] at h
    exact (Option.some.inj h).symm
  · unfold readLockOwner LockOwner.entry at h
    simp only [lookupEntry, if_neg hname] at h
    cases h

end LlmRelay
