import LlmRelay.Ecma.OrderedMap
import LlmRelay.Kernel.Contracts

/-!
# Attempt lifecycles

The request-scoped owner of attempt handles (`kernel/request-lifecycle.ts`). A
handle is an object identity; the module keeps one registry of every handle
ever issued, so a handle of another lifecycle is told apart from an unknown
object.

## Main definitions

* `Ref`, `AttemptHandle`: object identities, and the values a caller may pass
  where a handle is expected;
* `AttemptRecord`, `KnownHandles`: the registry;
* `AttemptLifecycle.beginAttempt`, `AttemptLifecycle.completeAttempt`,
  `AttemptLifecycle.close`: the operations.

## Main results

* `AttemptLifecycle.completeAttempt_cases`: a completion is rejected and changes
  nothing, or completes one open handle.
-/

namespace LlmRelay

open Ecma

/-- An object identity. -/
abbrev Ref := Nat

/-- A value passed where a handle is expected: an object, or a value of a
primitive type (`null` included). -/
inductive AttemptHandle where
  | object (ref : Ref)
  | primitive
  deriving DecidableEq, Repr

/-- What the registry knows of an issued handle. -/
structure AttemptRecord where
  owner : Ref
  generation : Nat
  id : AttemptId
  target : ProviderTargetIdentity
  completed : Bool
  deriving DecidableEq

/-- The registry of issued handles, shared by all lifecycles. -/
abbrev KnownHandles := OrderedMap Ref AttemptRecord

/-- The private state of one lifecycle. -/
structure AttemptLifecycle where
  owner : Ref
  generation : Nat
  issued : Nat
  closed : Bool
  deriving DecidableEq

namespace AttemptLifecycle

/-- The constructor; `none` is the `RangeError` for a generation that is not a
positive safe integer. -/
def construct (owner : Ref) (generation : Nat) : Option AttemptLifecycle :=
  if !isSafeNat generation || generation < 1 then none
  else some { owner, generation, issued := 0, closed := false }

/-- The id of the `ordinal`-th attempt of a generation. -/
def attemptId (generation ordinal : Nat) : AttemptId :=
  toString generation ++ ":" ++ toString ordinal

/-- Issues the handle with the fresh identity `ref`. -/
def beginAttempt (lifecycle : AttemptLifecycle) (known : KnownHandles) (ref : Ref)
    (target : ProviderTargetIdentity) :
    Except AttemptBeginFailure Ref × AttemptLifecycle × KnownHandles :=
  if lifecycle.closed then (.error .lifecycleClosed, lifecycle, known)
  else
    let ordinal := lifecycle.issued + 1
    let record :=
      { owner := lifecycle.owner
        generation := lifecycle.generation
        id := attemptId lifecycle.generation ordinal
        target
        completed := false }
    (.ok ref, { lifecycle with issued := ordinal }, known.set ref record)

/-- Completes a handle; the registry is the only state it writes. -/
def completeAttempt (lifecycle : AttemptLifecycle) (known : KnownHandles)
    (handle : AttemptHandle) (outcome : AttemptOutcome) :
    Except AttemptCompletionFailure CompletedAttempt × KnownHandles :=
  match handle with
  | .primitive => (.error .staleHandle, known)
  | .object ref =>
    match known.get? ref with
    | none => (.error .staleHandle, known)
    | some record =>
      if record.owner ≠ lifecycle.owner then (.error .foreignHandle, known)
      else if record.generation ≠ lifecycle.generation then (.error .staleHandle, known)
      else if record.completed then (.error (.duplicateCompletion record.id), known)
      else if !sameProviderTarget record.target outcome.target then
        (.error (.crossTarget record.target outcome.target), known)
      else
        (.ok { id := record.id, target := record.target, outcome },
          known.set ref { record with completed := true })

/-- Refuses every later `beginAttempt`. -/
def close (lifecycle : AttemptLifecycle) : AttemptLifecycle :=
  { lifecycle with closed := true }

/-! ## What the operations change -/

section Operations

variable (lifecycle : AttemptLifecycle) (known : KnownHandles)

theorem beginAttempt_cases (ref : Ref) (target : ProviderTargetIdentity) :
    lifecycle.beginAttempt known ref target = (.error .lifecycleClosed, lifecycle, known) ∨
      ∃ record, record.target = target ∧ record.completed = false ∧
        lifecycle.beginAttempt known ref target
          = (.ok ref, { lifecycle with issued := lifecycle.issued + 1 },
              known.set ref record) := by
  unfold beginAttempt
  split_ifs
  · exact .inl rfl
  · exact .inr ⟨_, rfl, rfl, rfl⟩

/-- **Completing a handle** either changes nothing, or completes an issued
handle that was open and marks exactly that handle. -/
theorem completeAttempt_cases (handle : AttemptHandle) (outcome : AttemptOutcome) :
    (∃ failure, lifecycle.completeAttempt known handle outcome = (.error failure, known)) ∨
      ∃ ref record done, handle = .object ref ∧ known.get? ref = some record ∧
        record.completed = false ∧
        lifecycle.completeAttempt known handle outcome
          = (.ok done, known.set ref { record with completed := true }) := by
  cases handle with
  | primitive => exact .inl ⟨_, rfl⟩
  | object ref =>
    cases hrecord : known.get? ref with
    | none => exact .inl ⟨.staleHandle, by simp only [completeAttempt, hrecord]⟩
    | some record =>
      simp only [completeAttempt, hrecord]
      split_ifs with howner hgeneration hcompleted hsame
      · exact .inl ⟨_, rfl⟩
      · exact .inl ⟨_, rfl⟩
      · exact .inl ⟨_, rfl⟩
      · exact .inl ⟨_, rfl⟩
      · exact .inr ⟨ref, record, _, rfl, hrecord, by simpa using hcompleted, rfl⟩

end Operations

end AttemptLifecycle

end LlmRelay
