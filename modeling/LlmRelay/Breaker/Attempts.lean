import LlmRelay.Breaker.State
import LlmRelay.Kernel.RequestLifecycle

/-!
# The attempt lifecycle of a circuit breaker

The operations of `CircuitBreaker` that begin, observe and complete an attempt,
and its reset (`circuit-breaker.ts`), over a world of any number of breakers
that share the two module-level handle registries.

## Main definitions

* `CircuitBreaker`: the private state of a breaker;
* `CircuitBreaker.beginAttempt`, `CircuitBreaker.observeHeaders`,
  `CircuitBreaker.completeAttempt`, `CircuitBreaker.reset`: the operations;
* `World.step`: one call on one breaker of a world.

## Main results

* `World.step_eq_of_rejected`: a rejected call leaves the whole world unchanged.
-/

namespace LlmRelay

open Ecma

/-- What a breaker keeps for an attempt it began. -/
structure BreakerAttemptRecord where
  generation : Nat
  target : ProviderTargetIdentity
  observation : Option HeaderObservation
  completedId : Option AttemptId
  deriving DecidableEq

/-- The state all breakers share: the next object identity, the registry of the
lifecycles, and which breaker issued a handle. -/
structure HandleHeap where
  nextRef : Ref
  knownHandles : KnownHandles
  breakerHandleOwners : OrderedMap Ref Ref

/-- The private state of a breaker. -/
structure CircuitBreaker where
  states : CircuitStates
  credentialInFlight : OrderedMap String Nat
  attemptStarts : AttemptStarts
  owner : Ref
  generation : Nat
  lifecycle : AttemptLifecycle
  attempts : OrderedMap Ref BreakerAttemptRecord

/-- The optional second argument of `beginAttempt`. -/
structure AttemptStartOptions where
  at_ : Option Number
  estimatedInputTokens : Option Number

namespace CircuitBreaker

/-- A new breaker, with the identities of itself and of its first lifecycle. -/
def construct (owner lifecycleOwner : Ref) : CircuitBreaker where
  states := .empty
  credentialInFlight := .empty
  attemptStarts := .empty
  owner
  generation := 1
  lifecycle := { owner := lifecycleOwner, generation := 1, issued := 0, closed := false }
  attempts := .empty

/-- Active backend attempts for one credential. -/
def inFlightCredential (breaker : CircuitBreaker) (credentialId : String) : Nat :=
  (breaker.credentialInFlight.get? credentialId).getD 0

/-- Begins an attempt; `dateNow` is the clock, read where no start is given. -/
def beginAttempt (breaker : CircuitBreaker) (heap : HandleHeap)
    (target : ProviderTargetIdentity) (start : AttemptStartOptions) (dateNow : Number) :
    Except AttemptBeginFailure Ref × HandleHeap × CircuitBreaker :=
  match breaker.lifecycle.beginAttempt heap.knownHandles heap.nextRef target with
  | (.error failure, lifecycle, knownHandles) =>
    (.error failure, { heap with knownHandles }, { breaker with lifecycle })
  | (.ok handle, lifecycle, knownHandles) =>
    (.ok handle,
      { nextRef := heap.nextRef + 1
        knownHandles
        breakerHandleOwners := heap.breakerHandleOwners.set handle breaker.owner },
      { breaker with
        lifecycle
        attempts := breaker.attempts.set handle
          { generation := breaker.generation, target, observation := none, completedId := none }
        credentialInFlight := breaker.credentialInFlight.set target.credentialId
          (breaker.inFlightCredential target.credentialId + 1)
        attemptStarts := recordAttemptStart breaker.attemptStarts target
          (start.at_.getD dateNow) start.estimatedInputTokens })

/-- The record of a handle of the current generation. -/
def getAttemptRecord (breaker : CircuitBreaker) (heap : HandleHeap) (handle : AttemptHandle) :
    Except AttemptCompletionFailure (Ref × BreakerAttemptRecord) :=
  match handle with
  | .primitive => .error .staleHandle
  | .object ref =>
    match breaker.attempts.get? ref with
    | none =>
      match heap.breakerHandleOwners.get? ref with
      | some owner => if owner ≠ breaker.owner then .error .foreignHandle else .error .staleHandle
      | none => .error .staleHandle
    | some record =>
      if record.generation ≠ breaker.generation then .error .staleHandle else .ok (ref, record)

/-- Stores provisional response metadata for an open attempt. -/
def observeHeaders (breaker : CircuitBreaker) (heap : HandleHeap) (handle : AttemptHandle)
    (observation : HeaderObservation) :
    Except HeaderObservationFailure HeaderObservation × CircuitBreaker :=
  match breaker.getAttemptRecord heap handle with
  | .error failure => (.error (.completion failure), breaker)
  | .ok (ref, record) =>
    match record.completedId with
    | some id => (.error (.completion (.duplicateCompletion id)), breaker)
    | none =>
      if !sameProviderTarget record.target observation.target then
        (.error (.completion (.crossTarget record.target observation.target)), breaker)
      else if record.observation.isSome then (.error .duplicateObservation, breaker)
      else
        (.ok observation,
          { breaker with
            attempts := breaker.attempts.set ref { record with observation := some observation } })

/-- Releases one in-flight lease of a credential. -/
def releaseInFlight (credentialInFlight : OrderedMap String Nat) (credentialId : String) :
    OrderedMap String Nat :=
  let inFlight := (credentialInFlight.get? credentialId).getD 0
  if inFlight ≤ 1 then credentialInFlight.delete credentialId
  else credentialInFlight.set credentialId (inFlight - 1)

theorem getD_releaseInFlight (counts : OrderedMap String Nat) (credentialId c : String) :
    ((releaseInFlight counts credentialId).get? c).getD 0
      = (counts.get? c).getD 0 - (if credentialId = c then 1 else 0) := by
  by_cases hle : (counts.get? credentialId).getD 0 ≤ 1
  · by_cases hc : credentialId = c
    · subst hc
      simp only [releaseInFlight, hle, if_true, OrderedMap.get?_delete, Option.getD_none]
      omega
    · simp [releaseInFlight, hle, OrderedMap.get?_delete, hc]
  · by_cases hc : credentialId = c
    · subst hc
      simp [releaseInFlight, hle]
    · simp [releaseInFlight, hle, OrderedMap.get?_set, hc]

/-- Completes an attempt and applies its outcome to the cells. -/
def completeAttempt [Url] (breaker : CircuitBreaker) (heap : HandleHeap)
    (handle : AttemptHandle) (outcome : AttemptOutcome) :
    Except AttemptCompletionFailure CompletedAttempt × HandleHeap × CircuitBreaker :=
  match breaker.getAttemptRecord heap handle with
  | .error failure => (.error failure, heap, breaker)
  | .ok (ref, record) =>
    match record.completedId with
    | some id => (.error (.duplicateCompletion id), heap, breaker)
    | none =>
      if !sameProviderTarget record.target outcome.target then
        (.error (.crossTarget record.target outcome.target), heap, breaker)
      else
        match breaker.lifecycle.completeAttempt heap.knownHandles handle outcome with
        | (.error failure, knownHandles) => (.error failure, { heap with knownHandles }, breaker)
        | (.ok completed, knownHandles) =>
          (.ok completed, { heap with knownHandles },
            { breaker with
              attempts := breaker.attempts.set ref { record with completedId := some completed.id }
              credentialInFlight :=
                releaseInFlight breaker.credentialInFlight record.target.credentialId
              states :=
                applyTerminalOutcome breaker.states record.target outcome record.observation })

/-- Forgets every cell and retires every handle. The flag says whether the next
lifecycle could be constructed; where it could not, the constructor's
`RangeError` leaves the closed lifecycle in place. -/
def reset (breaker : CircuitBreaker) (heap : HandleHeap) : Bool × HandleHeap × CircuitBreaker :=
  let generation := breaker.generation + 1
  let cleared :=
    { breaker with
      states := .empty
      credentialInFlight := .empty
      attemptStarts := .empty
      lifecycle := breaker.lifecycle.close
      generation }
  match AttemptLifecycle.construct heap.nextRef generation with
  | none => (false, heap, cleared)
  | some lifecycle => (true, { heap with nextRef := heap.nextRef + 1 }, { cleared with lifecycle })

/-! ## What the operations change -/

section Operations

variable (breaker : CircuitBreaker) (heap : HandleHeap)

theorem getAttemptRecord_ok {handle : AttemptHandle} {ref : Ref} {record : BreakerAttemptRecord}
    (h : breaker.getAttemptRecord heap handle = .ok (ref, record)) :
    handle = .object ref ∧ breaker.attempts.get? ref = some record ∧
      record.generation = breaker.generation := by
  cases handle with
  | primitive => cases h
  | object ref' =>
    cases hrecord : breaker.attempts.get? ref' with
    | none =>
      simp only [getAttemptRecord, hrecord] at h
      split at h
      · split_ifs at h
      · cases h
    | some record' =>
      simp only [getAttemptRecord, hrecord] at h
      split_ifs at h with hgeneration
      cases h
      exact ⟨rfl, hrecord, not_not.mp hgeneration⟩

/-- **Beginning an attempt** is refused and changes nothing, or issues the next
identity and counts one more attempt in flight. -/
theorem beginAttempt_cases (target : ProviderTargetIdentity) (start : AttemptStartOptions)
    (dateNow : Number) :
    (∃ failure, breaker.beginAttempt heap target start dateNow = (.error failure, heap, breaker)) ∨
      ∃ known lifecycle attemptStarts, known.completed = false ∧
        breaker.beginAttempt heap target start dateNow
          = (.ok heap.nextRef,
              { nextRef := heap.nextRef + 1
                knownHandles := heap.knownHandles.set heap.nextRef known
                breakerHandleOwners := heap.breakerHandleOwners.set heap.nextRef breaker.owner },
              { breaker with
                lifecycle
                attemptStarts
                attempts := breaker.attempts.set heap.nextRef
                  { generation := breaker.generation
                    target
                    observation := none
                    completedId := none }
                credentialInFlight := breaker.credentialInFlight.set target.credentialId
                  (breaker.inFlightCredential target.credentialId + 1) }) := by
  rcases breaker.lifecycle.beginAttempt_cases heap.knownHandles heap.nextRef target with
    hbegin | ⟨known, -, hopen, hbegin⟩
  · exact .inl ⟨.lifecycleClosed, by simp only [beginAttempt, hbegin]⟩
  · exact .inr ⟨known, _, _, hopen, by simp only [beginAttempt, hbegin]; rfl⟩

/-- **Observing headers** is refused and changes nothing, or stores the first
observation of an open attempt of this generation. -/
theorem observeHeaders_cases (handle : AttemptHandle) (observation : HeaderObservation) :
    (∃ failure, breaker.observeHeaders heap handle observation = (.error failure, breaker)) ∨
      ∃ ref record, handle = .object ref ∧ breaker.attempts.get? ref = some record ∧
        record.generation = breaker.generation ∧
        breaker.observeHeaders heap handle observation
          = (.ok observation,
              { breaker with
                attempts := breaker.attempts.set ref
                  { record with observation := some observation } }) := by
  cases hget : breaker.getAttemptRecord heap handle with
  | error failure => exact .inl ⟨.completion failure, by simp only [observeHeaders, hget]⟩
  | ok found =>
    obtain ⟨ref, record⟩ := found
    obtain ⟨rfl, hrecord, hgeneration⟩ := getAttemptRecord_ok breaker heap hget
    cases hid : record.completedId with
    | some id =>
      exact .inl ⟨.completion (.duplicateCompletion id), by simp only [observeHeaders, hget, hid]⟩
    | none =>
      simp only [observeHeaders, hget, hid]
      split_ifs
      · exact .inl ⟨_, rfl⟩
      · exact .inl ⟨_, rfl⟩
      · exact .inr ⟨ref, record, rfl, hrecord, hgeneration, by simp [hid]⟩

/-- **Completing an attempt** is refused and changes nothing, or completes an
open attempt of this generation: its record and its handle are marked, one
lease is released, and its outcome is applied once. -/
theorem completeAttempt_cases [Url] (handle : AttemptHandle) (outcome : AttemptOutcome) :
    (∃ failure, breaker.completeAttempt heap handle outcome = (.error failure, heap, breaker)) ∨
      ∃ ref record known done,
        handle = .object ref ∧ breaker.attempts.get? ref = some record ∧
        record.generation = breaker.generation ∧ record.completedId = none ∧
        heap.knownHandles.get? ref = some known ∧ known.completed = false ∧
        breaker.completeAttempt heap handle outcome
          = (.ok done,
              { heap with
                knownHandles := heap.knownHandles.set ref { known with completed := true } },
              { breaker with
                attempts := breaker.attempts.set ref { record with completedId := some done.id }
                credentialInFlight :=
                  releaseInFlight breaker.credentialInFlight record.target.credentialId
                states :=
                  applyTerminalOutcome breaker.states record.target outcome
                    record.observation }) := by
  cases hget : breaker.getAttemptRecord heap handle with
  | error failure => exact .inl ⟨failure, by simp only [completeAttempt, hget]⟩
  | ok found =>
    obtain ⟨ref, record⟩ := found
    obtain ⟨rfl, hrecord, hgeneration⟩ := getAttemptRecord_ok breaker heap hget
    cases hid : record.completedId with
    | some id =>
      exact .inl ⟨.duplicateCompletion id, by simp only [completeAttempt, hget, hid]⟩
    | none =>
      simp only [completeAttempt, hget, hid]
      split_ifs
      · exact .inl ⟨_, rfl⟩
      · rcases breaker.lifecycle.completeAttempt_cases heap.knownHandles (.object ref) outcome with
          ⟨failure, hfail⟩ | ⟨ref', known, done, href, hknown, hopen, hdone⟩
        · exact .inl ⟨failure, by rw [hfail]⟩
        · cases href
          exact .inr ⟨ref, record, known, done, rfl, hrecord, hgeneration, hid, hknown, hopen,
            by rw [hdone]⟩

/-- **A reset** forgets the cells and the leases and moves to the next
generation; the records of earlier attempts stay behind. -/
theorem reset_spec :
    heap.nextRef ≤ (breaker.reset heap).2.1.nextRef ∧
      (breaker.reset heap).2.1.knownHandles = heap.knownHandles ∧
      (breaker.reset heap).2.2.states = .empty ∧
      (breaker.reset heap).2.2.credentialInFlight = .empty ∧
      (breaker.reset heap).2.2.generation = breaker.generation + 1 ∧
      (breaker.reset heap).2.2.attempts = breaker.attempts := by
  cases hnew : AttemptLifecycle.construct heap.nextRef (breaker.generation + 1) with
  | none => simp [reset, hnew]
  | some lifecycle => simp [reset, hnew]

end Operations

end CircuitBreaker

/-! ## Worlds of breakers -/

/-- Any number of breakers, by owner identity, and the state they share. -/
structure World where
  heap : HandleHeap
  breakers : OrderedMap Ref CircuitBreaker

/-- A call on a breaker, or the construction of one. -/
inductive Call where
  | construct
  | beginAttempt (breaker : Ref) (target : ProviderTargetIdentity)
      (start : AttemptStartOptions) (dateNow : Number)
  | observeHeaders (breaker : Ref) (handle : AttemptHandle) (observation : HeaderObservation)
  | completeAttempt (breaker : Ref) (handle : AttemptHandle) (outcome : AttemptOutcome)
  | reset (breaker : Ref)

/-- What a call returns. -/
inductive Reply where
  | constructed (breaker : Ref)
  | noBreaker
  | begun (result : Except AttemptBeginFailure Ref)
  | observed (result : Except HeaderObservationFailure HeaderObservation)
  | completed (result : Except AttemptCompletionFailure CompletedAttempt)
  | wasReset (constructed : Bool)

/-- The replies that carry `ok: false`. -/
def Reply.rejected : Reply → Bool
  | .begun (.error _) => true
  | .observed (.error _) => true
  | .completed (.error _) => true
  | _ => false

namespace World

/-- The world before any breaker is constructed. -/
def initial : World where
  heap := { nextRef := 0, knownHandles := .empty, breakerHandleOwners := .empty }
  breakers := .empty

/-- Stores the results of an operation on the breaker `b`. -/
def update (w : World) (b : Ref) (heap : HandleHeap) (breaker : CircuitBreaker) : World where
  heap
  breakers := w.breakers.set b breaker

/-- One call. -/
def step [Url] (w : World) : Call → World × Reply
  | .construct =>
    let owner := w.heap.nextRef
    let heap := { w.heap with nextRef := w.heap.nextRef + 2 }
    (w.update owner heap (.construct owner (owner + 1)), .constructed owner)
  | .beginAttempt b target start dateNow =>
    match w.breakers.get? b with
    | none => (w, .noBreaker)
    | some breaker =>
      let (result, heap, breaker') := breaker.beginAttempt w.heap target start dateNow
      (w.update b heap breaker', .begun result)
  | .observeHeaders b handle observation =>
    match w.breakers.get? b with
    | none => (w, .noBreaker)
    | some breaker =>
      let (result, breaker') := breaker.observeHeaders w.heap handle observation
      (w.update b w.heap breaker', .observed result)
  | .completeAttempt b handle outcome =>
    match w.breakers.get? b with
    | none => (w, .noBreaker)
    | some breaker =>
      let (result, heap, breaker') := breaker.completeAttempt w.heap handle outcome
      (w.update b heap breaker', .completed result)
  | .reset b =>
    match w.breakers.get? b with
    | none => (w, .noBreaker)
    | some breaker =>
      let (constructed, heap, breaker') := breaker.reset w.heap
      (w.update b heap breaker', .wasReset constructed)

theorem update_self {w : World} {b : Ref} {breaker : CircuitBreaker}
    (h : w.breakers.get? b = some breaker) : w.update b w.heap breaker = w := by
  simp only [update, OrderedMap.set_of_get? h]

/-- **A rejected call changes nothing**, in any breaker or in the shared state. -/
theorem step_eq_of_rejected [Url] (w : World) (call : Call)
    (h : (w.step call).2.rejected = true) : (w.step call).1 = w := by
  cases call with
  | construct => cases h
  | beginAttempt b target start dateNow =>
    cases hb : w.breakers.get? b with
    | none => simp only [step, hb]
    | some breaker =>
      rcases breaker.beginAttempt_cases w.heap target start dateNow with
        ⟨failure, hfail⟩ | ⟨known, lifecycle, starts, -, hok⟩
      · simp only [step, hb, hfail, update_self hb]
      · simp only [step, hb, hok] at h
        cases h
  | observeHeaders b handle observation =>
    cases hb : w.breakers.get? b with
    | none => simp only [step, hb]
    | some breaker =>
      rcases breaker.observeHeaders_cases w.heap handle observation with
        ⟨failure, hfail⟩ | ⟨ref, record, -, -, -, hok⟩
      · simp only [step, hb, hfail, update_self hb]
      · simp only [step, hb, hok] at h
        cases h
  | completeAttempt b handle outcome =>
    cases hb : w.breakers.get? b with
    | none => simp only [step, hb]
    | some breaker =>
      rcases breaker.completeAttempt_cases w.heap handle outcome with
        ⟨failure, hfail⟩ | ⟨ref, record, known, done, -, -, -, -, -, -, hok⟩
      · simp only [step, hb, hfail, update_self hb]
      · simp only [step, hb, hok] at h
        cases h
  | reset b =>
    cases hb : w.breakers.get? b with
    | none => simp only [step, hb]
    | some breaker =>
      simp only [step, hb] at h
      cases h

end World

end LlmRelay
