import LlmRelay.Breaker.Attempts
import LlmRelay.Transition.Run

/-!
# The exactly-once attempt lifecycle

What a breaker is for, said over the calls it answered: a ledger of the leases
begun since the last reset and of the effects their completions had. The
breaker's private state refines its ledger.

## Main definitions

* `Lease`, `Effect`, `Ledger`: the abstract state of one breaker;
* `Ledger.record`: what one answered call does to it;
* `ledgerOf`: the ledger a history leaves;
* `CircuitBreaker.Refines`: the refinement relation.

## Main results

* `World.Consistent.step`: one call preserves the refinement of every breaker;
* `attempt_lifecycle_exactly_once`: after any calls, no handle completed twice,
  the cells are the effects applied once each, and the in-flight counts are the
  open leases.
-/

namespace LlmRelay

open Ecma Transition

/-- An attempt begun on a breaker since its last reset. -/
structure Lease where
  target : ProviderTargetIdentity
  observation : Option HeaderObservation
  completed : Bool

/-- What a completed attempt did to the cells. -/
structure Effect where
  handle : Ref
  target : ProviderTargetIdentity
  outcome : AttemptOutcome
  observation : Option HeaderObservation

/-- Applies an effect to the cells. -/
def Effect.apply [Url] (states : CircuitStates) (effect : Effect) : CircuitStates :=
  applyTerminalOutcome states effect.target effect.outcome effect.observation

/-- The leases of one breaker since its last reset, the handles completed on it,
and the effects of the completed leases, in order. -/
structure Ledger where
  leases : OrderedMap Ref Lease
  completions : List Ref
  effects : List Effect

namespace Ledger

/-- The ledger of a breaker nothing was begun on. -/
def blank : Ledger := ⟨.empty, [], []⟩

/-- Is the lease still open, and charged to this credential? -/
def openFor (credentialId : String) (lease : Lease) : Bool :=
  lease.target.credentialId = credentialId && !lease.completed

/-- How many open leases a credential has. -/
def openCount (ledger : Ledger) (credentialId : String) : Nat :=
  ledger.leases.values.countP (openFor credentialId)

/-- A handle was issued for a target. -/
def begin_ (ledger : Ledger) (handle : Ref) (target : ProviderTargetIdentity) : Ledger :=
  { ledger with
    leases := ledger.leases.set handle { target, observation := none, completed := false } }

/-- Headers were observed for a lease. -/
def observe (ledger : Ledger) (handle : Ref) (observation : HeaderObservation) : Ledger :=
  match ledger.leases.get? handle with
  | none => ledger
  | some lease =>
    { ledger with
      leases := ledger.leases.set handle { lease with observation := some observation } }

/-- A handle was completed: its lease is closed and has its effect. -/
def complete (ledger : Ledger) (handle : Ref) (outcome : AttemptOutcome) : Ledger :=
  match ledger.leases.get? handle with
  | none => { ledger with completions := ledger.completions ++ [handle] }
  | some lease =>
    { leases := ledger.leases.set handle { lease with completed := true }
      completions := ledger.completions ++ [handle]
      effects := ledger.effects ++
        [{ handle, target := lease.target, outcome, observation := lease.observation }] }

/-- What one answered call does to the ledger of the breaker `b`: only calls on
`b` that were not rejected count. -/
def record (b : Ref) (ledger : Ledger) : Call × Reply → Ledger
  | (.beginAttempt b' target _ _, .begun (.ok handle)) =>
    if b' = b then ledger.begin_ handle target else ledger
  | (.observeHeaders b' (.object handle) _, .observed (.ok observation)) =>
    if b' = b then ledger.observe handle observation else ledger
  | (.completeAttempt b' (.object handle) outcome, .completed (.ok _)) =>
    if b' = b then ledger.complete handle outcome else ledger
  | (.reset b', .wasReset _) => if b' = b then blank else ledger
  | _ => ledger

end Ledger

/-- The ledger of the breaker `b` after a history. -/
def ledgerOf (b : Ref) (events : List (Call × Reply)) : Ledger :=
  events.foldl (Ledger.record b) .blank

/-- The answered call completed the handle `h`, on whatever breaker. -/
def completesHandle (h : Ref) : Call × Reply → Bool
  | (.completeAttempt _ (.object handle) _, .completed (.ok _)) => handle = h
  | _ => false

@[simp] theorem ledgerOf_snoc (b : Ref) (events : List (Call × Reply)) (event : Call × Reply) :
    ledgerOf b (events ++ [event]) = (ledgerOf b events).record b event := by
  simp [ledgerOf]

/-! ## The refinement relation -/

/-- The lease a breaker's own record stands for. -/
def BreakerAttemptRecord.lease (record : BreakerAttemptRecord) : Lease where
  target := record.target
  observation := record.observation
  completed := record.completedId.isSome

/-- The lease of a record, where it is of the given generation. -/
def leaseOf? (generation : Nat) (record : Option BreakerAttemptRecord) : Option Lease :=
  record.bind fun r => if r.generation = generation then some r.lease else none

/-- A breaker's private state refines a ledger: the records of its generation
are the leases, its cells are the effects applied in order, and its in-flight
counts are the open leases. Identities from `bound` on are still unused. -/
structure CircuitBreaker.Refines [Url] (breaker : CircuitBreaker) (bound : Ref)
    (ledger : Ledger) : Prop where
  leases : ∀ h, ledger.leases.get? h = leaseOf? breaker.generation (breaker.attempts.get? h)
  used : ∀ h record, breaker.attempts.get? h = some record →
    h < bound ∧ record.generation ≤ breaker.generation
  applied : ledger.effects.map Effect.handle = ledger.completions
  states : breaker.states = ledger.effects.foldl Effect.apply .empty
  inFlight : ∀ c, breaker.inFlightCredential c = ledger.openCount c

namespace CircuitBreaker.Refines

variable [Url] {breaker : CircuitBreaker} {bound : Ref} {ledger : Ledger}

theorem mono (h : breaker.Refines bound ledger) {bound' : Ref} (hle : bound ≤ bound') :
    breaker.Refines bound' ledger where
  leases := h.leases
  used := fun r record hr => ⟨(h.used r record hr).1.trans_le hle, (h.used r record hr).2⟩
  applied := h.applied
  states := h.states
  inFlight := h.inFlight

variable {ref : Ref} {record : BreakerAttemptRecord}

theorem lease_eq (h : breaker.Refines bound ledger)
    (hrecord : breaker.attempts.get? ref = some record)
    (hgeneration : record.generation = breaker.generation) :
    ledger.leases.get? ref = some record.lease := by
  rw [h.leases, hrecord]
  simp [leaseOf?, hgeneration]

theorem construct (owner lifecycleOwner : Ref) :
    (CircuitBreaker.construct owner lifecycleOwner).Refines bound .blank where
  leases := fun _ => rfl
  used := fun _ _ h => by cases h
  applied := rfl
  states := rfl
  inFlight := fun _ => rfl

variable (h : breaker.Refines bound ledger)

include h

theorem begin_ (target : ProviderTargetIdentity)
    (lifecycle : AttemptLifecycle) (attemptStarts : AttemptStarts) :
    ({ breaker with
        lifecycle
        attemptStarts
        attempts := breaker.attempts.set bound
          { generation := breaker.generation, target, observation := none, completedId := none }
        credentialInFlight := breaker.credentialInFlight.set target.credentialId
          (breaker.inFlightCredential target.credentialId + 1) } : CircuitBreaker).Refines
      (bound + 1) (ledger.begin_ bound target) where
  leases := fun r => by
    simp only [Ledger.begin_, OrderedMap.get?_set]
    split_ifs
    · simp [leaseOf?, BreakerAttemptRecord.lease]
    · exact h.leases r
  used := fun r record hr => by
    simp only [OrderedMap.get?_set] at hr
    split_ifs at hr with hr'
    · cases hr
      exact ⟨hr' ▸ Nat.lt_succ_self _, le_rfl⟩
    · exact ⟨(h.used r record hr).1.trans (Nat.lt_succ_self _), (h.used r record hr).2⟩
  applied := h.applied
  states := h.states
  inFlight := fun c => by
    -- the identity is fresh, so no lease is overwritten
    have hfresh : ledger.leases.get? bound = none := by
      rw [h.leases]
      cases hr : breaker.attempts.get? bound with
      | none => rfl
      | some record => exact absurd (h.used bound record hr).1 (lt_irrefl _)
    have hcount := h.inFlight
    simp only [CircuitBreaker.inFlightCredential, Ledger.openCount, Ledger.begin_] at hcount ⊢
    rw [OrderedMap.countP_values_set_of_none _ _ hfresh, OrderedMap.get?_set]
    by_cases hc : target.credentialId = c
    · simp [hc, hcount, Ledger.openFor]
    · simp [hc, hcount, Ledger.openFor]

theorem observe (hrecord : breaker.attempts.get? ref = some record)
    (hgeneration : record.generation = breaker.generation) (observation : HeaderObservation) :
    ({ breaker with
        attempts := breaker.attempts.set ref
          { record with observation := some observation } } : CircuitBreaker).Refines
      bound (ledger.observe ref observation) := by
  have hlease := h.lease_eq hrecord hgeneration
  simp only [Ledger.observe, hlease]
  refine ⟨fun r => ?_, fun r record' hr => ?_, h.applied, h.states, fun c => ?_⟩
  · simp only [OrderedMap.get?_set]
    split_ifs
    · simp [leaseOf?, BreakerAttemptRecord.lease, hgeneration]
    · exact h.leases r
  · simp only [OrderedMap.get?_set] at hr
    split_ifs at hr with hr'
    · cases hr
      exact hr' ▸ h.used ref record hrecord
    · exact h.used r record' hr
  · have hcount := OrderedMap.countP_values_set_of_some (Ledger.openFor c)
      { record.lease with observation := some observation } hlease
    exact (h.inFlight c).trans (Nat.add_right_cancel hcount).symm

/-- Completing an attempt closes its lease and applies its effect. -/
theorem complete (hrecord : breaker.attempts.get? ref = some record)
    (hgeneration : record.generation = breaker.generation) (hopen : record.completedId = none)
    (id : AttemptId) (outcome : AttemptOutcome) :
    ({ breaker with
        attempts := breaker.attempts.set ref { record with completedId := some id }
        credentialInFlight :=
          releaseInFlight breaker.credentialInFlight record.target.credentialId
        states :=
          applyTerminalOutcome breaker.states record.target outcome
            record.observation } : CircuitBreaker).Refines
      bound (ledger.complete ref outcome) := by
  have hlease := h.lease_eq hrecord hgeneration
  simp only [Ledger.complete, hlease]
  refine ⟨fun r => ?_, fun r record' hr => ?_, by simp [h.applied], ?_, fun c => ?_⟩
  · simp only [OrderedMap.get?_set]
    split_ifs
    · simp [leaseOf?, BreakerAttemptRecord.lease, hgeneration]
    · exact h.leases r
  · simp only [OrderedMap.get?_set] at hr
    split_ifs at hr with hr'
    · cases hr
      exact hr' ▸ h.used ref record hrecord
    · exact h.used r record' hr
  · simp only [List.foldl_append, ← h.states]
    rfl
  · have hcount := OrderedMap.countP_values_set_of_some (Ledger.openFor c)
      { record.lease with completed := true } hlease
    have hsame := h.inFlight c
    simp only [Ledger.openCount, inFlightCredential] at hsame ⊢
    rw [getD_releaseInFlight]
    by_cases hc : record.target.credentialId = c
    · simp [Ledger.openFor, BreakerAttemptRecord.lease, hopen] at hcount ⊢
      omega
    · simp [Ledger.openFor, BreakerAttemptRecord.lease, hc] at hcount ⊢
      omega

/-- A reset starts a blank ledger. -/
theorem reset {breaker' : CircuitBreaker} {bound' : Ref}
    (hbound : bound ≤ bound') (hstates : breaker'.states = .empty)
    (hinFlight : breaker'.credentialInFlight = .empty)
    (hgeneration : breaker'.generation = breaker.generation + 1)
    (hattempts : breaker'.attempts = breaker.attempts) :
    breaker'.Refines bound' .blank where
  leases := fun r => by
    -- every record left behind is of an earlier generation
    rw [hattempts, hgeneration]
    cases hr : breaker.attempts.get? r with
    | none => rfl
    | some record =>
      have hold := (h.used r record hr).2
      have hne : record.generation ≠ breaker.generation + 1 := by omega
      simp [leaseOf?, hne, Ledger.blank]
  used := fun r record hr => by
    rw [hattempts] at hr
    have hold := h.used r record hr
    exact ⟨hold.1.trans_le hbound, by omega⟩
  applied := rfl
  states := by rw [hstates]; rfl
  inFlight := fun c => by simp [inFlightCredential, hinFlight, Ledger.openCount, Ledger.blank,
    OrderedMap.values, OrderedMap.empty, OrderedMap.get?, lookupEntry]

end CircuitBreaker.Refines

/-! ## Worlds -/

/-- Is a handle registered as completed? -/
def HandleHeap.isCompleted (heap : HandleHeap) (h : Ref) : Bool :=
  (heap.knownHandles.get? h).any (·.completed)

/-- Every breaker of the world refines its ledger, and a completion answered
`ok` left its handle marked. -/
structure World.Consistent [Url] (w : World) (events : List (Call × Reply)) : Prop where
  breakers : ∀ b breaker, w.breakers.get? b = some breaker →
    b < w.heap.nextRef ∧ breaker.Refines w.heap.nextRef (ledgerOf b events)
  absent : ∀ b, w.breakers.get? b = none → ledgerOf b events = .blank
  issued : ∀ h known, w.heap.knownHandles.get? h = some known → h < w.heap.nextRef
  once : ∀ h, events.countP (completesHandle h) ≤ if w.heap.isCompleted h then 1 else 0

namespace World.Consistent

variable [Url] {w : World} {events : List (Call × Reply)}

theorem initial : World.initial.Consistent [] where
  breakers := fun _ _ h => by cases h
  absent := fun _ _ => rfl
  issued := fun _ _ h => by cases h
  once := fun _ => Nat.zero_le _

variable {event : Call × Reply}

variable (h : w.Consistent events)

include h

theorem silent (hrecord : ∀ b (ledger : Ledger), ledger.record b event = ledger)
    (hcompletes : ∀ r, completesHandle r event = false) :
    w.Consistent (events ++ [event]) where
  breakers := by simpa [hrecord] using h.breakers
  absent := by simpa [hrecord] using h.absent
  issued := h.issued
  once := by simpa [hcompletes] using h.once

theorem update {b : Ref} {heap : HandleHeap} {breaker : CircuitBreaker}
    (hbound : w.heap.nextRef ≤ heap.nextRef) (hb : b < heap.nextRef)
    (hrefines : breaker.Refines heap.nextRef ((ledgerOf b events).record b event))
    (hothers : ∀ b', b ≠ b' → ∀ ledger : Ledger, ledger.record b' event = ledger)
    (hissued : ∀ r known, heap.knownHandles.get? r = some known → r < heap.nextRef)
    (honce : ∀ r, (events ++ [event]).countP (completesHandle r)
      ≤ if heap.isCompleted r then 1 else 0) :
    (w.update b heap breaker).Consistent (events ++ [event]) where
  breakers := fun b' breaker' hget => by
    simp only [World.update, OrderedMap.get?_set] at hget
    split_ifs at hget with heq
    · cases hget
      subst heq
      exact ⟨hb, by rw [ledgerOf_snoc]; exact hrefines⟩
    · obtain ⟨hlt, hold⟩ := h.breakers b' breaker' hget
      refine ⟨hlt.trans_le hbound, ?_⟩
      rw [ledgerOf_snoc, hothers b' heq]
      exact hold.mono hbound
  absent := fun b' hget => by
    simp only [World.update, OrderedMap.get?_set] at hget
    split_ifs at hget with heq
    rw [ledgerOf_snoc, hothers b' heq]
    exact h.absent b' hget
  issued := hissued
  once := honce

/-- The completions counted so far stay within the marks when no handle is
completed and none is unmarked. -/
theorem once_of_marked {heap : HandleHeap} (hcompletes : ∀ r, completesHandle r event = false)
    (hmarks : ∀ r, w.heap.isCompleted r = true → heap.isCompleted r = true) (r : Ref) :
    (events ++ [event]).countP (completesHandle r) ≤ if heap.isCompleted r then 1 else 0 := by
  have hold := h.once r
  simp only [List.countP_append, List.countP_cons, hcompletes]
  by_cases hmark : w.heap.isCompleted r = true
  · simpa [hmark, hmarks r hmark] using hold
  · simp only [hmark] at hold
    exact hold.trans (Nat.zero_le _)

theorem step_construct :
    (w.step .construct).1.Consistent (events ++ [(.construct, (w.step .construct).2)]) := by
  have habsent : ledgerOf w.heap.nextRef events = .blank := by
    apply h.absent
    cases hb : w.breakers.get? w.heap.nextRef with
    | none => rfl
    | some breaker => exact absurd (h.breakers _ breaker hb).1 (lt_irrefl _)
  refine h.update (Nat.le_add_right _ 2) (Nat.lt_add_of_pos_right (by decide)) ?_
    (fun _ _ _ => rfl) (fun r known hr => ?_) (h.once_of_marked (fun _ => rfl) fun _ hr => hr)
  · rw [habsent]
    exact CircuitBreaker.Refines.construct _ _
  · exact (h.issued r known hr).trans_le (Nat.le_add_right _ 2)

theorem step_beginAttempt (b : Ref) (target : ProviderTargetIdentity)
    (start : AttemptStartOptions) (dateNow : Number) :
    (w.step (.beginAttempt b target start dateNow)).1.Consistent
      (events ++ [(.beginAttempt b target start dateNow,
        (w.step (.beginAttempt b target start dateNow)).2)]) := by
  cases hb : w.breakers.get? b with
  | none =>
    simp only [step, hb]
    exact h.silent (fun _ _ => rfl) (fun _ => rfl)
  | some breaker =>
    obtain ⟨hlt, hrefines⟩ := h.breakers b breaker hb
    rcases breaker.beginAttempt_cases w.heap target start dateNow with
      ⟨failure, hfail⟩ | ⟨known, lifecycle, starts, hopen, hok⟩
    · simp only [step, hb, hfail, update_self hb]
      exact h.silent (fun _ _ => rfl) (fun _ => rfl)
    · simp only [step, hb, hok]
      refine h.update (Nat.le_succ _) (hlt.trans (Nat.lt_succ_self _)) ?_ ?_ (fun r known hr => ?_)
        (h.once_of_marked (fun _ => rfl) fun r hr => ?_)
      · simpa [Ledger.record] using hrefines.begin_ target lifecycle starts
      · intro b' hne ledger
        simp [Ledger.record, hne]
      · simp only [OrderedMap.get?_set] at hr
        split_ifs at hr with heq
        · exact heq ▸ Nat.lt_succ_self _
        · exact (h.issued r _ hr).trans (Nat.lt_succ_self _)
      · -- the new handle was not registered before
        simp only [HandleHeap.isCompleted] at hr ⊢
        cases hknown : w.heap.knownHandles.get? r with
        | none => simp [hknown] at hr
        | some old =>
          have hne : w.heap.nextRef ≠ r := (h.issued r old hknown).ne'
          rw [OrderedMap.get?_set_of_ne _ _ hne]
          exact hr

theorem step_observeHeaders (b : Ref) (handle : AttemptHandle) (observation : HeaderObservation) :
    (w.step (.observeHeaders b handle observation)).1.Consistent
      (events ++ [(.observeHeaders b handle observation,
        (w.step (.observeHeaders b handle observation)).2)]) := by
  cases hb : w.breakers.get? b with
  | none =>
    simp only [step, hb]
    exact h.silent (fun _ _ => by cases handle <;> rfl) (fun _ => rfl)
  | some breaker =>
    obtain ⟨hlt, hrefines⟩ := h.breakers b breaker hb
    rcases breaker.observeHeaders_cases w.heap handle observation with
      ⟨failure, hfail⟩ | ⟨ref, record, rfl, hrecord, hgeneration, hok⟩
    · simp only [step, hb, hfail, update_self hb]
      exact h.silent (fun _ _ => by cases handle <;> rfl) (fun _ => rfl)
    · simp only [step, hb, hok]
      refine h.update le_rfl hlt ?_ ?_ h.issued (h.once_of_marked (fun _ => rfl) fun _ hr => hr)
      · simpa [Ledger.record] using hrefines.observe hrecord hgeneration observation
      · intro b' hne ledger
        simp [Ledger.record, hne]

theorem step_completeAttempt (b : Ref) (handle : AttemptHandle) (outcome : AttemptOutcome) :
    (w.step (.completeAttempt b handle outcome)).1.Consistent
      (events ++ [(.completeAttempt b handle outcome,
        (w.step (.completeAttempt b handle outcome)).2)]) := by
  cases hb : w.breakers.get? b with
  | none =>
    simp only [step, hb]
    exact h.silent (fun _ _ => by cases handle <;> rfl) (fun _ => by cases handle <;> rfl)
  | some breaker =>
    obtain ⟨hlt, hrefines⟩ := h.breakers b breaker hb
    rcases breaker.completeAttempt_cases w.heap handle outcome with ⟨failure, hfail⟩ |
      ⟨ref, record, known, done, rfl, hrecord, hgeneration, hnew, hknown, hopen, hok⟩
    · simp only [step, hb, hfail, update_self hb]
      exact h.silent (fun _ _ => by cases handle <;> rfl) (fun _ => by cases handle <;> rfl)
    · simp only [step, hb, hok]
      refine h.update le_rfl hlt ?_ ?_ (fun r known' hr => ?_) (fun r => ?_)
      · simpa [Ledger.record] using hrefines.complete hrecord hgeneration hnew done.id outcome
      · intro b' hne ledger
        simp [Ledger.record, hne]
      · simp only [OrderedMap.get?_set] at hr
        split_ifs at hr with heq
        · exact heq ▸ h.issued ref known hknown
        · exact h.issued r _ hr
      · -- the handle was open, so no completion of it was counted before
        have hold := h.once r
        simp only [List.countP_append, List.countP_cons, completesHandle,
          HandleHeap.isCompleted, OrderedMap.get?_set] at hold ⊢
        by_cases heq : ref = r
        · subst heq
          simp only [hknown, Option.any_some, hopen] at hold
          simpa using hold
        · simp only [heq]
          exact hold

theorem step_reset (b : Ref) :
    (w.step (.reset b)).1.Consistent (events ++ [(.reset b, (w.step (.reset b)).2)]) := by
  cases hb : w.breakers.get? b with
  | none =>
    simp only [step, hb]
    exact h.silent (fun _ _ => rfl) (fun _ => rfl)
  | some breaker =>
    obtain ⟨hlt, hrefines⟩ := h.breakers b breaker hb
    obtain ⟨hbound, hknown, hstates, hinFlight, hgeneration, hattempts⟩ :=
      breaker.reset_spec w.heap
    simp only [step, hb]
    refine h.update hbound (hlt.trans_le hbound) ?_ ?_ (fun r known hr => ?_)
      (h.once_of_marked (fun _ => rfl) fun r hr => ?_)
    · simpa [Ledger.record] using
        hrefines.reset hbound hstates hinFlight hgeneration hattempts
    · intro b' hne ledger
      simp [Ledger.record, hne]
    · rw [hknown] at hr
      exact (h.issued r known hr).trans_le hbound
    · simpa only [HandleHeap.isCompleted, hknown] using hr

/-- **One call preserves consistency.** -/
theorem step (call : Call) : (w.step call).1.Consistent (events ++ [(call, (w.step call).2)]) := by
  cases call with
  | construct => exact h.step_construct
  | beginAttempt b target start dateNow => exact h.step_beginAttempt b target start dateNow
  | observeHeaders b handle observation => exact h.step_observeHeaders b handle observation
  | completeAttempt b handle outcome => exact h.step_completeAttempt b handle outcome
  | reset b => exact h.step_reset b

omit h

theorem run (calls : List Call) :
    (finalState World.step World.initial calls).Consistent
      (history World.step World.initial calls) :=
  run_invariant World.step initial (fun _ _ call h => h.step call) calls

end World.Consistent

/-- **The exactly-once attempt lifecycle.** After any calls on any number of
breakers, with any handles: no handle was completed twice; every handle completed
on a breaker since its last reset has one effect, the breaker's cells are these
effects applied in order, and its in-flight counts are the leases still open; and
a call that is rejected now changes nothing. -/
theorem attempt_lifecycle_exactly_once [Url] (calls : List Call) :
    let w := finalState World.step World.initial calls
    let events := history World.step World.initial calls
    (∀ h, events.countP (completesHandle h) ≤ 1) ∧
      (∀ b breaker, w.breakers.get? b = some breaker →
        (ledgerOf b events).effects.map Effect.handle = (ledgerOf b events).completions ∧
          breaker.states = (ledgerOf b events).effects.foldl Effect.apply .empty ∧
          ∀ c, breaker.inFlightCredential c = (ledgerOf b events).openCount c) ∧
      ∀ call, (w.step call).2.rejected = true → (w.step call).1 = w := by
  intro w events
  have h : w.Consistent events := World.Consistent.run calls
  refine ⟨fun r => ?_, fun b breaker hb => ?_, fun call => w.step_eq_of_rejected call⟩
  · have honce := h.once r
    split_ifs at honce
    · exact honce
    · exact honce.trans (Nat.zero_le 1)
  · have hrefines := (h.breakers b breaker hb).2
    exact ⟨hrefines.applied, hrefines.states, hrefines.inFlight⟩

end LlmRelay
