import LlmRelay.Refusals.Verdicts

/-!
# Where verdicts come from

Every confirmed row of the file, of a memory or of a store that is about to be written was
accepted in the run, or was there when it began. So is a researched interpretation that is
returned. This holds for every interleaving.

## Main definitions

* `Accepted`: acceptances of the run, and rows that it began with;
* `World.Accounted`: the invariant.

## Main results

* `World.Accounted.step`, `World.Accounted.after`: steps and runs keep it.
-/

namespace LlmRelay.Refusals

open Ecma

/-- The verdict was accepted, or is a row that the run began with. -/
def Accepted (initial : Option InterpretationStore) (reviewed : List ReviewedVerdict)
    (signature : Text) (entry : Interpretation) : Prop :=
  .accepted signature entry ∈ reviewed
    ∨ ∃ store, initial = some store ∧ store.confirmed.get? signature = some entry

/-- The action is on a well formed signature. -/
def Action.OnSignature (readers : MessageReaders) : Action → Prop
  | .call judged => judged.OnSignature readers
  | _ => True

/-- The signature that a verdict was given on. -/
def ReviewedVerdict.signature : ReviewedVerdict → Text
  | accepted signature _ | rejected signature _ => signature

section Calls

variable {readers : MessageReaders} {store : InterpretationStore} {call : Call}

variable {entry : Interpretation} {signature : Text}

theorem confirmed_of_interpretRefusal {provider : Text} {model : Option Text} {status : Nat}
    {body : Text} (h : interpretRefusal readers store provider model status body = some entry)
    (hsource : entry.source = .researched) :
    store.confirmed.get? (refusalSignature readers provider model status body) = some entry
      ∧ entry.acceptedAt.isSome = true := by
  unfold interpretRefusal at h
  dsimp only at h
  split at h
  · rename_i found hhit
    obtain rfl := Option.some.inj h
    obtain ⟨hget, htest⟩ := Option.filter_eq_some_iff.mp hhit
    refine ⟨hget, ?_⟩
    rw [hsource] at htest
    simpa using htest
  · -- structured verdicts and seeds are no research
    split at h
    · cases h
      cases hsource
    · obtain ⟨seed, -, rfl⟩ := Option.map_eq_some_iff.mp h
      cases hsource

theorem Call.answer_run {answer : Text × Interpretation}
    (h : (call.run readers store).answer = some answer) (hsource : answer.2.source = .researched) :
    store.confirmed.get? answer.1 = some answer.2 ∧ answer.2.acceptedAt.isSome = true := by
  cases call with
  | interpret provider model status body =>
    obtain ⟨entry, hentry, rfl⟩ := Option.map_eq_some_iff.mp h
    exact confirmed_of_interpretRefusal hentry hsource
  | record provider model status body now =>
    change (Outcome.ofOption store _ none).answer = _ at h
    cases hrecord : recordUnknownRefusal readers store provider model status body now <;>
      rw [hrecord] at h <;> cases h
  | propose signature proposal =>
    change (Outcome.ofOption store _ none).answer = _ at h
    cases hpropose : proposeInterpretation store signature proposal <;>
      rw [hpropose] at h <;> cases h
  | accept signature override_ now =>
    unfold run at h
    dsimp only at h
    split at h <;> cases h
  | reject signature now =>
    change (Outcome.ofOption store _ _).answer = _ at h
    cases hreject : rejectInterpretation store signature now <;>
      rw [hreject] at h <;> cases h

theorem Call.wellFormed_of_verdict (h : call.OnSignature readers) {verdict : ReviewedVerdict}
    (hverdict : (call.run readers store).verdict = some verdict) :
    WellFormed readers verdict.signature := by
  rcases run_cases readers store call with ⟨-, -, hnone⟩
    | ⟨sig, override_, now, entry', rfl, -, -, hsome⟩
    | ⟨sig, now, rfl, -, -, hsome⟩
  · rw [hnone] at hverdict
    cases hverdict
  · cases hsome.symm.trans hverdict
    exact h
  · cases hsome.symm.trans hverdict
    exact h

theorem Call.validTemplate_of_accepted (h : call.Timely store)
    (hverdict : (call.run readers store).verdict = some (.accepted signature entry)) :
    validTemplate entry.scope = true := by
  rcases run_cases readers store call with ⟨-, -, hnone⟩
    | ⟨sig, override_, now, entry', rfl, hentry, -, hsome⟩
    | ⟨sig, now, rfl, -, -, hsome⟩
  · rw [hnone] at hverdict
    cases hverdict
  · cases hsome.symm.trans hverdict
    exact (h entry hentry).1
  · cases hsome.symm.trans hverdict

end Calls

/-! ## The invariant -/

/-- The confirmed rows were accepted, and every signature is well formed. -/
abbrev Known (readers : MessageReaders) (initial : Option InterpretationStore)
    (reviewed : List ReviewedVerdict) : InterpretationStore → Prop :=
  Rows (fun signature entry =>
    WellFormed readers signature ∧ Accepted initial reviewed signature entry) (WellFormed readers)

/-- What a process has, and is about to write, is known. -/
structure ProcessAccounted (readers : MessageReaders) (initial : Option InterpretationStore)
    (reviewed : List ReviewedVerdict) (process : Process) : Prop where
  memory : ∀ store, process.module_.store = some store → Known readers initial reviewed store
  replacing : ∀ store merged, process.phase = .replacing store merged →
    Known readers initial reviewed store
  loading : ∀ call token, process.phase = .loading call token → call.OnSignature readers

/-- Everything in the world is known. -/
structure World.Accounted {ι : Type} (readers : MessageReaders)
    (initial : Option InterpretationStore) (world : World ι) : Prop where
  file : ∀ file, world.file = some file → Known readers initial world.reviewed file.content
  processes : ∀ p, ProcessAccounted readers initial world.reviewed (world.processes p)
  answers : ∀ answer ∈ world.answers, answer.2.source = .researched →
    answer.2.acceptedAt.isSome = true ∧ Accepted initial world.reviewed answer.1 answer.2

section Accounted

variable {readers : MessageReaders} {initial : Option InterpretationStore}
  {reviewed reviewed' : List ReviewedVerdict}

theorem Accepted.mono (h : reviewed ⊆ reviewed') {signature : Text} {entry : Interpretation}
    (haccepted : Accepted initial reviewed signature entry) :
    Accepted initial reviewed' signature entry :=
  haccepted.imp_left fun hmem => h hmem

variable {store : InterpretationStore}

theorem Known.mono (h : reviewed ⊆ reviewed') (hknown : Known readers initial reviewed store) :
    Known readers initial reviewed' store where
  confirmed := fun signature entry hentry =>
    (hknown.confirmed signature entry hentry).imp_right (Accepted.mono h)
  ignored := hknown.ignored

theorem Known.run (h : Known readers initial reviewed store) {call : Call}
    (hcall : call.OnSignature readers) :
    Known readers initial (reviewed ++ (call.run readers store).verdict.toList)
      (call.run readers store).store := by
  refine Call.rows_run (h.mono (List.subset_append_left _ _)) (fun signature entry hverdict => ?_)
    fun signature now hverdict => Call.wellFormed_of_verdict hcall hverdict
  refine ⟨Call.wellFormed_of_verdict hcall hverdict, .inl (List.mem_append_right _ ?_)⟩
  rw [hverdict]
  exact List.mem_singleton_self _

theorem ProcessAccounted.mono (h : reviewed ⊆ reviewed') {process : Process}
    (hprocess : ProcessAccounted readers initial reviewed process) :
    ProcessAccounted readers initial reviewed' process where
  memory := fun store hstore => (hprocess.memory store hstore).mono h
  replacing := fun store merged hphase => (hprocess.replacing store merged hphase).mono h
  loading := hprocess.loading

theorem ProcessAccounted.of_idle {process : Process} (hphase : process.phase = .idle)
    (h : ∀ store, process.module_.store = some store → Known readers initial reviewed store) :
    ProcessAccounted readers initial reviewed process where
  memory := h
  replacing := fun _ _ hreplacing => by cases hphase.symm.trans hreplacing
  loading := fun _ _ hloading => by cases hphase.symm.trans hloading

end Accounted

namespace World.Accounted

variable {ι : Type} [DecidableEq ι] {readers : MessageReaders}
  {initial : Option InterpretationStore} {world : World ι} {p : ι} {process : Process}

theorem setProcess (h : world.Accounted readers initial)
    (hprocess : ProcessAccounted readers initial world.reviewed process) :
    (world.setProcess p process).Accounted readers initial where
  file := h.file
  processes := by
    intro q
    show ProcessAccounted _ _ _ (Function.update world.processes p process q)
    by_cases hq : q = p
    · subst hq
      rw [Function.update_self]
      exact hprocess
    · rw [Function.update_of_ne hq]
      exact h.processes q
  answers := h.answers

variable (h : world.Accounted readers initial)

include h

omit [DecidableEq ι] in
theorem content : Known readers initial world.reviewed world.content := by
  unfold World.content
  cases hfile : world.file with
  | none => exact Rows.empty _ _
  | some file => exact h.file file hfile

theorem finish {store : InterpretationStore}
    (hstore : Known readers initial world.reviewed store) {call : Call}
    (hcall : call.OnSignature readers) :
    (world.finish readers p process store call).Accounted readers initial where
  file := fun file hfile => (h.file file hfile).mono (List.subset_append_left _ _)
  processes := by
    intro q
    show ProcessAccounted _ _ _ (Function.update world.processes p _ q)
    by_cases hq : q = p
    · subst hq
      rw [Function.update_self]
      refine .of_idle rfl fun store' hstore' => ?_
      obtain rfl := Option.some.inj hstore'
      exact hstore.run hcall
    · rw [Function.update_of_ne hq]
      exact (h.processes q).mono (List.subset_append_left _ _)
  answers := by
    intro answer hanswer hsource
    rcases List.mem_append.mp hanswer with hold | hnew
    · exact (h.answers answer hold hsource).imp_right
        (Accepted.mono (List.subset_append_left _ _))
    · obtain ⟨hrow, haccepted⟩ := Call.answer_run (Option.mem_toList.mp hnew) hsource
      exact ⟨haccepted, (hstore.confirmed _ _ hrow).2.mono (List.subset_append_left _ _)⟩

variable (hprocess : ProcessAccounted readers initial world.reviewed process)

include hprocess

theorem startCall {call : Call} (hcall : call.OnSignature readers) :
    (world.startCall readers p process call).Accounted readers initial := by
  unfold World.startCall
  split
  · exact h
  · split
    · cases hstore : process.module_.store with
      | none => exact h.finish (Rows.empty _ _) hcall
      | some store => exact h.finish (hprocess.memory store hstore) hcall
    · split
      · refine h.setProcess ⟨hprocess.memory, ?_, ?_⟩
        · intro store merged hphase
          cases hphase
        · intro call' token hphase
          cases hphase
          exact hcall
      · exact h.finish (Rows.empty _ _) hcall

theorem startFlush (hphase : process.phase = .idle) :
    (world.startFlush p process).Accounted readers initial := by
  unfold World.startFlush
  split
  · dsimp only
    cases hstore : process.module_.store with
    | none =>
      refine h.setProcess (.of_idle hphase fun store' hstore' => ?_)
      cases hstore'
    | some store =>
      refine h.setProcess ⟨fun store' hstore' => hprocess.memory store' (hstore.trans hstore'),
        fun store' merged hreplacing => ?_, fun call token hloading => ?_⟩
      · dsimp only at hreplacing
        split at hreplacing
        · cases hreplacing
        · cases hreplacing
          exact hprocess.memory store hstore
      · dsimp only at hloading
        split at hloading <;> cases hloading
  · exact h

theorem access : (world.access readers p process).Accounted readers initial := by
  unfold World.access
  split
  · exact h
  · rename_i call token hphase
    exact h.finish h.content (hprocess.loading call token hphase)
  · refine h.setProcess ⟨hprocess.memory, fun store merged hreplacing => ?_,
      fun _ _ hphase => nomatch hphase⟩
    cases hreplacing
    refine Rows.mergeStores h.content ?_
    cases hstore : process.module_.store with
    | none => exact Rows.empty _ _
    | some store => exact hprocess.memory store hstore
  · rename_i store merged hphase
    have hwritten : ProcessAccounted readers initial world.reviewed
        { process with phase := .settling merged, unflushed := [] } :=
      ⟨hprocess.memory, fun _ _ hphase => (nomatch hphase), fun _ _ hphase => nomatch hphase⟩
    have hset := h.setProcess (p := p) hwritten
    refine ⟨fun file hfile => ?_, hset.processes, hset.answers⟩
    cases hfile
    exact Rows.readStoreFile (hprocess.replacing store merged hphase)
      (fun _ _ hrow => hrow.1.2) fun _ hrow => hrow.2
  · exact h.setProcess (.of_idle rfl hprocess.memory)

omit hprocess

/-- A step keeps everything known. -/
theorem step {event : Event ι} (hevent : event.action.OnSignature readers) :
    (world.step readers event).Accounted readers initial := by
  have hprocess := h.processes event.process
  unfold World.step
  dsimp only
  split
  · rename_i call haction hphase
    rw [haction] at hevent
    change call.OnSignature readers at hevent
    exact h.startCall hprocess hevent
  · rename_i haction hphase
    exact h.startFlush hprocess hphase
  · exact h.access hprocess
  · exact h.setProcess (.of_idle rfl hprocess.memory)
  · exact h

/-- So does a run. -/
theorem after {events : List (Event ι)}
    (hevents : ∀ event ∈ events, event.action.OnSignature readers) :
    (world.after readers events).Accounted readers initial := by
  induction events generalizing world with
  | nil => exact h
  | cons event rest ih =>
    exact ih (h.step (hevents event List.mem_cons_self)) fun event' hevent' =>
      hevents event' (List.mem_cons_of_mem _ hevent')

omit h

omit [DecidableEq ι] in
theorem opened (hinitial : ∀ store, initial = some store → Sound readers store) :
    (World.opened ι initial).Accounted readers initial where
  file := by
    intro file hfile
    obtain ⟨store, hstore, rfl⟩ := Option.map_eq_some_iff.mp hfile
    exact ⟨fun signature entry hentry =>
      ⟨((hinitial store hstore).confirmed signature entry hentry).1, .inr ⟨store, hstore, hentry⟩⟩,
      (hinitial store hstore).ignored⟩
  processes := fun _ => .of_idle rfl fun _ hstore => nomatch hstore
  answers := fun _ hanswer => nomatch hanswer

end World.Accounted

end LlmRelay.Refusals
