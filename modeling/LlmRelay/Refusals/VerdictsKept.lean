import LlmRelay.Refusals.VerdictSources

/-!
# Reviewed verdicts over a shared file

The file keeps what was flushed as long as the steps stay clear of the ways in which the store
loses a verdict: a process that writes its memory over a file that it has merged, two writes that
overlap, a load that drops what was not written yet, and an older acceptance on disk that wins
over a newer one.

## Main definitions

* `World.Careful`, `World.CarefulRun`: the steps that stay clear;
* `ProcessSafe`, `World.Safe`: the invariant.

## Main results

* `World.Safe.step`: a careful step keeps the invariant;
* `reviewed_verdicts_kept`: what holds in every run, and what holds in careful ones.
-/

namespace LlmRelay.Refusals

open Ecma

/-! ## Careful steps -/

/-- The process is between its last look at the file and the end of its write. -/
def Phase.writing : Phase → Bool
  | .replacing _ _ | .settling _ => true
  | _ => false

namespace World

variable {ι : Type} [DecidableEq ι]

omit [DecidableEq ι] in
/-- The store that a call works on at once, without a read. -/
def storeAtOnce (world : World ι) (process : Process) : Option InterpretationStore :=
  if process.module_.memoised world.observation then
    some (process.module_.store.getD emptyStore)
  else
    match world.observation with
    | some _ => none
    | none => some emptyStore

omit [DecidableEq ι] in
/-- The step stays clear of the ways in which verdicts get lost. -/
def Careful (world : World ι) (event : Event ι) : Prop :=
  let process := world.processes event.process
  match event.action, process.phase with
  | .call call, .idle => ∀ store, world.storeAtOnce process = some store → call.Timely store
  | .access, .loading call _ =>
    -- the load replaces the memory
    process.unflushed = [] ∧ call.Timely world.content
  | .access, .merging =>
    -- what is on disk wins
    ∀ signature entry, .accepted signature entry ∈ process.unflushed →
      ∀ entry', world.content.confirmed.get? signature = some entry' →
        entry.SupersededBy entry'
  | .access, .replacing _ merged =>
    -- the memory stands for the file that was seen, and nobody else is writing
    (merged = false → process.merged = false)
      ∧ ∀ q, q ≠ event.process → (world.processes q).phase.writing = false
  | _, _ => True

/-- All steps of the run stay clear. -/
def CarefulRun (readers : MessageReaders) (world : World ι) : List (Event ι) → Prop
  | [] => True
  | event :: rest => world.Careful event ∧ (world.step readers event).CarefulRun readers rest

end World

/-! ## The invariant -/

/-- What a phase relies on. -/
def Phase.Safe (readers : MessageReaders) (file : Option StoreFile) (process : Process) :
    Phase → Prop
  | .idle => True
  | .loading call _ => call.OnSignature readers ∧ file.isSome = true
  | .merging => process.module_.store.isSome = true ∧ file.isSome = true
  | .replacing store false =>
    process.module_.store = some store
      ∧ ∀ f, file = some f → process.module_.token = some f.token
  | .replacing store true =>
    process.module_.store.isSome = true ∧ Sound readers store
      ∧ (∃ f, file = some f ∧ f.content.KeptBy store)
      ∧ ∀ verdict ∈ process.unflushed, store.Holds verdict
  | .settling merged =>
    ∃ store f, process.module_.store = some store ∧ file = some f
      ∧ (merged = false → f.content.KeptBy store)

/-- What a process relies on. -/
structure ProcessSafe (readers : MessageReaders) (file : Option StoreFile) (rewrites : Nat)
    (process : Process) : Prop where
  token_lt : ∀ token, process.module_.token = some token → token < rewrites ∧ file.isSome = true
  sound : ∀ store, process.module_.store = some store → Sound readers store
  held : ∀ verdict ∈ process.unflushed,
    ∃ store, process.module_.store = some store ∧ store.Holds verdict
  -- a memory whose token is that of the file has the verdicts of the file
  current : ∀ f store, file = some f → process.module_.store = some store →
    process.module_.token = some f.token → process.merged = false → f.content.KeptBy store
  phase : process.phase.Safe readers file process
  loading_lt : ∀ call token, process.phase = .loading call token → token < rewrites

/-- The file is sound and holds what was flushed. -/
structure World.Safe {ι : Type} (readers : MessageReaders) (world : World ι) : Prop where
  file : ∀ f, world.file = some f → f.token < world.rewrites ∧ Sound readers f.content
  flushed : ∀ verdict ∈ world.flushed, ∃ f, world.file = some f ∧ f.content.Holds verdict
  processes : ∀ p, ProcessSafe readers world.file world.rewrites (world.processes p)

namespace ProcessSafe

variable {readers : MessageReaders} {file : Option StoreFile} {rewrites : Nat} {process : Process}

theorem rename (h : ProcessSafe readers file rewrites process) {content : InterpretationStore}
    (hphase : process.phase.writing = false) :
    ProcessSafe readers (some { content := content, token := rewrites }) (rewrites + 1)
      process where
  token_lt := fun token htoken => ⟨Nat.lt_succ_of_lt (h.token_lt token htoken).1, rfl⟩
  sound := h.sound
  held := h.held
  current := by
    intro f store hf _ htoken _
    cases hf
    have hlt := (h.token_lt rewrites htoken).1
    omega
  phase := by
    have hsafe := h.phase
    cases hcase : process.phase with
    | idle => trivial
    | loading call token =>
      rw [hcase] at hsafe
      exact ⟨hsafe.1, rfl⟩
    | merging =>
      rw [hcase] at hsafe
      exact ⟨hsafe.1, rfl⟩
    | replacing store merged =>
      rw [hcase] at hphase
      cases hphase
    | settling merged =>
      rw [hcase] at hphase
      cases hphase
  loading_lt := fun call token hloading => Nat.lt_succ_of_lt (h.loading_lt call token hloading)

/-- A call that ends keeps what the process relies on. -/
theorem run (h : ProcessSafe readers file rewrites process) {store : InterpretationStore}
    (hstore : process.module_.store = some store) {call : Call}
    (hcall : call.OnSignature readers) (htimely : call.Timely store) :
    ProcessSafe readers file rewrites
      { process with
        module_ :=
          { process.module_ with
            store := some (call.run readers store).store
            dirty := process.module_.dirty || (call.run readers store).touched }
        phase := .idle
        unflushed := process.unflushed ++ (call.run readers store).verdict.toList } where
  token_lt := h.token_lt
  sound := by
    intro store' hstore'
    obtain rfl := Option.some.inj hstore'
    refine Call.rows_run (h.sound store hstore) (fun signature entry hverdict => ?_)
      fun signature now hverdict => Call.wellFormed_of_verdict hcall hverdict
    exact ⟨Call.wellFormed_of_verdict hcall hverdict,
      Call.validTemplate_of_accepted htimely hverdict⟩
  held := by
    intro verdict hverdict
    refine ⟨_, rfl, ?_⟩
    rcases List.mem_append.mp hverdict with hold | hnew
    · obtain ⟨store', hstore', hholds⟩ := h.held verdict hold
      obtain rfl := Option.some.inj (hstore.symm.trans hstore')
      exact (Call.keptBy_run htimely).holds hholds
    · exact Call.holds_run (Option.mem_toList.mp hnew)
  current := by
    intro f store' hf hstore' htoken hmerged
    obtain rfl := Option.some.inj hstore'
    exact (h.current f store hf hstore htoken hmerged).trans (Call.keptBy_run htimely)
  phase := trivial
  loading_lt := fun _ _ hphase => nomatch hphase

end ProcessSafe

namespace World.Safe

variable {ι : Type} [DecidableEq ι] {readers : MessageReaders} {world : World ι} {p : ι}
  {process : Process}

theorem setProcess (h : world.Safe readers)
    (hprocess : ProcessSafe readers world.file world.rewrites process) :
    (world.setProcess p process).Safe readers where
  file := h.file
  flushed := h.flushed
  processes := by
    intro q
    show ProcessSafe _ _ _ (Function.update world.processes p process q)
    by_cases hq : q = p
    · subst hq
      rw [Function.update_self]
      exact hprocess
    · rw [Function.update_of_ne hq]
      exact h.processes q

variable {store : InterpretationStore} {call : Call}

theorem finish (h : world.Safe readers)
    (hprocess : ProcessSafe readers world.file world.rewrites process)
    (hstore : process.module_.store = some store) (hcall : call.OnSignature readers)
    (htimely : call.Timely store) : (world.finish readers p process store call).Safe readers := by
  have hset := h.setProcess (p := p) (hprocess.run hstore hcall htimely)
  exact ⟨hset.file, hset.flushed, hset.processes⟩

variable (h : world.Safe readers)

include h

omit [DecidableEq ι] in
theorem sound_content : Sound readers world.content := by
  unfold World.content
  cases hfile : world.file with
  | none => exact Rows.empty _ _
  | some f => exact (h.file f hfile).2

variable (hprocess : ProcessSafe readers world.file world.rewrites process)

include hprocess

theorem startCall (hphase : process.phase = .idle) (hcall : call.OnSignature readers)
    (htimely : ∀ store, world.storeAtOnce process = some store → call.Timely store) :
    (world.startCall readers p process call).Safe readers := by
  unfold World.startCall
  unfold storeAtOnce at htimely
  by_cases hskips : call.skips readers
  · rw [if_pos hskips]
    exact h
  rw [if_neg hskips]
  by_cases hmemo : process.module_.memoised world.observation
  · rw [if_pos hmemo] at htimely ⊢
    obtain ⟨store, hstore⟩ := Option.isSome_iff_exists.mp (Bool.and_eq_true_iff.mp hmemo).1
    rw [hstore] at htimely ⊢
    exact h.finish hprocess hstore hcall (htimely store rfl)
  rw [if_neg hmemo] at htimely ⊢
  cases hfile : world.file with
  | some f =>
    have hobs : world.observation = some f.token := by
      unfold World.observation
      rw [hfile]
      rfl
    rw [hobs]
    refine h.setProcess
      { token_lt := hprocess.token_lt
        sound := hprocess.sound
        held := hprocess.held
        current := hprocess.current
        phase := ⟨hcall, by rw [hfile]; rfl⟩
        loading_lt := ?_ }
    intro call' token hloading
    cases hloading
    exact (h.file f hfile).1
  | none =>
    have hobs : world.observation = none := by
      unfold World.observation
      rw [hfile]
      rfl
    rw [hobs] at htimely ⊢
    -- without a file there is no token, and so no memory that the load would replace
    have hnotoken : process.module_.token = none := by
      cases htoken : process.module_.token with
      | none => rfl
      | some token =>
        have hsome := (hprocess.token_lt token htoken).2
        rw [hfile] at hsome
        cases hsome
    have hnostore : process.module_.store = none := by
      rw [hobs] at hmemo
      cases hstore : process.module_.store with
      | none => rfl
      | some store =>
        refine absurd ?_ hmemo
        unfold StoreModule.memoised
        rw [hstore, hnotoken]
        rfl
    have hnothing : process.unflushed = [] := by
      refine List.eq_nil_iff_forall_not_mem.mpr fun verdict hverdict => ?_
      obtain ⟨store, hstore, -⟩ := hprocess.held verdict hverdict
      cases hnostore.symm.trans hstore
    refine h.finish ?_ rfl hcall (htimely emptyStore rfl)
    exact
      { token_lt := fun _ htoken => nomatch htoken
        sound := fun store hstore => Option.some.inj hstore ▸ Rows.empty _ _
        held := fun verdict hverdict => by
          change verdict ∈ process.unflushed at hverdict
          rw [hnothing] at hverdict
          cases hverdict
        current := fun f store hf => by
          rw [hfile] at hf
          cases hf
        phase := by
          show process.phase.Safe _ _ _
          rw [hphase]
          trivial
        loading_lt := hprocess.loading_lt }

theorem startFlush
    (hphase : process.phase = .idle) : (world.startFlush p process).Safe readers := by
  unfold World.startFlush
  by_cases hdirty : process.module_.dirty
  · rw [if_pos hdirty]
    dsimp only
    cases hstore : process.module_.store with
    | none =>
      refine h.setProcess ⟨hprocess.token_lt, fun _ hnone => (nomatch hnone), ?_,
        fun _ _ _ hnone => (nomatch hnone), ?_, hprocess.loading_lt⟩
      · intro verdict hverdict
        obtain ⟨store, hsome, -⟩ := hprocess.held verdict hverdict
        cases hstore.symm.trans hsome
      · show process.phase.Safe _ _ _
        rw [hphase]
        trivial
    | some store =>
      refine h.setProcess ⟨hprocess.token_lt,
        fun store' hstore' => hprocess.sound store' (hstore.trans hstore'),
        fun verdict hverdict => hstore ▸ hprocess.held verdict hverdict,
        fun f store' hf hstore' => hprocess.current f store' hf (hstore.trans hstore'), ?_, ?_⟩
      · show Phase.Safe _ _ _ (if _ then _ else _)
        by_cases hmoved : world.observation.isSome ∧ world.observation ≠ process.module_.token
        · rw [if_pos hmoved]
          refine ⟨rfl, ?_⟩
          have hsome := hmoved.1
          unfold World.observation at hsome
          rwa [Option.isSome_map] at hsome
        · rw [if_neg hmoved]
          refine ⟨rfl, fun f hf => ?_⟩
          have hobs : world.observation = some f.token := by
            unfold World.observation
            rw [hf]
            rfl
          rw [hobs] at hmoved
          by_contra htoken
          exact hmoved ⟨rfl, fun h => htoken h.symm⟩
      · intro call token hloading
        split at hloading <;> cases hloading
  · rw [if_neg hdirty]
    exact h

theorem accessLoading {token : Nat}
    (hphase : process.phase = .loading call token) (hunflushed : process.unflushed = [])
    (htimely : call.Timely world.content) : (world.access readers p process).Safe readers := by
  have hsafe := hprocess.phase
  rw [hphase] at hsafe
  unfold World.access
  rw [hphase]
  refine h.finish ?_ rfl hsafe.1 htimely
  exact
    { token_lt := fun token' htoken' => by
        obtain rfl := Option.some.inj htoken'
        exact ⟨hprocess.loading_lt call token hphase, hsafe.2⟩
      sound := fun store hstore => Option.some.inj hstore ▸ h.sound_content
      held := fun verdict hverdict => by
        change verdict ∈ process.unflushed at hverdict
        rw [hunflushed] at hverdict
        cases hverdict
      current := fun f store hf hstore _ _ => by
        obtain rfl := Option.some.inj hstore
        unfold World.content
        rw [hf]
        exact .refl _
      phase := hsafe
      loading_lt := fun call' token' hloading => by
        cases hloading
        exact hprocess.loading_lt call token hphase }

theorem accessMerging (hphase : process.phase = .merging)
    (hnewer : ∀ signature entry, .accepted signature entry ∈ process.unflushed →
      ∀ entry', world.content.confirmed.get? signature = some entry' →
        entry.SupersededBy entry') : (world.access readers p process).Safe readers := by
  have hsafe := hprocess.phase
  rw [hphase] at hsafe
  obtain ⟨store, hstore⟩ := Option.isSome_iff_exists.mp hsafe.1
  obtain ⟨f, hf⟩ := Option.isSome_iff_exists.mp hsafe.2
  unfold World.access
  rw [hphase]
  refine h.setProcess
    ⟨hprocess.token_lt, hprocess.sound, hprocess.held, hprocess.current, ?_, ?_⟩
  · refine ⟨hsafe.1, ?_, ⟨f, hf, ?_⟩, fun verdict hverdict => ?_⟩
    · rw [hstore]
      exact Rows.mergeStores h.sound_content (hprocess.sound store hstore)
    · unfold World.content
      rw [hf]
      exact keptBy_mergeStores
    · rw [hstore]
      obtain ⟨store', hstore', hholds⟩ := hprocess.held verdict hverdict
      obtain rfl := Option.some.inj (hstore.symm.trans hstore')
      refine holds_mergeStores hholds fun signature entry heq => ?_
      subst heq
      exact hnewer signature entry hverdict
  · intro call token hloading
    cases hloading

omit hprocess

theorem accessReplacing {merged : Bool}
    (hphase : (world.processes p).phase = .replacing store merged)
    (hmerged : merged = false → (world.processes p).merged = false)
    (halone : ∀ q, q ≠ p → (world.processes q).phase.writing = false) :
    (world.access readers p (world.processes p)).Safe readers := by
  have hprocess := h.processes p
  have hsafe := hprocess.phase
  rw [hphase] at hsafe
  obtain ⟨memory, hmemory⟩ : ∃ memory, (world.processes p).module_.store = some memory := by
    cases merged with
    | false => exact ⟨store, hsafe.1⟩
    | true => exact Option.isSome_iff_exists.mp hsafe.1
  have hsound : Sound readers store := by
    cases merged with
    | false => exact hprocess.sound store hsafe.1
    | true => exact hsafe.2.1
  have hfile : ∀ f, world.file = some f → f.content.KeptBy store := by
    intro f hf
    cases merged with
    | false => exact hprocess.current f store hf hsafe.1 (hsafe.2 f hf) (hmerged rfl)
    | true =>
      obtain ⟨f', hf', hkept⟩ := hsafe.2.2.1
      obtain rfl := Option.some.inj (hf.symm.trans hf')
      exact hkept
  have hheld : ∀ verdict ∈ (world.processes p).unflushed, store.Holds verdict := by
    intro verdict hverdict
    cases merged with
    | false =>
      obtain ⟨store', hstore', hholds⟩ := hprocess.held verdict hverdict
      obtain rfl := Option.some.inj (hsafe.1.symm.trans hstore')
      exact hholds
    | true => exact hsafe.2.2.2 verdict hverdict
  have hread := keptBy_readStoreFile hsound
  unfold World.access
  rw [hphase]
  refine ⟨fun f hf => ?_, fun verdict hverdict => ?_, fun q => ?_⟩
  · cases hf
    exact ⟨Nat.lt_succ_self _, hsound.readStoreFile⟩
  · refine ⟨_, rfl, hread.holds ?_⟩
    rcases List.mem_append.mp hverdict with hold | hnew
    · obtain ⟨f, hf, hholds⟩ := h.flushed verdict hold
      exact (hfile f hf).holds hholds
    · exact hheld verdict hnew
  · show ProcessSafe _ _ _ (Function.update world.processes p _ q)
    by_cases hq : q = p
    · subst hq
      rw [Function.update_self]
      exact
        { token_lt := fun token htoken =>
            ⟨Nat.lt_succ_of_lt (hprocess.token_lt token htoken).1, rfl⟩
          sound := hprocess.sound
          held := fun _ hverdict => nomatch hverdict
          current := fun f store' hf _ htoken _ => by
            cases hf
            have hlt := (hprocess.token_lt world.rewrites htoken).1
            omega
          phase := by
            refine ⟨memory, _, hmemory, rfl, fun hnot => ?_⟩
            subst hnot
            obtain rfl := Option.some.inj (hmemory.symm.trans hsafe.1)
            exact readStoreFile_keptBy hsound
          loading_lt := fun _ _ hloading => nomatch hloading }
    · rw [Function.update_of_ne hq]
      exact (h.processes q).rename (halone q hq)

theorem accessSettling
    (hprocess : ProcessSafe readers world.file world.rewrites process) {merged : Bool}
    (hphase : process.phase = .settling merged) :
    (world.access readers p process).Safe readers := by
  have hsafe := hprocess.phase
  rw [hphase] at hsafe
  obtain ⟨store, f, hstore, hf, hkept⟩ := hsafe
  unfold World.access
  rw [hphase]
  refine h.setProcess
    ⟨fun token htoken => ?_, hprocess.sound, hprocess.held, fun f' store' hf' hstore' _ hnot => ?_,
      trivial, fun _ _ hloading => nomatch hloading⟩
  · change world.file.map (·.token) = some token at htoken
    rw [hf] at htoken ⊢
    obtain rfl := Option.some.inj htoken
    exact ⟨(h.file f hf).1, rfl⟩
  · obtain rfl := Option.some.inj (hf.symm.trans hf')
    obtain rfl := Option.some.inj (hstore.symm.trans hstore')
    exact hkept hnot

/-- A careful step keeps the file, and what the processes rely on. -/
theorem step {event : Event ι}
    (hevent : event.action.OnSignature readers) (hcareful : world.Careful event) :
    (world.step readers event).Safe readers := by
  obtain ⟨p, action⟩ := event
  have hprocess := h.processes p
  unfold Careful at hcareful
  unfold World.step
  dsimp only at hcareful ⊢
  cases action with
  | call call =>
    cases hphase : (world.processes p).phase with
    | idle =>
      rw [hphase] at hcareful
      exact h.startCall hprocess hphase hevent hcareful
    | loading call' token => exact h
    | merging => exact h
    | replacing store merged => exact h
    | settling merged => exact h
  | flush =>
    cases hphase : (world.processes p).phase with
    | idle => exact h.startFlush hprocess hphase
    | loading call' token => exact h
    | merging => exact h
    | replacing store merged => exact h
    | settling merged => exact h
  | access =>
    cases hphase : (world.processes p).phase with
    | idle =>
      show (world.access readers p (world.processes p)).Safe readers
      unfold World.access
      rw [hphase]
      exact h
    | loading call token =>
      rw [hphase] at hcareful
      exact h.accessLoading hprocess hphase hcareful.1 hcareful.2
    | merging =>
      rw [hphase] at hcareful
      exact h.accessMerging hprocess hphase hcareful
    | replacing store merged =>
      rw [hphase] at hcareful
      exact h.accessReplacing hphase hcareful.1 hcareful.2
    | settling merged => exact h.accessSettling hprocess hphase
  | fail =>
    cases hphase : (world.processes p).phase with
    | replacing store merged =>
      exact h.setProcess ⟨hprocess.token_lt, hprocess.sound, hprocess.held, hprocess.current,
        trivial, fun _ _ hloading => nomatch hloading⟩
    | idle => exact h
    | loading call' token => exact h
    | merging => exact h
    | settling merged => exact h

theorem after {events : List (Event ι)}
    (hevents : ∀ event ∈ events, event.action.OnSignature readers)
    (hcareful : world.CarefulRun readers events) : (world.after readers events).Safe readers := by
  induction events generalizing world with
  | nil => exact h
  | cons event rest ih =>
    exact ih (h.step (hevents event List.mem_cons_self) hcareful.1)
      (fun event' hevent' => hevents event' (List.mem_cons_of_mem _ hevent')) hcareful.2

omit h

omit [DecidableEq ι] in
theorem opened {initial : Option InterpretationStore}
    (hinitial : ∀ store, initial = some store → Sound readers store) :
    (World.opened ι initial).Safe readers where
  file := by
    intro f hf
    obtain ⟨store, hstore, rfl⟩ := Option.map_eq_some_iff.mp hf
    exact ⟨Nat.zero_lt_one, hinitial store hstore⟩
  flushed := fun _ hverdict => nomatch hverdict
  processes := fun _ =>
    { token_lt := fun _ htoken => nomatch htoken
      sound := fun _ hstore => nomatch hstore
      held := fun _ hverdict => nomatch hverdict
      current := fun _ _ _ hstore => nomatch hstore
      phase := trivial
      loading_lt := fun _ _ hloading => nomatch hloading }

end World.Safe

/-! ## Runs -/

/-- Every run over a sound file: a researched interpretation that is returned was accepted, and
in a run of careful steps the file holds every verdict that was flushed. -/
theorem reviewed_verdicts_kept {ι : Type} [DecidableEq ι] (readers : MessageReaders)
    (initial : Option InterpretationStore)
    (hinitial : ∀ store, initial = some store → Sound readers store) (events : List (Event ι))
    (hevents : ∀ event ∈ events, event.action.OnSignature readers) :
    let world := (World.opened ι initial).after readers events
    (∀ answer ∈ world.answers, answer.2.source = .researched →
        answer.2.acceptedAt.isSome = true ∧ Accepted initial world.reviewed answer.1 answer.2)
      ∧ ((World.opened ι initial).CarefulRun readers events →
        ∀ verdict ∈ world.flushed, world.content.Holds verdict) := by
  refine ⟨((World.Accounted.opened hinitial).after hevents).answers, fun hcareful => ?_⟩
  intro verdict hverdict
  have hsafe := (World.Safe.opened hinitial).after hevents hcareful
  obtain ⟨f, hf, hholds⟩ := hsafe.flushed verdict hverdict
  unfold World.content
  rw [hf]
  exact hholds

/-- Messages that are their own normal form, and state nothing by themselves. -/
def plainReaders : MessageReaders where
  normalizeRefusalMessage := id
  interpretStructured := fun _ _ => none
  seedInterpretation := fun _ _ => none

def slowDown : Text := text "acme|m|429|slow down"

def sampleVerdict : StatedVerdict where
  class_ := .rateLimited
  scope := .attempt
  reset := none
  costClasses := none

def sampleEntry : Interpretation where
  class_ := .rateLimited
  scope := .attempt
  source := .researched
  acceptedAt := some 1000

/-- One process accepts a verdict and writes it, and another one asks for it. -/
def acceptedAndRead : List (Event Bool) :=
  [⟨false, .call (.accept slowDown (some sampleVerdict) 1000)⟩, ⟨false, .flush⟩,
    ⟨false, .access⟩, ⟨false, .access⟩,
    ⟨true, .call (.interpret (text "acme") (some (text "m")) 429 (text "slow down"))⟩,
    ⟨true, .access⟩]

theorem wellFormed_slowDown : WellFormed plainReaders slowDown :=
  ⟨by decide, by decide⟩

theorem reviewed_verdicts_kept_sample :
    let world := (World.opened Bool none).after plainReaders acceptedAndRead
    world.flushed = [.accepted slowDown sampleEntry]
      ∧ world.answers = [(slowDown, sampleEntry)]
      ∧ Accepted none world.reviewed slowDown sampleEntry
      ∧ world.content.Holds (.accepted slowDown sampleEntry) := by
  have hevents : ∀ event ∈ acceptedAndRead, event.action.OnSignature plainReaders := by
    intro event hevent
    simp only [acceptedAndRead, List.mem_cons, List.not_mem_nil, or_false] at hevent
    rcases hevent with rfl | rfl | rfl | rfl | rfl | rfl <;>
      first | exact wellFormed_slowDown | trivial
  obtain ⟨hanswers, hkept⟩ := reviewed_verdicts_kept plainReaders none
    (fun _ hnone => nomatch hnone) acceptedAndRead hevents
  have hanswered : ((World.opened Bool none).after plainReaders acceptedAndRead).answers
      = [(slowDown, sampleEntry)] := by
    decide +kernel
  have hflushed : ((World.opened Bool none).after plainReaders acceptedAndRead).flushed
      = [.accepted slowDown sampleEntry] := by
    decide +kernel
  refine ⟨hflushed, hanswered, (hanswers (slowDown, sampleEntry) ?_ rfl).2,
    hkept ?_ (.accepted slowDown sampleEntry) ?_⟩
  · rw [hanswered]
    exact List.mem_singleton_self _
  · refine ⟨?_, trivial, ⟨fun _ => rfl, fun q hq => ?_⟩, trivial, ?_, ⟨rfl, trivial⟩, trivial⟩
    · intro store hstore entry hentry
      obtain rfl := Option.some.inj hstore
      obtain rfl := Option.some.inj hentry
      exact ⟨rfl, fun existing hexisting => nomatch hexisting⟩
    · cases q with
      | false => exact absurd rfl hq
      | true => rfl
    · intro store _
      trivial
  · rw [hflushed]
    exact List.mem_singleton_self _

/-- A process that has merged a foreign verdict into the file writes its memory over it. -/
def mergedAndOverwritten : List (Event Bool) :=
  [⟨false, .call (.record (text "acme") (some (text "m")) 503 (text "busy") 1000)⟩,
    -- the other process accepts, and writes
    ⟨true, .call (.accept slowDown (some sampleVerdict) 1000)⟩, ⟨true, .flush⟩,
    ⟨true, .access⟩, ⟨true, .access⟩,
    -- the file has moved: the first one reads it, and writes both
    ⟨false, .flush⟩, ⟨false, .access⟩, ⟨false, .access⟩, ⟨false, .access⟩,
    -- the token is that of the file: nothing is read
    ⟨false, .call (.record (text "acme") (some (text "m")) 503 (text "busy") 2000)⟩,
    ⟨false, .flush⟩, ⟨false, .access⟩, ⟨false, .access⟩]

/-- A verdict that was flushed is gone, and nothing has replaced it. -/
theorem flushed_verdict_lost :
    (∀ event ∈ mergedAndOverwritten, event.action.OnSignature plainReaders)
      ∧ ((World.opened Bool none).after plainReaders mergedAndOverwritten).flushed
        = [.accepted slowDown sampleEntry]
      ∧ ¬((World.opened Bool none).after plainReaders mergedAndOverwritten).content.Holds
        (.accepted slowDown sampleEntry) := by
  refine ⟨fun event hevent => ?_, by decide +kernel, fun ⟨entry', hentry', _⟩ => ?_⟩
  · simp only [mergedAndOverwritten, List.mem_cons, List.not_mem_nil, or_false] at hevent
    rcases hevent with rfl | rfl | rfl | rfl | rfl | rfl | rfl | rfl | rfl | rfl | rfl | rfl
      | rfl <;> first | exact wellFormed_slowDown | trivial
  · have hnone : (((World.opened Bool none).after plainReaders
        mergedAndOverwritten).content.confirmed.get? slowDown) = none := by
      decide +kernel
    cases hentry'

end LlmRelay.Refusals
