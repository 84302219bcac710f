import Mathlib.Data.List.Basic
import Mathlib.Logic.Function.Basic

/-!
# Promises and their jobs

A promise is settled once. Reactions registered before wait for it, and become jobs when
it is settled; a reaction registered later is a job at once. Jobs run in the order in
which they were queued.

## Main definitions

* `Promise`: a promise with its reactions;
* `Jobs`: named promises and the queue;
* `Jobs.settle`, `Jobs.react`, `Jobs.pop`: settling a promise, registering a reaction, and
  taking a job;
* `Jobs.Linked`: a reaction to one promise settles another;
* `Jobs.Placed`: reactions wait for the promises they are for;
* `Jobs.Awaits`: an async function waits for one promise.

## Main results

* `Jobs.value_settle`: a promise keeps its first value;
* `Jobs.Linked.pending`: with no job left, a pending promise has a pending source;
* `Jobs.Awaits.resume`: a function is resumed once, with the value it waited for.
-/

namespace Ecma

/-- A promise: its value once it is settled, and the reactions that wait for it. -/
structure Promise (α ρ : Type*) where
  value : Option α
  reactions : List ρ

/-- Named promises, and the queue of jobs: reactions with the value they react to. -/
structure Jobs (ι α ρ : Type*) where
  promises : ι → Promise α ρ
  queue : List (ρ × α)

namespace Jobs

variable {ι α ρ : Type*}

/-- Every promise is pending, and nothing reacts. -/
def idle : Jobs ι α ρ := ⟨fun _ => ⟨none, []⟩, []⟩

/-- The value of a promise. -/
def value (j : Jobs ι α ρ) (i : ι) : Option α := (j.promises i).value

/-- The reactions that wait for a promise. -/
def reactions (j : Jobs ι α ρ) (i : ι) : List ρ := (j.promises i).reactions

/-- The queue without its first job. -/
def pop (j : Jobs ι α ρ) : Jobs ι α ρ := { j with queue := j.queue.tail }

@[simp] theorem value_idle (i : ι) : (idle : Jobs ι α ρ).value i = none := rfl

@[simp] theorem reactions_pop (j : Jobs ι α ρ) (i : ι) : j.pop.reactions i = j.reactions i := rfl

@[simp] theorem queue_pop (j : Jobs ι α ρ) : j.pop.queue = j.queue.tail := rfl

variable [DecidableEq ι]

/-- Settles a promise: its reactions are queued. A settled promise stays as it is. -/
def settle (j : Jobs ι α ρ) (i : ι) (v : α) : Jobs ι α ρ :=
  match j.value i with
  | some _ => j
  | none =>
    { promises := Function.update j.promises i ⟨some v, []⟩
      queue := j.queue ++ (j.reactions i).map fun r => (r, v) }

/-- Registers a reaction: it waits for the promise, or is queued where the promise is
settled. -/
def react (j : Jobs ι α ρ) (i : ι) (r : ρ) : Jobs ι α ρ :=
  match j.value i with
  | some v => { j with queue := j.queue ++ [(r, v)] }
  | none =>
    { j with promises := Function.update j.promises i ⟨none, j.reactions i ++ [r]⟩ }

variable {i : ι} {j : Jobs ι α ρ}

theorem settle_of_some {w : α} (h : j.value i = some w) (v : α) : j.settle i v = j := by
  unfold settle
  rw [h]

theorem settle_of_none (h : j.value i = none) (v : α) :
    (∀ k, (j.settle i v).value k = if k = i then some v else j.value k) ∧
      (∀ k, (j.settle i v).reactions k = if k = i then [] else j.reactions k) ∧
      (j.settle i v).queue = j.queue ++ (j.reactions i).map fun r => (r, v) := by
  unfold settle
  rw [h]
  refine ⟨fun k => ?_, fun k => ?_, rfl⟩
  · by_cases hk : k = i
    · subst hk
      simp [value]
    · simp [value, hk]
  · by_cases hk : k = i
    · subst hk
      simp [reactions]
    · simp [reactions, hk]

/-- **A promise keeps its first value.** -/
theorem value_settle (j : Jobs ι α ρ) (i k : ι) (v : α) :
    (j.settle i v).value k = if k = i then some ((j.value i).getD v) else j.value k := by
  cases h : j.value i with
  | some w =>
    rw [settle_of_some h]
    split
    · rename_i hk
      rw [hk, h]
      rfl
    · rfl
  | none => exact (settle_of_none h v).1 k

theorem value_settle_of_some {k : ι} {w : α} (h : j.value k = some w) (i : ι)
    (v : α) : (j.settle i v).value k = some w := by
  rw [value_settle]
  split
  · rename_i hk
    rw [← hk, h]
    rfl
  · exact h

@[simp] theorem value_react (j : Jobs ι α ρ) (i k : ι) (r : ρ) :
    (j.react i r).value k = j.value k := by
  unfold react
  cases h : j.value i with
  | some v => rfl
  | none =>
    by_cases hk : k = i
    · subst hk
      simpa [value] using h.symm
    · simp [value, hk]

theorem react_of_some {v : α} (h : j.value i = some v) (r : ρ) :
    (∀ k, (j.react i r).reactions k = j.reactions k) ∧
      (j.react i r).queue = j.queue ++ [(r, v)] := by
  unfold react
  rw [h]
  exact ⟨fun _ => rfl, rfl⟩

theorem react_of_none (h : j.value i = none) (r : ρ) :
    (∀ k, (j.react i r).reactions k
        = if k = i then j.reactions i ++ [r] else j.reactions k) ∧
      (j.react i r).queue = j.queue := by
  unfold react
  rw [h]
  refine ⟨fun k => ?_, rfl⟩
  by_cases hk : k = i
  · subst hk
    simp [reactions]
  · simp [reactions, hk]

/-! ## Links -/

/-- The reaction `r` to `p` settles `q`: it waits for `p`, and where `p` is settled and
`q` is not, it is queued. -/
structure Linked (j : Jobs ι α ρ) (p : ι) (r : ρ) (q : ι) : Prop where
  waits : j.value p = none → r ∈ j.reactions p
  queued : ∀ v, j.value p = some v → j.value q = none → (r, v) ∈ j.queue

omit [DecidableEq ι] in
omit [DecidableEq ι] in
@[simp] theorem queue_idle : (idle : Jobs ι α ρ).queue = [] := rfl

namespace Linked

variable {j : Jobs ι α ρ} {p q : ι} {r : ρ}

omit [DecidableEq ι] in
/-- **With no job left, a pending promise has a pending source.** -/
theorem pending (h : j.Linked p r q) (hqueue : j.queue = []) (hq : j.value q = none) :
    j.value p = none := by
  cases hp : j.value p with
  | none => rfl
  | some v =>
    have := h.queued v hp hq
    rw [hqueue] at this
    cases this

theorem settle (h : j.Linked p r q) (i : ι) (v : α) : (j.settle i v).Linked p r q := by
  cases hi : j.value i with
  | some w => rwa [settle_of_some hi]
  | none =>
    obtain ⟨hvalue, hreactions, hqueue⟩ := settle_of_none hi v
    constructor
    · intro hp
      rw [hvalue] at hp
      split at hp
      · cases hp
      · rename_i hne
        rw [hreactions, if_neg hne]
        exact h.waits hp
    · intro w hp hq
      rw [hvalue] at hp hq
      rw [hqueue]
      split at hq
      · cases hq
      · split at hp
        · -- the source is the promise settled now
          rename_i hpi
          rw [← Option.some.inj hp]
          exact List.mem_append_right _ (List.mem_map_of_mem (hpi ▸ h.waits (hpi ▸ hi)))
        · exact List.mem_append_left _ (h.queued w hp hq)

theorem react (h : j.Linked p r q) (i : ι) (r' : ρ) : (j.react i r').Linked p r q := by
  cases hi : j.value i with
  | some w =>
    obtain ⟨hreactions, hqueue⟩ := react_of_some hi r'
    refine ⟨fun hp => ?_, fun v hp hq => ?_⟩
    · rw [hreactions]
      exact h.waits (by simpa using hp)
    · rw [hqueue]
      exact List.mem_append_left _ (h.queued v (by simpa using hp) (by simpa using hq))
  | none =>
    obtain ⟨hreactions, hqueue⟩ := react_of_none hi r'
    refine ⟨fun hp => ?_, fun v hp hq => ?_⟩
    · rw [hreactions]
      have hold := h.waits (by simpa using hp)
      split
      · rename_i hpi
        exact List.mem_append_left _ (hpi ▸ hold)
      · exact hold
    · rw [hqueue]
      exact h.queued v (by simpa using hp) (by simpa using hq)

theorem of_react (i : ι) : (j.react i r).Linked i r q := by
  cases hi : j.value i with
  | some w =>
    obtain ⟨-, hqueue⟩ := react_of_some hi r
    refine ⟨fun hp => ?_, fun v hp _ => ?_⟩
    · rw [value_react, hi] at hp
      cases hp
    · rw [value_react, hi] at hp
      rw [hqueue, Option.some.inj hp]
      exact List.mem_append_right _ (List.mem_singleton_self _)
  | none =>
    obtain ⟨hreactions, -⟩ := react_of_none hi r
    refine ⟨fun _ => ?_, fun v hp _ => ?_⟩
    · rw [hreactions, if_pos rfl]
      exact List.mem_append_right _ (List.mem_singleton_self _)
    · rw [value_react, hi] at hp
      cases hp

variable {queue : List (ρ × α)}

omit [DecidableEq ι] in
/-- Taking a job keeps a link of another reaction, and a link whose target is settled. -/
theorem pop (h : j.Linked p r q) {job : ρ × α}
    (hqueue : j.queue = job :: queue) (hjob : job.1 ≠ r ∨ j.value q ≠ none) :
    j.pop.Linked p r q := by
  refine ⟨h.waits, fun v hp hq => ?_⟩
  have hmem := h.queued v hp hq
  rw [hqueue] at hmem
  rw [queue_pop, hqueue, List.tail_cons]
  rcases List.mem_cons.mp hmem with heq | hrest
  · rcases hjob with hne | hsettled
    · exact absurd (by rw [← heq]) hne
    · exact absurd hq hsettled
  · exact hrest

theorem pop_settle (h : j.Linked p r q) {job : ρ × α}
    (hqueue : j.queue = job :: queue) (v : α) (hjob : job.1 ≠ r ∨ i = q) :
    (j.pop.settle i v).Linked p r q := by
  rcases hjob with hne | rfl
  · exact (h.pop hqueue (.inl hne)).settle i v
  · refine ⟨fun hp => ?_, fun w hp hq => ?_⟩
    · cases hi : j.value i with
      | some w =>
        rw [settle_of_some (j := j.pop) hi] at hp ⊢
        exact h.waits hp
      | none =>
        obtain ⟨hvalue, hreactions, -⟩ := settle_of_none (j := j.pop) hi v
        rw [hvalue] at hp
        rw [hreactions]
        split at hp
        · cases hp
        · rename_i hne
          rw [if_neg hne]
          exact h.waits hp
    · rw [value_settle, if_pos rfl] at hq
      cases hq

end Linked

/-! ## Places -/

/-- Every reaction waits for a promise it is for, and every job reacts to the value of
one. -/
structure Placed (j : Jobs ι α ρ) (place : ι → ρ → Prop) : Prop where
  reactions : ∀ i, ∀ r ∈ j.reactions i, place i r
  queue : ∀ job ∈ j.queue, ∃ i, place i job.1 ∧ j.value i = some job.2

namespace Placed

variable {j : Jobs ι α ρ} {place : ι → ρ → Prop}

omit [DecidableEq ι] in
theorem idle : (Jobs.idle : Jobs ι α ρ).Placed place :=
  ⟨fun _ _ hr => absurd hr List.not_mem_nil, fun _ hjob => absurd hjob List.not_mem_nil⟩

theorem settle (h : j.Placed place) (i : ι) (v : α) : (j.settle i v).Placed place := by
  cases hi : j.value i with
  | some w => rwa [settle_of_some hi]
  | none =>
    obtain ⟨hvalue, hreactions, hqueue⟩ := settle_of_none hi v
    refine ⟨fun k r hr => ?_, fun job hjob => ?_⟩
    · rw [hreactions] at hr
      split at hr
      · cases hr
      · exact h.reactions k r hr
    · rw [hqueue] at hjob
      rcases List.mem_append.mp hjob with hold | hnew
      · obtain ⟨k, hplace, hk⟩ := h.queue job hold
        exact ⟨k, hplace, value_settle_of_some hk i v⟩
      · obtain ⟨r, hr, rfl⟩ := List.mem_map.mp hnew
        exact ⟨i, h.reactions i r hr, by rw [hvalue, if_pos rfl]⟩

theorem react (h : j.Placed place) {r : ρ} (hr : place i r) : (j.react i r).Placed place := by
  cases hi : j.value i with
  | some w =>
    obtain ⟨hreactions, hqueue⟩ := react_of_some hi r
    refine ⟨fun k r' hr' => h.reactions k r' (by rwa [hreactions] at hr'), fun job hjob => ?_⟩
    simp only [value_react]
    rw [hqueue] at hjob
    rcases List.mem_append.mp hjob with hold | hnew
    · exact h.queue job hold
    · rw [List.mem_singleton.mp hnew]
      exact ⟨i, hr, hi⟩
  | none =>
    obtain ⟨hreactions, hqueue⟩ := react_of_none hi r
    refine ⟨fun k r' hr' => ?_, fun job hjob => ?_⟩
    · rw [hreactions] at hr'
      split at hr'
      · rename_i hk
        rcases List.mem_append.mp hr' with hold | hnew
        · exact hk ▸ h.reactions i r' hold
        · rw [List.mem_singleton.mp hnew, hk]
          exact hr
      · exact h.reactions k r' hr'
    · simp only [value_react]
      exact h.queue job (hqueue ▸ hjob)

omit [DecidableEq ι] in
theorem pop (h : j.Placed place) : j.pop.Placed place :=
  ⟨h.reactions, fun job hjob => h.queue job (List.mem_of_mem_tail hjob)⟩

end Placed

/-! ## Waiting -/

variable [DecidableEq ρ]

/-- An async function whose resumption is the reaction `r` waits for the promise
`awaited`: its one resumption waits with the promise, or is queued with its value. -/
structure Awaits (j : Jobs ι α ρ) (r : ρ) (awaited : Option ι) : Prop where
  reactions : ∀ k, (j.reactions k).count r
    = if awaited = some k ∧ j.value k = none then 1 else 0
  queue : j.queue.filter (fun job => job.1 = r)
    = (awaited.bind j.value).toList.map fun v => (r, v)

namespace Awaits

variable {j : Jobs ι α ρ} {r : ρ} {awaited : Option ι}

theorem idle (r : ρ) : (Jobs.idle : Jobs ι α ρ).Awaits r none :=
  ⟨fun _ => rfl, rfl⟩

theorem settle (h : j.Awaits r awaited) (i : ι) (v : α) : (j.settle i v).Awaits r awaited := by
  cases hi : j.value i with
  | some w => rwa [settle_of_some hi]
  | none =>
    obtain ⟨hvalue, hreactions, hqueue⟩ := settle_of_none hi v
    have hjobs : ((j.reactions i).map fun r' => (r', v)).filter (fun job => decide (job.1 = r))
        = List.replicate ((j.reactions i).count r) (r, v) := by
      induction j.reactions i with
      | nil => rfl
      | cons r' rs ih =>
        by_cases hr : r' = r
        · subst hr
          simp [ih, List.replicate_succ]
        · simp [hr, ih]
    constructor
    · intro k
      rw [hreactions, hvalue]
      by_cases hk : k = i
      · simp [hk]
      · simp [hk, h.reactions k]
    · rw [hqueue, List.filter_append, hjobs, h.queue, h.reactions i]
      cases awaited with
      | none => simp
      | some k =>
        by_cases hk : k = i
        · subst hk
          simp [hi, hvalue]
        · simp [hvalue, hk]

theorem react_of_ne (h : j.Awaits r awaited) (i : ι) {r' : ρ} (hr : r' ≠ r) :
    (j.react i r').Awaits r awaited := by
  cases hi : j.value i with
  | some w =>
    obtain ⟨hreactions, hqueue⟩ := react_of_some hi r'
    refine ⟨fun k => ?_, ?_⟩
    · rw [hreactions, value_react, h.reactions]
    · rw [hqueue, List.filter_append, h.queue]
      simp [hr, funext fun k => value_react j i k r']
  | none =>
    obtain ⟨hreactions, hqueue⟩ := react_of_none hi r'
    refine ⟨fun k => ?_, ?_⟩
    · rw [hreactions, value_react, ← h.reactions k]
      split
      · rename_i hk
        rw [hk, List.count_append]
        simp [hr]
      · rfl
    · rw [hqueue, h.queue]
      simp [funext fun k => value_react j i k r']

theorem await (h : j.Awaits r none) (i : ι) : (j.react i r).Awaits r (some i) := by
  have hnone : ∀ k, (j.reactions k).count r = 0 := by
    intro k
    simpa using h.reactions k
  have hqueueNone : j.queue.filter (fun job => job.1 = r) = [] := by simpa using h.queue
  cases hi : j.value i with
  | some w =>
    obtain ⟨hreactions, hqueue⟩ := react_of_some hi r
    refine ⟨fun k => ?_, ?_⟩
    · rw [hreactions, hnone, value_react, if_neg]
      rintro ⟨hk, hpending⟩
      rw [← Option.some.inj hk, hi] at hpending
      cases hpending
    · rw [hqueue, List.filter_append, hqueueNone]
      simp [hi]
  | none =>
    obtain ⟨hreactions, hqueue⟩ := react_of_none hi r
    refine ⟨fun k => ?_, ?_⟩
    · rw [hreactions]
      by_cases hk : k = i
      · subst hk
        simp [hnone, hi]
      · simp [hk, hnone, Ne.symm hk]
    · rw [hqueue, hqueueNone]
      simp [hi]

variable (h : j.Awaits r awaited)

include h

theorem pop_of_ne {job : ρ × α} {queue : List (ρ × α)}
    (hqueue : j.queue = job :: queue) (hjob : job.1 ≠ r) : j.pop.Awaits r awaited := by
  refine ⟨h.reactions, ?_⟩
  have hold := h.queue
  rw [hqueue, List.filter_cons_of_neg (by simpa using hjob)] at hold
  rw [queue_pop, hqueue]
  exact hold

/-- **A function is resumed once**, with the value of the promise it waited for. -/
theorem resume {v : α} {queue : List (ρ × α)} (hqueue : j.queue = (r, v) :: queue) :
    ∃ i, awaited = some i ∧ j.value i = some v ∧ j.pop.Awaits r none := by
  have hold := h.queue
  rw [hqueue, List.filter_cons_of_pos (by simp)] at hold
  cases awaited with
  | none => cases hold
  | some i =>
    cases hi : j.value i with
    | none =>
      rw [Option.bind_some, hi] at hold
      cases hold
    | some w =>
      rw [Option.bind_some, hi] at hold
      simp only [Option.toList_some, List.map_cons, List.cons.injEq,
        Prod.mk.injEq, true_and] at hold
      refine ⟨i, rfl, by rw [hi, hold.1], fun k => ?_, ?_⟩
      · rw [reactions_pop, h.reactions k, if_neg]
        · simp
        · rintro ⟨hk, hpending⟩
          rw [← Option.some.inj hk, hi] at hpending
          cases hpending
      · rw [queue_pop, hqueue, List.tail_cons, hold.2]
        rfl

/-- With no job left, the function waits for a pending promise. -/
theorem pending (hqueue : j.queue = []) (hi : awaited = some i) : j.value i = none := by
  have hold := h.queue
  rw [hqueue, hi, Option.bind_some] at hold
  cases hv : j.value i with
  | none => rfl
  | some v =>
    rw [hv] at hold
    cases hold

end Awaits

end Jobs

end Ecma
