import LlmRelay.Candidates.CredentialWalk

/-!
# Safety of the candidate walk

What holds of a walk after any calls: nothing is offered twice, nothing
suppressed is freshly offered, the attempts in flight stay within the cap, and
the walk ends.

## Main definitions

* `CredentialWalk.Takes`: what one run of the loop of `next` does;
* `CredentialWalk.Accounted`: the invariant of a walk and its history.

## Main results

* `CredentialWalk.takeLoop_takes`: the loop ends and takes an eligible attempt;
* `CredentialWalk.Accounted.step`: one call preserves the invariant;
* `candidate_walk_safe`: the safety of the walk.
-/

namespace LlmRelay

open Ecma Transition

namespace CredentialWalk

/-! ## The loop of `next` -/

/-- The parts of a walk that offering a candidate does not touch. -/
structure SameRules (walk walk' : CredentialWalk) : Prop where
  groups : walk'.groups = walk.groups
  providerSuppressed : walk'.providerSuppressed = walk.providerSuppressed
  suppressedFacts : walk'.suppressedFacts = walk.suppressedFacts
  maxInFlight : walk'.maxInFlight = walk.maxInFlight
  stopped : walk'.stopped = walk.stopped

/-- A candidate that may be offered: its deployment is open, the first attempt
of its deployment is of no suppressed provider, and no suppressed fact covers it. -/
structure Eligible (walk : CredentialWalk) (attempt : ResolvedAttempt) : Prop where
  opened : targetKey attempt ∉ walk.deploymentClosed
  provider : ∃ group ∈ walk.groups, attempt ∈ group.attempts ∧
    ∃ first ∈ group.attempts, first.target.provider ∉ walk.providerSuppressed
  fact : walk.isSuppressed attempt = false

/-- What a run of the loop does: it may pass over suppressed attempts, and then
takes an eligible one that was not in flight, or finds none. -/
structure Takes (walk : CredentialWalk) (result : Option ResolvedAttempt)
    (walk' : CredentialWalk) : Prop where
  wellFormed : walk'.WellFormed
  rules : walk.SameRules walk'
  passed : ∃ skips : List ResolvedAttempt,
    walk'.taken.Perm (result.toList ++ (skips ++ walk.taken)) ∧
      walk'.skipped = walk.skipped + skips.length
  eligible : ∀ attempt, result = some attempt →
    walk.pending.get? attempt = none ∧ walk'.Eligible attempt

variable {walk : CredentialWalk}

theorem Takes.none (h : walk.WellFormed) : Takes walk none walk where
  wellFormed := h
  rules := ⟨rfl, rfl, rfl, rfl, rfl⟩
  passed := ⟨[], List.Perm.refl _, rfl⟩
  eligible := fun _ h => by cases h

variable {walk' : CredentialWalk} {attempt : ResolvedAttempt}

variable {walk : CredentialWalk}

/-- Passing over suppressed attempts first. -/
theorem Takes.after {walk₁ : CredentialWalk} {result : Option ResolvedAttempt}
    (h : Takes walk₁ result walk') (first : List ResolvedAttempt) (hrules : walk.SameRules walk₁)
    (hpending : walk₁.pending = walk.pending)
    (hskipped : walk₁.skipped = walk.skipped + first.length)
    (htaken : walk₁.taken.Perm (first ++ walk.taken)) : Takes walk result walk' := by
  obtain ⟨skips, hperm, hcount⟩ := h.passed
  refine ⟨h.wellFormed, ⟨?_, ?_, ?_, ?_, ?_⟩, ⟨skips ++ first, ?_, ?_⟩, fun a ha => ?_⟩
  · exact h.rules.groups.trans hrules.groups
  · exact h.rules.providerSuppressed.trans hrules.providerSuppressed
  · exact h.rules.suppressedFacts.trans hrules.suppressedFacts
  · exact h.rules.maxInFlight.trans hrules.maxInFlight
  · exact h.rules.stopped.trans hrules.stopped
  · rw [List.append_assoc]
    exact hperm.trans ((htaken.append_left skips).append_left _)
  · rw [hcount, List.length_append]
    omega
  · rw [← hpending]
    exact h.eligible a ha

/-- **The loop of `next` ends**, and takes an eligible attempt or finds none. The
rounds it needs are the queued keys and the attempts still to be passed. -/
theorem takeLoop_takes (n : Nat) (walk : CredentialWalk) (hwalk : walk.WellFormed)
    (hroom : walk.pending.entries.length < walk.maxInFlight)
    (hn : walk.queue.length + unreadBy walk.groups walk.cursor < n) :
    ∃ result walk', takeLoop n walk = some (result, walk') ∧ Takes walk result walk' := by
  induction n generalizing walk with
  | zero => omega
  | succ n ih =>
    cases hqueue : walk.queue with
    | nil => exact ⟨none, walk, by simp only [takeLoop, hqueue], Takes.none hwalk⟩
    | cons key queue =>
      have hinv : Invariant walk.groups (key :: queue) walk.pending walk.maxInFlight :=
        hqueue ▸ hwalk
      simp only [hqueue, List.length_cons] at hn
      obtain ⟨group, hfind⟩ :
          ∃ group, walk.groups.find? (fun candidate => candidate.key = key) = some group := by
        rw [← Option.isSome_iff_exists, List.find?_isSome]
        obtain ⟨group, hgroup, hkey⟩ := hinv.queued key List.mem_cons_self
        exact ⟨group, hgroup, by simpa using hkey⟩
      have hgroup : group ∈ walk.groups := List.mem_of_find?_eq_some hfind
      have hkey : group.key = key := by simpa using List.find?_some hfind
      subst hkey
      simp only [takeLoop, hqueue, hfind]
      split_ifs with hclosed
      · -- the deployment is closed or its provider is suppressed: the key is dropped
        obtain ⟨result, walk', hloop, htakes⟩ :=
          ih { walk with queue } hinv.pop hroom (by simp only; omega)
        exact ⟨result, walk', hloop,
          htakes.after [] ⟨rfl, rfl, rfl, rfl, rfl⟩ rfl rfl (List.Perm.refl _)⟩
      · cases hattempt : group.attempts[(walk.cursor.get? group.key).getD 0]? with
        | none =>
          obtain ⟨result, walk', hloop, htakes⟩ :=
            ih ({ walk with queue }.closeDeployment group.key) hinv.pop hroom
              (by simp only [closeDeployment]; omega)
          exact ⟨result, walk', hloop,
            htakes.after [] ⟨rfl, rfl, rfl, rfl, rfl⟩ rfl rfl (List.Perm.refl _)⟩
        | some attempt =>
          have hmem : attempt ∈ group.attempts := List.mem_of_getElem? hattempt
          obtain ⟨htaken, hunread⟩ := cursor_advance hinv.groupKeys hgroup hattempt
          simp only
          split_ifs with hsuppressed
          · -- a suppressed slot: the cursor moves on within the same deployment
            obtain ⟨result, walk', hloop, htakes⟩ :=
              ih { walk with
                   cursor := walk.cursor.set group.key ((walk.cursor.get? group.key).getD 0 + 1)
                   skipped := walk.skipped + 1
                   queue := group.key :: queue } hinv hroom
                (by simp only [List.length_cons]; omega)
            exact ⟨result, walk', hloop,
              htakes.after [attempt] ⟨rfl, rfl, rfl, rfl, rfl⟩ rfl rfl htaken⟩
          · refine ⟨some attempt, _, rfl, hinv.take hgroup rfl hmem hroom, ⟨rfl, rfl, rfl, rfl, rfl⟩,
              ⟨[], htaken, rfl⟩, fun a ha => ?_⟩
            cases ha
            have hattemptKey := hinv.keyed group hgroup attempt hmem
            refine ⟨hinv.not_pending hattemptKey, ?_, ⟨group, hgroup, hmem, ?_⟩,
              Bool.eq_false_iff.mpr hsuppressed⟩
            · rw [hattemptKey]
              exact fun hin => hclosed (by simp [hin])
            · cases hattempts : group.attempts with
              | nil => simp [hattempts] at hmem
              | cons first rest =>
                refine ⟨first, List.mem_cons_self, fun hin => hclosed ?_⟩
                simp [hattempts, hin]

/-! ## Recording -/

/-- What every recording operation keeps: the invariant, the cursors, and a stop. -/
structure Keeps (walk walk' : CredentialWalk) : Prop where
  wellFormed : walk'.WellFormed
  groups : walk'.groups = walk.groups
  cursor : walk'.cursor = walk.cursor
  skipped : walk'.skipped = walk.skipped
  maxInFlight : walk'.maxInFlight = walk.maxInFlight
  stopped : walk.stopped = true → walk'.stopped = true

variable (hwalk : walk.WellFormed)

include hwalk

theorem keeps_recordStarted {clock : Number}
    (h : walk.recordStarted attempt clock = .ok walk') : walk.Keeps walk' := by
  unfold recordStarted at h
  cases hget : walk.pending.get? attempt with
  | none => simp [hget] at h
  | some held =>
    simp only [hget] at h
    split_ifs at h
    cases h
    exact ⟨hwalk.start hget, rfl, rfl, rfl, rfl, fun h => h⟩

theorem keeps_releaseGroup {held : AttemptPlan}
    (hget : walk.pending.get? attempt = some held) (facts : List CredentialFact) :
    walk.Keeps (({ walk.settle attempt with suppressedFacts := facts }).releaseGroup
      held.group) := by
  unfold releaseGroup
  split_ifs
  · exact ⟨hwalk.requeue hget, rfl, rfl, rfl, rfl, fun h => h⟩
  · exact ⟨hwalk.settle hget, rfl, rfl, rfl, rfl, fun h => h⟩

theorem keeps_recordRejected (h : walk.recordRejected attempt = .ok walk') : walk.Keeps walk' := by
  unfold recordRejected at h
  cases hget : walk.pending.get? attempt with
  | none => simp [hget] at h
  | some held =>
    simp only [hget] at h
    cases h
    exact keeps_releaseGroup hwalk hget walk.suppressedFacts

theorem keeps_recordAbandoned
    (h : walk.recordAbandoned attempt = .ok walk') : walk.Keeps walk' := by
  unfold recordAbandoned at h
  cases hget : walk.pending.get? attempt with
  | none => simp [hget] at h
  | some held =>
    simp only [hget] at h
    split_ifs at h
    cases h
    exact keeps_releaseGroup hwalk hget walk.suppressedFacts

theorem keeps_record {outcome : CredentialWalkOutcome}
    (h : walk.record attempt outcome = .ok walk') : walk.Keeps walk' := by
  unfold record at h
  cases hget : walk.pending.get? attempt with
  | none => simp [hget] at h
  | some held =>
    have hsettle := hwalk.settle hget
    simp only [hget] at h
    split_ifs at h
    · cases h
      exact ⟨hsettle, rfl, rfl, rfl, rfl, fun _ => rfl⟩
    · cases h
      exact ⟨hsettle, rfl, rfl, rfl, rfl, fun h => h⟩
    · cases h
      exact keeps_releaseGroup hwalk hget _
    · cases h
      cases outcome.scope with
      | none => exact ⟨hsettle, rfl, rfl, rfl, rfl, fun h => h⟩
      | some scope => exact ⟨hsettle, rfl, rfl, rfl, rfl, fun h => h⟩

/-- A recording call keeps the walk's books, or throws and changes nothing; it
never offers. -/
theorem step_record_cases (call : Call) (hcall : ∀ clock, call ≠ .next clock) :
    walk.Keeps (walk.step call).1 ∧
      (∀ attempt fresh, (walk.step call).2 ≠ .offered attempt fresh) ∧
      (walk.step call).2 ≠ .looping := by
  have hself : walk.Keeps walk := ⟨hwalk, rfl, rfl, rfl, rfl, fun h => h⟩
  have hsettle : ∀ result : Except String CredentialWalk,
      (∀ walk', result = .ok walk' → walk.Keeps walk') →
      walk.Keeps (walk.settleCall result).1 ∧
        (∀ attempt fresh, (walk.settleCall result).2 ≠ .offered attempt fresh) ∧
        (walk.settleCall result).2 ≠ .looping := by
    intro result hresult
    cases result with
    | ok walk' => exact ⟨hresult walk' rfl, fun _ _ => Answer.noConfusion, Answer.noConfusion⟩
    | error message => exact ⟨hself, fun _ _ => Answer.noConfusion, Answer.noConfusion⟩
  cases call with
  | next clock => exact absurd rfl (hcall clock)
  | recordStarted attempt clock => exact hsettle _ fun _ => keeps_recordStarted hwalk
  | recordRejected attempt => exact hsettle _ fun _ => keeps_recordRejected hwalk
  | recordAbandoned attempt => exact hsettle _ fun _ => keeps_recordAbandoned hwalk
  | record attempt outcome => exact hsettle _ fun _ => keeps_record hwalk

/-! ## Offering -/

/-- **What `next` does**: it repeats an offer in flight or offers nothing, and
changes nothing; or the walk is not stopped and the loop takes a candidate. -/
theorem next_cases (clock : Number) :
    (∃ result, walk.next clock = some (result, walk) ∧
        (∀ attempt, result = some attempt → walk.stopped = false ∧ walk.isPending attempt = true)) ∨
      (∃ result walk', walk.next clock = some (result, walk') ∧ walk.stopped = false ∧
        Takes walk result walk') := by
  by_cases hstopped : walk.stopped = true
  · exact .inl ⟨none, by simp only [next, hstopped, if_true], fun _ h => by cases h⟩
  have hrunning : walk.stopped = false := Bool.eq_false_iff.mpr hstopped
  have hheld : ∀ entry ∈ walk.pending.entries, walk.isPending entry.1 = true := by
    intro entry hentry
    have hget : walk.pending.get? entry.1 = some entry.2 :=
      (OrderedMap.mem_entries_iff walk.pending).mp hentry
    simp [isPending, OrderedMap.has, hget]
  cases hfind : walk.pending.entries.find? fun entry => !entry.2.started with
  | some entry =>
    refine .inl ⟨some entry.1, by simp only [next, hrunning, Bool.false_eq_true, if_false, hfind], fun attempt ha => ?_⟩
    cases ha
    exact ⟨hrunning, hheld entry (List.mem_of_find?_eq_some hfind)⟩
  | none =>
    by_cases hfull : walk.maxInFlight ≤ walk.pending.entries.length
    · refine .inl ⟨walk.pending.keys.head?,
        by simp only [next, hrunning, Bool.false_eq_true, if_false, hfind, hfull, if_true], fun attempt ha => ?_⟩
      obtain ⟨entry, hentry, hfst⟩ := List.mem_map.mp (List.mem_of_mem_head? ha)
      exact ⟨hrunning, hfst ▸ hheld entry hentry⟩
    · by_cases hbudget : walk.budgetAllowsStart clock = true
      · obtain ⟨result, walk', hloop, htakes⟩ :=
          takeLoop_takes walk.rounds walk hwalk (not_le.mp hfull) (Nat.lt_succ_self _)
        refine .inr ⟨result, walk', ?_, hrunning, htakes⟩
        simp only [next, hrunning, Bool.false_eq_true, if_false, hfind, hfull, hbudget,
          Bool.not_true, hloop]
      · refine .inl ⟨none, ?_, fun _ h => by cases h⟩
        simp only [next, hrunning, Bool.false_eq_true, if_false, hfind, hfull, hbudget, Bool.not_false, if_true]

omit hwalk

/-! ## Runs -/

/-- The books of a walk: the attempts the cursors passed are the fresh offers of
its history and the skipped ones, out of the attempts it was built from. -/
structure Accounted (attempts : List ResolvedAttempt) (maxInFlight : Nat)
    (walk : CredentialWalk) (events : List (Call × Answer)) : Prop where
  wellFormed : walk.WellFormed
  groups : (walk.groups.flatMap (·.attempts)).Subperm attempts
  cap : walk.maxInFlight = maxInFlight
  passed : ∃ skips : List ResolvedAttempt,
    walk.taken.Perm (freshOffers events ++ skips) ∧ walk.skipped = skips.length
  ends : ∀ event ∈ events, event.2 ≠ .looping

theorem freshOffers_snoc (events : List (Call × Answer)) (event : Call × Answer) :
    freshOffers (events ++ [event]) = freshOffers events ++ freshOffers [event] := by
  simp [freshOffers]

variable {event : Call × Answer}

theorem freshOffers_of_not_offered
    (h : ∀ attempt, event.2 ≠ .offered attempt true) : freshOffers [event] = [] := by
  obtain ⟨call, answer⟩ := event
  cases answer with
  | offered attempt fresh =>
    cases fresh with
    | true => exact absurd rfl (h attempt)
    | false => rfl
  | nothing => rfl
  | looping => rfl
  | recorded => rfl
  | threw message => rfl

namespace Accounted

variable {attempts : List ResolvedAttempt} {maxInFlight : Nat} {walk : CredentialWalk}
  {events : List (Call × Answer)}

variable (h : Accounted attempts maxInFlight walk events)

include h

theorem quiet (hkeeps : walk.Keeps walk') (hoffered : ∀ attempt, event.2 ≠ .offered attempt true)
    (hends : event.2 ≠ .looping) :
    Accounted attempts maxInFlight walk' (events ++ [event]) where
  wellFormed := hkeeps.wellFormed
  groups := by
    rw [hkeeps.groups]
    exact h.groups
  cap := hkeeps.maxInFlight.trans h.cap
  passed := by
    obtain ⟨skips, hperm, hcount⟩ := h.passed
    refine ⟨skips, ?_, hkeeps.skipped.trans hcount⟩
    rw [freshOffers_snoc, freshOffers_of_not_offered hoffered, List.append_nil, taken,
      hkeeps.groups, hkeeps.cursor]
    exact hperm
  ends := fun e he => by
    rcases List.mem_append.mp he with hold | hnew
    · exact h.ends e hold
    · rw [List.mem_singleton.mp hnew]
      exact hends

theorem taking {result : Option ResolvedAttempt} (htakes : Takes walk result walk')
    (hevent : freshOffers [event] = result.toList) (hends : event.2 ≠ .looping) :
    Accounted attempts maxInFlight walk' (events ++ [event]) where
  wellFormed := htakes.wellFormed
  groups := by
    rw [htakes.rules.groups]
    exact h.groups
  cap := htakes.rules.maxInFlight.trans h.cap
  passed := by
    obtain ⟨skips, hperm, hcount⟩ := h.passed
    obtain ⟨new, hnew, hskipped⟩ := htakes.passed
    refine ⟨new ++ skips, ?_, by rw [hskipped, hcount, List.length_append, Nat.add_comm]⟩
    rw [freshOffers_snoc, hevent, List.append_assoc]
    refine hnew.trans (List.Perm.trans ((hperm.append_left new).append_left _) ?_)
    -- the candidate and the new skips change places with the earlier offers
    rw [← List.append_assoc, ← List.append_assoc (result.toList ++ new)]
    refine (List.perm_append_comm.append_right skips).trans ?_
    rw [List.append_assoc, List.append_assoc]
  ends := fun e he => by
    rcases List.mem_append.mp he with hold | hnew
    · exact h.ends e hold
    · rw [List.mem_singleton.mp hnew]
      exact hends

/-- **One call preserves the books.** -/
theorem step (call : Call) :
    Accounted attempts maxInFlight (walk.step call).1
      (events ++ [(call, (walk.step call).2)]) := by
  by_cases hcall : ∃ clock, call = .next clock
  · obtain ⟨clock, rfl⟩ := hcall
    rcases next_cases h.wellFormed clock with ⟨result, hnext, hheld⟩ |
      ⟨result, walk', hnext, -, htakes⟩
    · have hself : walk.Keeps walk := ⟨h.wellFormed, rfl, rfl, rfl, rfl, fun h => h⟩
      cases result with
      | none =>
        simp only [CredentialWalk.step, hnext]
        exact h.quiet hself (fun _ h => by cases h) (fun h => by cases h)
      | some attempt =>
        simp only [CredentialWalk.step, hnext, (hheld attempt rfl).2]
        exact h.quiet hself (fun _ h => by cases h) (fun h => by cases h)
    · cases result with
      | none =>
        simp only [CredentialWalk.step, hnext]
        exact h.taking htakes rfl (fun h => by cases h)
      | some attempt =>
        have hnew : walk.isPending attempt = false := by
          simp [isPending, OrderedMap.has, (htakes.eligible attempt rfl).1]
        simp only [CredentialWalk.step, hnext, hnew]
        exact h.taking htakes rfl (fun h => by cases h)
  · obtain ⟨hkeeps, hoffers, hends⟩ :=
      step_record_cases h.wellFormed call fun clock heq => hcall ⟨clock, heq⟩
    exact h.quiet hkeeps (fun attempt => hoffers attempt true) hends

end Accounted

/-! ## The start of a walk -/

theorem taken_construct (attempts : List ResolvedAttempt) (options : CredentialWalkOptions) :
    (construct attempts options).taken = [] := by
  have hzero : ∀ (groups : List DeploymentCredentialGroup) (cursor : OrderedMap String Nat),
      (∀ key, (cursor.get? key).getD 0 = 0) →
      ∀ key, ((groups.foldl (fun cursor group => cursor.set group.key 0) cursor).get? key).getD 0
        = 0 := by
    intro groups
    induction groups with
    | nil => exact fun _ h => h
    | cons group rest ih =>
      intro cursor hcursor
      refine ih _ fun key => ?_
      rw [OrderedMap.get?_set]
      split_ifs
      · rfl
      · exact hcursor key
  have hempty : ∀ key, ((OrderedMap.empty : OrderedMap String Nat).get? key).getD 0 = 0 :=
    fun _ => rfl
  simp only [takenBy, construct, hzero _ _ hempty, List.take_zero, List.flatMap_eq_nil_iff,
    implies_true]

theorem Accounted.construct (attempts : List ResolvedAttempt) (options : CredentialWalkOptions) :
    Accounted attempts (normalizedMaxInFlight options.maxInFlight)
      (CredentialWalk.construct attempts options) [] := by
  obtain ⟨hkeys, hkeyed, hperm⟩ := groupCredentialAttempts_spec
    (rankCredentialAttempts options.lru options.selection attempts)
  refine ⟨⟨hkeys, hkeyed, fun key hkey => ?_, fun _ _ h => (by cases h), ?_,
    Nat.zero_le _⟩, ?_, rfl, ⟨[], ?_, rfl⟩, fun _ h => (by cases h)⟩
  · exact List.mem_map.mp hkey
  · simpa [CredentialWalk.construct, OrderedMap.values, OrderedMap.empty] using hkeys
  · exact hperm.subperm.trans (rankCredentialAttempts_subperm _ _ _)
  · rw [taken_construct]
    exact List.Perm.nil

theorem stopped_step (hwalk : walk.WellFormed) (hstopped : walk.stopped = true) (call : Call) :
    (walk.step call).1.WellFormed ∧ (walk.step call).1.stopped = true ∧
      ∀ attempt fresh, (walk.step call).2 ≠ .offered attempt fresh := by
  by_cases hcall : ∃ clock, call = .next clock
  · obtain ⟨clock, rfl⟩ := hcall
    have hnext : walk.next clock = some (none, walk) := by simp only [next, hstopped, if_true]
    simp only [step, hnext]
    exact ⟨hwalk, hstopped, fun _ _ => Answer.noConfusion⟩
  · obtain ⟨hkeeps, hoffers, -⟩ :=
      step_record_cases hwalk call fun clock heq => hcall ⟨clock, heq⟩
    exact ⟨hkeeps.wellFormed, hkeeps.stopped hstopped, hoffers⟩

theorem stopped_run (hwalk : walk.WellFormed) (hstopped : walk.stopped = true) (later : List Call) :
    ∀ event ∈ history step walk later, ∀ attempt fresh, event.2 ≠ .offered attempt fresh := by
  induction later generalizing walk with
  | nil => exact fun event hevent => by cases hevent
  | cons call rest ih =>
    obtain ⟨hnext, hstill, hoffers⟩ := stopped_step hwalk hstopped call
    intro event hevent
    rcases List.mem_cons.mp hevent with rfl | hrest
    · exact hoffers
    · exact ih hnext hstill event hrest

end CredentialWalk

/-- **The candidate walk is safe.** For attempts whose provider names contain no
NUL, and after any calls: an attempt is freshly offered no more often than it is
listed; a fresh offer is of an open deployment, of no suppressed provider and
covered by no suppressed fact, and any other offer repeats one in flight; the
attempts in flight stay within the cap, and each deployment stands at most once
in the queue and in flight; a stopped walk never offers again; and fresh offers
and skips together are no more than the attempts, while every `next` returns. -/
theorem candidate_walk_safe (attempts : List ResolvedAttempt) (options : CredentialWalkOptions)
    (hprovider : ∀ a ∈ attempts, '\x00' ∉ a.target.provider.toList)
    (calls : List CredentialWalk.Call) :
    let walk := finalState CredentialWalk.step (.construct attempts options) calls
    let events := history CredentialWalk.step (.construct attempts options) calls
    (∀ a, (CredentialWalk.freshOffers events).count a ≤ attempts.count a) ∧
      (∀ clock a, (walk.step (.next clock)).2 = .offered a true →
        targetKey a ∉ (walk.step (.next clock)).1.deploymentClosed ∧
          a.target.provider ∉ walk.providerSuppressed ∧ walk.isSuppressed a = false) ∧
      (∀ clock a, (walk.step (.next clock)).2 = .offered a false → walk.isPending a = true) ∧
      walk.pending.entries.length ≤ normalizedMaxInFlight options.maxInFlight ∧
      (walk.queue ++ walk.pending.values.map (·.group.key)).Nodup ∧
      (walk.stopped = true → ∀ later, ∀ event ∈ history CredentialWalk.step walk later,
        ∀ a fresh, event.2 ≠ .offered a fresh) ∧
      (CredentialWalk.freshOffers events).length + walk.skipped ≤ attempts.length ∧
      ∀ event ∈ events, event.2 ≠ .looping := by
  intro walk events
  have h : CredentialWalk.Accounted attempts (normalizedMaxInFlight options.maxInFlight)
      walk events :=
    run_invariant CredentialWalk.step (CredentialWalk.Accounted.construct attempts options)
      (fun _ _ call h => h.step call) calls
  obtain ⟨skips, hperm, hskipped⟩ := h.passed
  have hlisted : (CredentialWalk.freshOffers events ++ skips).Subperm attempts :=
    (hperm.symm.subperm.trans (CredentialWalk.takenBy_subperm _ _)).trans h.groups
  refine ⟨fun a => ?_, fun clock a ha => ?_, fun clock a ha => ?_, ?_, h.wellFormed.distinct,
    fun hstopped => CredentialWalk.stopped_run h.wellFormed hstopped, ?_, h.ends⟩
  · have hcount := hlisted.count_le a
    rw [List.count_append] at hcount
    omega
  · rcases CredentialWalk.next_cases h.wellFormed clock with ⟨result, hnext, hheld⟩ |
      ⟨result, walk', hnext, -, htakes⟩
    · cases result with
      | none => simp [CredentialWalk.step, hnext] at ha
      | some b =>
        simp only [CredentialWalk.step, hnext, (hheld b rfl).2] at ha
        cases ha
    · cases result with
      | none => simp [CredentialWalk.step, hnext] at ha
      | some b =>
        simp only [CredentialWalk.step, hnext, CredentialWalk.Answer.offered.injEq] at ha
        obtain ⟨rfl, -⟩ := ha
        obtain ⟨hopened, ⟨group, hgroup, hb, first, hfirst, hallowed⟩, hfact⟩ :=
          (htakes.eligible b rfl).2
        simp only [CredentialWalk.step, hnext]
        refine ⟨hopened, ?_, ?_⟩
        · -- the deployment's first attempt is of the same provider
          have hin : ∀ c ∈ group.attempts, '\x00' ∉ c.target.provider.toList := fun c hc =>
            hprovider c (h.groups.subset (List.mem_flatMap.mpr
              ⟨group, htakes.rules.groups ▸ hgroup, hc⟩))
          have hkeys : targetKey b = targetKey first :=
            (htakes.wellFormed.keyed group hgroup b hb).trans
              (htakes.wellFormed.keyed group hgroup first hfirst).symm
          rw [provider_eq_of_targetKey_eq (hin b hb) (hin first hfirst) hkeys,
            ← htakes.rules.providerSuppressed]
          exact hallowed
        · rw [← hfact]
          simp only [CredentialWalk.isSuppressed, htakes.rules.suppressedFacts]
  · rcases CredentialWalk.next_cases h.wellFormed clock with ⟨result, hnext, hheld⟩ |
      ⟨result, walk', hnext, -, htakes⟩
    · cases result with
      | none => simp [CredentialWalk.step, hnext] at ha
      | some b =>
        simp only [CredentialWalk.step, hnext, CredentialWalk.Answer.offered.injEq] at ha
        obtain ⟨rfl, -⟩ := ha
        exact (hheld b rfl).2
    · cases result with
      | none => simp [CredentialWalk.step, hnext] at ha
      | some b =>
        simp only [CredentialWalk.step, hnext, CredentialWalk.Answer.offered.injEq] at ha
        obtain ⟨rfl, hpending⟩ := ha
        simpa using hpending
  · rw [← h.cap]
    exact h.wellFormed.capacity
  · have hlength := hlisted.length_le
    rw [List.length_append, ← hskipped] at hlength
    exact hlength

/-! ## Walks at fixed inputs -/

/-- A keyless attempt of a deployment. -/
def keylessAttempt (ref : Ref) (provider base model : String) : ResolvedAttempt where
  ref
  target := { provider, base, kind := .openai, model := some model }
  credentialId := provider ++ "#default"
  credentialState := .notDeclared
  slot := { enabled := true, models := none, configIndex := 0 }

/-- Neutral options with the given cap. -/
def neutralOptions (maxInFlight : Number) : CredentialWalkOptions where
  selection := { evidenceFor := fun _ => none, now := 0, quotaFreshnessMs := 300000 }
  lru := .fresh
  walkBudgetMs := none
  suppressedFacts := []
  maxInFlight := some maxInFlight

/-- The outcome of a transport failure. -/
def transportFailure : CredentialWalkOutcome := ⟨none, some .providerTransport, none⟩

/-- Suppression does not reach every offer. With two in flight, a candidate that
was offered before its provider was suppressed is offered again; and with one in
flight, two deployments whose keys collide at a NUL share one provider check. -/
theorem suppressed_provider_offered :
    (¬ ∀ attempts options calls clock a fresh,
      let walk := finalState CredentialWalk.step (.construct attempts options) calls
      (walk.step (.next clock)).2 = .offered a fresh →
        a.target.provider ∉ walk.providerSuppressed) ∧
    ¬ ∀ attempts options calls clock a,
      let walk := finalState CredentialWalk.step (.construct attempts options) calls
      (walk.step (.next clock)).2 = .offered a true →
        a.target.provider ∉ walk.providerSuppressed := by
  constructor
  · intro h
    let a := keylessAttempt 1 "p" "b" "m"
    let b := keylessAttempt 2 "p" "b" "n"
    exact h [a, b] (neutralOptions 2)
      [.next 0, .recordStarted a 0, .next 0, .record a transportFailure] 0 b false
      (by decide +kernel) (by decide +kernel)
  · intro h
    let a := keylessAttempt 1 "p" "b\x00c" "m"
    let b := keylessAttempt 2 "p\x00b" "c" "m"
    let c := keylessAttempt 3 "p\x00b" "d" "m"
    exact h [c, a, b] (neutralOptions 1)
      [.next 0, .recordStarted c 0, .record c transportFailure, .next 0, .recordRejected a] 0 b
      (by decide +kernel) (by decide +kernel)

/-- A hedged walk over two deployments of one provider. -/
theorem candidate_walk_safe_hedged :
    let attempts := [keylessAttempt 1 "p" "b" "m", keylessAttempt 2 "p" "b" "n"]
    let calls : List CredentialWalk.Call :=
      [.next 0, .recordStarted (keylessAttempt 1 "p" "b" "m") 0, .next 0]
    let walk := finalState CredentialWalk.step (.construct attempts (neutralOptions 2)) calls
    walk.pending.entries.length = 2 ∧ walk.pending.entries.length ≤ 2 := by
  intro attempts calls walk
  have hsafe := candidate_walk_safe attempts (neutralOptions 2) (by decide) calls
  exact ⟨by decide +kernel, hsafe.2.2.2.1⟩

end LlmRelay
