import LlmRelay.Candidates.CredentialSelect
import LlmRelay.Transition.Run

/-!
# The candidate walk

The request-local breadth-first walk over deployments and their credentials
(`CredentialWalk` in `credential-select.ts`), for any number of attempts in
flight.

## Main definitions

* `CredentialWalk`: the private state;
* `CredentialWalk.next`, `CredentialWalk.recordStarted`,
  `CredentialWalk.recordRejected`, `CredentialWalk.recordAbandoned`,
  `CredentialWalk.record`: the operations;
* `CredentialWalk.step`: one call, with its answer;
* `CredentialWalk.WellFormed`: the invariant of the queue, the cursors and the
  attempts in flight.

## Main results

* `CredentialWalk.takeLoop_spec`: the loop of `next` ends, and what it offers;
* `CredentialWalk.WellFormed.step`: one call preserves the invariant.
-/

namespace LlmRelay

open Ecma Transition

/-- How a started attempt ended, as the walk is told. -/
inductive CredentialWalkOutcomeKind where
  | success
  | credential
  | deployment
  | providerTransport
  | timeout
  | protocol
  | unknownRefusal
  | local_
  | client
  | cancelled
  deriving DecidableEq, Repr

/-- The outcome recorded for a started attempt. -/
structure CredentialWalkOutcome where
  status : Option Nat
  kind : Option CredentialWalkOutcomeKind
  scope : Option FactScope
  deriving DecidableEq, Repr

/-- An attempt in flight. -/
structure AttemptPlan where
  attempt : ResolvedAttempt
  group : DeploymentCredentialGroup
  started : Bool
  deriving DecidableEq, Repr

/-- The private state of a walk. -/
structure CredentialWalk where
  groups : List DeploymentCredentialGroup
  cursor : OrderedMap String Nat
  queue : List String
  providerSuppressed : List String
  deploymentClosed : List String
  suppressedFacts : List CredentialFact
  lru : CredentialLru
  budgetMs : Number
  started : Nat
  skipped : Nat
  stopped : Bool
  startedAt : Option Number
  pending : OrderedMap ResolvedAttempt AttemptPlan
  maxInFlight : Nat

/-- The options of a walk. -/
structure CredentialWalkOptions where
  selection : SelectionOptions
  lru : CredentialLru
  walkBudgetMs : Option Number
  suppressedFacts : List CredentialFact
  maxInFlight : Option Number

/-- The number of attempts that may be in flight: one where the option is
missing, not finite or below one. -/
def normalizedMaxInFlight : Option Number → Nat
  | some (.fin cap) => if 1 ≤ cap then cap.floor.toNat else 1
  | _ => 1

namespace CredentialWalk

/-- The constructor. -/
def construct (attempts : List ResolvedAttempt) (options : CredentialWalkOptions) :
    CredentialWalk :=
  let ranked := rankCredentialAttempts options.lru options.selection attempts
  let groups := groupCredentialAttempts ranked
  { groups
    cursor := groups.foldl (fun cursor group => cursor.set group.key 0) .empty
    queue := groups.map (·.key)
    providerSuppressed := []
    deploymentClosed := []
    suppressedFacts := options.suppressedFacts
    lru := options.lru
    budgetMs := options.walkBudgetMs.getD 45000
    started := 0
    skipped := 0
    stopped := false
    startedAt := none
    pending := .empty
    maxInFlight := normalizedMaxInFlight options.maxInFlight }

/-- Is this exact attempt still in flight? -/
def isPending (walk : CredentialWalk) (attempt : ResolvedAttempt) : Bool :=
  walk.pending.has attempt

/-- May another attempt be started at this instant? -/
def budgetAllowsStart (walk : CredentialWalk) (clock : Number) : Bool :=
  walk.started < 2 || walk.budgetMs = 0
    || walk.startedAt.all fun startedAt => (clock.sub startedAt).lt walk.budgetMs

/-- Does a suppressed fact cover the attempt? -/
def isSuppressed (walk : CredentialWalk) (attempt : ResolvedAttempt) : Bool :=
  walk.suppressedFacts.any fun fact => scopeMatches fact.scope attempt

/-- Marks a deployment as closed. -/
def closeDeployment (walk : CredentialWalk) (key : String) : CredentialWalk :=
  { walk with deploymentClosed := walk.deploymentClosed.insert key }

/-- The attempts the cursors have not passed yet. -/
def unreadBy (groups : List DeploymentCredentialGroup) (cursor : OrderedMap String Nat) : Nat :=
  (groups.map fun group => group.attempts.length - (cursor.get? group.key).getD 0).sum

/-- The `while` loop of `next`; `none` is the loop still running when the given
number of rounds is used up. -/
def takeLoop : Nat → CredentialWalk → Option (Option ResolvedAttempt × CredentialWalk)
  | 0, _ => none
  | rounds + 1, walk =>
    match walk.queue with
    | [] => some (none, walk)
    | key :: queue =>
      let walk := { walk with queue }
      match walk.groups.find? fun candidate => candidate.key = key with
      | none => some (none, walk)
      | some group =>
        if walk.deploymentClosed.contains key
            || (group.attempts.head?.any fun first =>
              walk.providerSuppressed.contains first.target.provider) then
          takeLoop rounds walk
        else
          let index := (walk.cursor.get? key).getD 0
          match group.attempts[index]? with
          | none => takeLoop rounds (walk.closeDeployment key)
          | some attempt =>
            let walk := { walk with cursor := walk.cursor.set key (index + 1) }
            if walk.isSuppressed attempt then
              takeLoop rounds { walk with skipped := walk.skipped + 1, queue := key :: queue }
            else
              some (some attempt,
                { walk with pending := walk.pending.set attempt ⟨attempt, group, false⟩ })

/-- The rounds after which the loop of `next` has ended. -/
def rounds (walk : CredentialWalk) : Nat :=
  walk.queue.length + unreadBy walk.groups walk.cursor + 1

/-- Offers a candidate; `clock` is the walk's clock at this instant, and `none`
would be a loop that does not end. -/
def next (walk : CredentialWalk) (clock : Number) :
    Option (Option ResolvedAttempt × CredentialWalk) :=
  if walk.stopped then some (none, walk)
  else
    match walk.pending.entries.find? fun entry => !entry.2.started with
    | some entry => some (some entry.1, walk)
    | none =>
      if walk.maxInFlight ≤ walk.pending.entries.length then
        some (walk.pending.keys.head?, walk)
      else if !walk.budgetAllowsStart clock then some (none, walk)
      else takeLoop walk.rounds walk

/-- Returns a deployment to the queue, or closes it when its credentials are
exhausted. -/
def releaseGroup (walk : CredentialWalk) (group : DeploymentCredentialGroup) : CredentialWalk :=
  if (walk.cursor.get? group.key).getD 0 < group.attempts.length then
    { walk with queue := walk.queue ++ [group.key] }
  else walk.closeDeployment group.key

/-- Takes an attempt out of flight. -/
def settle (walk : CredentialWalk) (attempt : ResolvedAttempt) : CredentialWalk :=
  { walk with pending := walk.pending.delete attempt }

/-- Marks the offered candidate as crossing the backend-start boundary. -/
def recordStarted (walk : CredentialWalk) (attempt : ResolvedAttempt) (clock : Number) :
    Except String CredentialWalk :=
  match walk.pending.get? attempt with
  | none => .error "credential start does not match pending attempt"
  | some held =>
    if held.started then .error "credential attempt already marked started"
    else
      .ok { walk with
        startedAt := walk.startedAt.or (some clock)
        started := walk.started + 1
        lru := walk.lru.touch attempt.credentialId
        pending := walk.pending.set attempt { held with started := true } }

/-- Discards an offered candidate after local validation. -/
def recordRejected (walk : CredentialWalk) (attempt : ResolvedAttempt) :
    Except String CredentialWalk :=
  match walk.pending.get? attempt with
  | none => .error "credential rejection does not match pending attempt"
  | some held => .ok ((walk.settle attempt).releaseGroup held.group)

/-- Retires a hedge loser. -/
def recordAbandoned (walk : CredentialWalk) (attempt : ResolvedAttempt) :
    Except String CredentialWalk :=
  match walk.pending.get? attempt with
  | none => .error "credential abandonment does not match pending attempt"
  | some held =>
    if !held.started then .error "credential abandonment does not match pending attempt"
    else .ok ((walk.settle attempt).releaseGroup held.group)

/-- Outcomes that end the walk. -/
def endsWalk (outcome : CredentialWalkOutcome) : Bool :=
  outcome.kind = some .success || outcome.status.any (fun status => 200 ≤ status && status < 400)
    || outcome.kind = some .local_ || outcome.kind = some .client
    || outcome.kind = some .cancelled

/-- Outcomes that say something about the credential only. -/
def credentialScoped (outcome : CredentialWalkOutcome) : Bool :=
  match outcome.scope with
  | some (.attempt _ _ _) => true
  | some (.credential _ _) => true
  | some (.group _ credentialId _) => credentialId.isSome
  | some _ => false
  | none =>
    outcome.status = some 401 || outcome.status = some 403 || outcome.status = some 402
      || outcome.status = some 429 || outcome.kind = some .credential

/-- Adds an accepted fact. -/
def suppress (walk : CredentialWalk) (scope : FactScope) : CredentialWalk :=
  { walk with suppressedFacts := walk.suppressedFacts ++ [⟨"accepted", scope⟩] }

/-- Records the outcome of a started attempt. -/
def record (walk : CredentialWalk) (attempt : ResolvedAttempt)
    (outcome : CredentialWalkOutcome) : Except String CredentialWalk :=
  match walk.pending.get? attempt with
  | none => .error "credential walk outcome does not match pending attempt"
  | some held =>
    if !held.started then .error "credential outcome recorded before backend start"
    else
      let walk := walk.settle attempt
      if endsWalk outcome then .ok { walk with stopped := true }
      else if outcome.kind = some .providerTransport then
        .ok { walk with
          providerSuppressed := walk.providerSuppressed.insert attempt.target.provider }
      else if credentialScoped outcome then
        let exactScope := outcome.scope.getD
          (.attempt attempt.target.provider attempt.credentialId (attempt.target.model.getD ""))
        .ok ((walk.suppress exactScope).releaseGroup held.group)
      else
        .ok ((outcome.scope.elim walk walk.suppress).closeDeployment held.group.key)

/-! ## Calls and answers -/

/-- A call on the walk, with the clock where the walk reads it. -/
inductive Call where
  | next (clock : Number)
  | recordStarted (attempt : ResolvedAttempt) (clock : Number)
  | recordRejected (attempt : ResolvedAttempt)
  | recordAbandoned (attempt : ResolvedAttempt)
  | record (attempt : ResolvedAttempt) (outcome : CredentialWalkOutcome)

/-- What a call answers: `fresh` tells an offer of an attempt that was not in
flight from a repeated one. -/
inductive Answer where
  | nothing
  | offered (attempt : ResolvedAttempt) (fresh : Bool)
  | looping
  | recorded
  | threw (message : String)
  deriving DecidableEq

/-- The state after an operation that may throw. -/
def settleCall (walk : CredentialWalk) : Except String CredentialWalk → CredentialWalk × Answer
  | .ok walk' => (walk', .recorded)
  | .error message => (walk, .threw message)

/-- One call. -/
def step (walk : CredentialWalk) : Call → CredentialWalk × Answer
  | .next clock =>
    match walk.next clock with
    | none => (walk, .looping)
    | some (none, walk') => (walk', .nothing)
    | some (some attempt, walk') => (walk', .offered attempt (!walk.isPending attempt))
  | .recordStarted attempt clock => walk.settleCall (walk.recordStarted attempt clock)
  | .recordRejected attempt => walk.settleCall (walk.recordRejected attempt)
  | .recordAbandoned attempt => walk.settleCall (walk.recordAbandoned attempt)
  | .record attempt outcome => walk.settleCall (walk.record attempt outcome)

/-- The attempts freshly offered in a history, in order. -/
def freshOffers (events : List (Call × Answer)) : List ResolvedAttempt :=
  events.filterMap fun event =>
    match event.2 with
    | .offered attempt true => some attempt
    | _ => none

end CredentialWalk

/-! ## The invariant -/

namespace CredentialWalk

/-- What holds of the groups, the queue and the attempts in flight: every
attempt stands in the group of its key, the queue and the attempts in flight
name each group at most once, and no more than the cap are in flight. -/
structure Invariant (groups : List DeploymentCredentialGroup) (queue : List String)
    (pending : OrderedMap ResolvedAttempt AttemptPlan) (maxInFlight : Nat) : Prop where
  groupKeys : (groups.map (·.key)).Nodup
  keyed : ∀ group ∈ groups, ∀ a ∈ group.attempts, targetKey a = group.key
  queued : ∀ key ∈ queue, ∃ group ∈ groups, group.key = key
  held : ∀ a plan, pending.get? a = some plan → plan.group ∈ groups ∧ a ∈ plan.group.attempts
  distinct : (queue ++ pending.values.map (·.group.key)).Nodup
  capacity : pending.entries.length ≤ maxInFlight

/-- The invariant of a walk. -/
abbrev WellFormed (walk : CredentialWalk) : Prop :=
  Invariant walk.groups walk.queue walk.pending walk.maxInFlight

namespace Invariant

variable {groups : List DeploymentCredentialGroup} {queue : List String}
  {pending : OrderedMap ResolvedAttempt AttemptPlan} {maxInFlight : Nat}

variable {key : String} {attempt : ResolvedAttempt} {plan : AttemptPlan}

theorem pop (h : Invariant groups (key :: queue) pending maxInFlight) :
    Invariant groups queue pending maxInFlight where
  groupKeys := h.groupKeys
  keyed := h.keyed
  queued := fun k hk => h.queued k (List.mem_cons_of_mem _ hk)
  held := h.held
  distinct := (List.nodup_cons.mp h.distinct).2
  capacity := h.capacity

theorem not_pending (h : Invariant groups (key :: queue) pending maxInFlight)
    (hkey : targetKey attempt = key) : pending.get? attempt = none := by
  cases hget : pending.get? attempt with
  | none => rfl
  | some plan =>
    obtain ⟨hgroup, hmem⟩ := h.held attempt plan hget
    have hplan : plan.group.key = key := (h.keyed _ hgroup _ hmem).symm.trans hkey
    have hvalue : plan ∈ pending.values :=
      List.mem_map.mpr ⟨_, (OrderedMap.mem_entries_iff _).mpr hget, rfl⟩
    have hnot := (List.nodup_cons.mp h.distinct).1
    exact absurd (List.mem_append_right _ (List.mem_map.mpr ⟨plan, hvalue, hplan⟩)) hnot

/-- Taking the next attempt of a queued group puts the group in flight. -/
theorem take (h : Invariant groups (key :: queue) pending maxInFlight)
    {group : DeploymentCredentialGroup} (hgroup : group ∈ groups) (hkey : group.key = key)
    (hmem : attempt ∈ group.attempts) (hroom : pending.entries.length < maxInFlight) :
    Invariant groups queue (pending.set attempt ⟨attempt, group, false⟩) maxInFlight := by
  have hnew : pending.get? attempt = none :=
    h.not_pending ((h.keyed group hgroup attempt hmem).trans hkey)
  have hentries := OrderedMap.entries_set_of_none (⟨attempt, group, false⟩ : AttemptPlan) hnew
  refine ⟨h.groupKeys, h.keyed, fun k hk => h.queued k (List.mem_cons_of_mem _ hk),
    fun a plan hget => ?_, ?_, ?_⟩
  · rw [OrderedMap.get?_set] at hget
    split_ifs at hget with heq
    · cases hget
      exact ⟨hgroup, heq ▸ hmem⟩
    · exact h.held a plan hget
  · -- the key moves from the head of the queue to the end of the attempts in flight
    have hperm : (queue ++ (pending.set attempt ⟨attempt, group, false⟩).values.map
        (·.group.key)).Perm (key :: queue ++ pending.values.map (·.group.key)) := by
      simp only [OrderedMap.values, hentries, List.map_append, List.map_cons, hkey,
        ← List.append_assoc]
      exact List.perm_append_comm
    exact hperm.nodup_iff.mpr h.distinct
  · rw [hentries, List.length_append]
    exact hroom

variable (h : Invariant groups queue pending maxInFlight)

include h

variable (hget : pending.get? attempt = some plan)

include hget

theorem start :
    Invariant groups queue (pending.set attempt { plan with started := true }) maxInFlight := by
  refine ⟨h.groupKeys, h.keyed, h.queued, fun a plan' hget' => ?_, ?_, ?_⟩
  · rw [OrderedMap.get?_set] at hget'
    split_ifs at hget' with heq
    · cases hget'
      exact heq ▸ h.held attempt plan hget
    · exact h.held a plan' hget'
  · have hkeys : (pending.set attempt { plan with started := true }).values.map (·.group.key)
        = pending.values.map (·.group.key) := OrderedMap.map_values_set _ hget rfl
    rw [hkeys]
    exact h.distinct
  · have hlength : (pending.set attempt { plan with started := true }).values.map (fun _ => ())
        = pending.values.map (fun _ => ()) := OrderedMap.map_values_set _ hget rfl
    have hsame := congrArg List.length hlength
    simp only [List.length_map, OrderedMap.length_values] at hsame
    rw [hsame]
    exact h.capacity

theorem distinct_settle :
    (plan.group.key :: (queue ++ (pending.delete attempt).values.map (·.group.key))).Nodup := by
  have hperm := (OrderedMap.values_perm_delete hget).map (·.group.key)
  have hall := (hperm.append_left queue).nodup_iff.mp h.distinct
  exact (List.perm_middle.nodup_iff).mp hall

theorem settle :
    Invariant groups queue (pending.delete attempt) maxInFlight where
  groupKeys := h.groupKeys
  keyed := h.keyed
  queued := h.queued
  held := fun a plan' hget' => by
    rw [OrderedMap.get?_delete] at hget'
    split_ifs at hget'
    exact h.held a plan' hget'
  distinct := (List.nodup_cons.mp (h.distinct_settle hget)).2
  capacity := (List.length_filter_le _ _).trans h.capacity

theorem requeue :
    Invariant groups (queue ++ [plan.group.key]) (pending.delete attempt) maxInFlight where
  groupKeys := h.groupKeys
  keyed := h.keyed
  queued := fun k hk => by
    rcases List.mem_append.mp hk with hold | hnew
    · exact h.queued k hold
    · exact ⟨plan.group, (h.held attempt plan hget).1, (List.mem_singleton.mp hnew).symm⟩
  held := (h.settle hget).held
  distinct := by
    rw [List.append_assoc]
    exact List.perm_middle.nodup_iff.mpr (h.distinct_settle hget)
  capacity := (h.settle hget).capacity

end Invariant

/-! ## What the cursors have passed -/

/-- The attempts the cursors have passed. -/
def takenBy (groups : List DeploymentCredentialGroup) (cursor : OrderedMap String Nat) :
    List ResolvedAttempt :=
  groups.flatMap fun group => group.attempts.take ((cursor.get? group.key).getD 0)

/-- The attempts of a walk offered or skipped so far. -/
abbrev taken (walk : CredentialWalk) : List ResolvedAttempt :=
  takenBy walk.groups walk.cursor

theorem takenBy_subperm (groups : List DeploymentCredentialGroup) (cursor : OrderedMap String Nat) :
    (takenBy groups cursor).Subperm (groups.flatMap (·.attempts)) := by
  induction groups with
  | nil => exact List.Subperm.refl _
  | cons group rest ih =>
    exact ((List.take_sublist _ _).subperm).append ih

variable {groups : List DeploymentCredentialGroup}

theorem cursor_set_of_notMem {key : String} (h : key ∉ groups.map (·.key))
    (cursor : OrderedMap String Nat) (index : Nat) :
    takenBy groups (cursor.set key index) = takenBy groups cursor ∧
      unreadBy groups (cursor.set key index) = unreadBy groups cursor := by
  induction groups with
  | nil => exact ⟨rfl, rfl⟩
  | cons group rest ih =>
    simp only [List.map_cons, List.mem_cons, not_or] at h
    obtain ⟨htaken, hunread⟩ := ih h.2
    simp only [takenBy, unreadBy] at htaken hunread
    simp only [takenBy, unreadBy, List.flatMap_cons, List.map_cons, List.sum_cons,
      OrderedMap.get?_set_of_ne _ _ h.1, htaken, hunread, and_self]

/-- **Advancing a cursor** passes exactly the attempt it stood before. -/
theorem cursor_advance (hkeys : (groups.map (·.key)).Nodup) {group : DeploymentCredentialGroup}
    (hgroup : group ∈ groups) {cursor : OrderedMap String Nat} {attempt : ResolvedAttempt}
    (hattempt : group.attempts[(cursor.get? group.key).getD 0]? = some attempt) :
    (takenBy groups (cursor.set group.key ((cursor.get? group.key).getD 0 + 1))).Perm
        (attempt :: takenBy groups cursor) ∧
      unreadBy groups (cursor.set group.key ((cursor.get? group.key).getD 0 + 1)) + 1
        = unreadBy groups cursor := by
  induction groups with
  | nil => cases hgroup
  | cons first rest ih =>
    simp only [List.map_cons, List.nodup_cons] at hkeys
    rcases List.mem_cons.mp hgroup with rfl | hrest
    · obtain ⟨htaken, hunread⟩ := cursor_set_of_notMem hkeys.1 cursor
        ((cursor.get? group.key).getD 0 + 1)
      have hlt := (List.getElem?_eq_some_iff.mp hattempt).1
      simp only [takenBy, unreadBy] at htaken hunread ⊢
      simp only [List.flatMap_cons, List.map_cons, List.sum_cons, OrderedMap.get?_set_self,
        Option.getD_some, htaken]
      constructor
      · rw [List.take_add_one, hattempt, List.append_assoc]
        exact List.perm_middle
      · omega
    · have hne : group.key ≠ first.key :=
        fun heq => hkeys.1 (heq ▸ List.mem_map_of_mem (f := (·.key)) hrest)
      obtain ⟨htaken, hunread⟩ := ih hkeys.2 hrest
      simp only [takenBy, unreadBy] at htaken hunread ⊢
      simp only [List.flatMap_cons, List.map_cons, List.sum_cons, OrderedMap.get?_set_of_ne _ _ hne]
      constructor
      · exact (htaken.append_left _).trans List.perm_middle
      · omega

end CredentialWalk

end LlmRelay
