import LlmRelay.Breaker.State
import LlmRelay.Candidates.CredentialSelect

/-!
# Usability ordering

The one-way ordering of candidates by what the breaker, the learned facts and
the demotion terms say of them, and the sticky move to the front
(`candidate-runner.ts`). Classifying a candidate may record a quota cooldown, so
the breaker's cells are threaded through the loops.

## Main definitions

* `UsabilityTerms`: the demotion terms, as functions of the breaker's cells;
* `targetUsability`: the band of a candidate, and the cells it leaves;
* `Bands`, `bandLoop`: the six bands and the loop that fills them;
* `orderByUsabilityTracked`, `orderDeploymentGroupsByUsability`,
  `applyStickyOrdering`: the orderings.

## Main results

* `bandLoop_perm`, `bandLoop_band`: the loop loses nothing and keeps the
  input order in each band;
* `pairwise_sortByLift`: the cooling band is sorted by lift time;
* `usability_orderings_lose_nothing`: the three orderings.
-/

namespace LlmRelay

open Ecma

/-! ## Classification -/

/-- The band of a candidate. -/
inductive TargetUsability where
  | live
  | slow
  | paced
  | credentialFault
  | cooling
  | probation
  deriving DecidableEq, Repr

/-- A spent allowance: when it resets, and the label it is announced with. -/
structure QuotaDemotion where
  resetsAt : Number
  label : String

/-- The terms of the ordering. Each may read the breaker's cells; a verdict
carries the label it is announced with. An absent term has no verdicts. The
fact store answers until when it cools a candidate. -/
structure UsabilityTerms where
  quotaDemotion : CircuitStates → ResolvedAttempt → Number → Option QuotaDemotion
  costClassOf : ResolvedAttempt → Option CredentialCost
  cooldownUntil : ResolvedAttempt → Number → Option CredentialCost → Option Number
  latencyDemotion : CircuitStates → ResolvedAttempt → Number → Option String
  probation : CircuitStates → ResolvedAttempt → Number → Option String
  pacing : CircuitStates → ResolvedAttempt → Number → Option String

/-- The breaker identity of an attempt. -/
def targetIdentity (attempt : ResolvedAttempt) : ProviderTargetIdentity where
  provider := attempt.target.provider
  model := attempt.target.model
  kind := attempt.target.kind
  credentialId := attempt.credentialId
  base := some attempt.target.base

/-- Does a learned fact cool the attempt now? -/
def cooledByAllowance (terms : UsabilityTerms) (attempt : ResolvedAttempt) (now : Number) : Bool :=
  (terms.cooldownUntil attempt now (terms.costClassOf attempt)).any now.lt

/-- Is the attempt's allowance spent? The cooldown is recorded in its cell. -/
def cooledByQuota (terms : UsabilityTerms) (states : CircuitStates) (attempt : ResolvedAttempt)
    (now : Number) : Bool × CircuitStates :=
  match terms.quotaDemotion states attempt now with
  | none => (false, states)
  | some spent =>
    (true, recordQuotaCooldown states (targetIdentity attempt) spent.resetsAt now)

/-- The band of an attempt, and the cells the classification leaves. -/
def targetUsability (terms : UsabilityTerms) (states : CircuitStates) (attempt : ResolvedAttempt)
    (now : Number) : TargetUsability × CircuitStates :=
  let identity := targetIdentity attempt
  if !isHealthy states identity now then (.cooling, states)
  else if cooledByAllowance terms attempt now then (.cooling, states)
  else
    match cooledByQuota terms states attempt now with
    | (true, states) => (.cooling, states)
    | (false, states) =>
      if hasCredentialFault states identity now then (.credentialFault, states)
      else if (terms.pacing states attempt now).isSome then (.paced, states)
      else if (terms.latencyDemotion states attempt now).isSome then (.slow, states)
      else if (terms.probation states attempt now).isSome then (.probation, states)
      else (.live, states)

/-- When a cooling attempt lifts; `none` where nothing cools it any more. -/
def coolingLiftTime (terms : UsabilityTerms) (states : CircuitStates) (attempt : ResolvedAttempt)
    (now : Number) : Option Number :=
  match (states.get? (getKey (targetIdentity attempt))).filter
      fun state => now.lt state.cooldownUntil with
  | some state => some state.cooldownUntil
  | none =>
    (terms.cooldownUntil attempt now (terms.costClassOf attempt)).filter now.lt

/-! ## Bands -/

section Bands

variable {β : Type*}

/-- The six bands of the loop. -/
structure Bands (β : Type*) where
  probation : List β
  live : List β
  slow : List β
  paced : List β
  faulted : List β
  cooling : List β

/-- No candidates yet. -/
def Bands.empty : Bands β := ⟨[], [], [], [], [], []⟩

/-- One band. -/
def Bands.band (bands : Bands β) : TargetUsability → List β
  | .probation => bands.probation
  | .live => bands.live
  | .slow => bands.slow
  | .paced => bands.paced
  | .credentialFault => bands.faulted
  | .cooling => bands.cooling

/-- Appends a candidate to a band. -/
def Bands.push (bands : Bands β) (candidate : β) : TargetUsability → Bands β
  | .probation => { bands with probation := bands.probation ++ [candidate] }
  | .live => { bands with live := bands.live ++ [candidate] }
  | .slow => { bands with slow := bands.slow ++ [candidate] }
  | .paced => { bands with paced := bands.paced ++ [candidate] }
  | .credentialFault => { bands with faulted := bands.faulted ++ [candidate] }
  | .cooling => { bands with cooling := bands.cooling ++ [candidate] }

/-- The candidates above the cooling band, in band order. -/
def Bands.warm (bands : Bands β) : List β :=
  bands.probation ++ bands.live ++ bands.slow ++ bands.paced ++ bands.faulted

theorem Bands.band_push (bands : Bands β) (candidate : β) (usability u : TargetUsability) :
    (bands.push candidate usability).band u
      = bands.band u ++ (if usability = u then [candidate] else []) := by
  cases usability <;> cases u <;> simp [Bands.push, Bands.band]

theorem Bands.push_perm (bands : Bands β) (candidate : β) (usability : TargetUsability) :
    ((bands.push candidate usability).warm ++ (bands.push candidate usability).cooling).Perm
      (candidate :: (bands.warm ++ bands.cooling)) := by
  obtain ⟨probation, live, slow, paced, faulted, cooling⟩ := bands
  -- the candidate stands between the bands up to its own and the later ones
  have hmiddle : ∀ front back : List β,
      (front ++ candidate :: back).Perm (candidate :: (front ++ back)) :=
    fun _ _ => List.perm_middle
  cases usability with
  | probation =>
    simpa only [Bands.push, Bands.warm, List.append_assoc, List.cons_append,
      List.nil_append] using hmiddle probation (live ++ slow ++ paced ++ faulted ++ cooling)
  | live =>
    simpa [Bands.push, Bands.warm] using
      hmiddle (probation ++ live) (slow ++ paced ++ faulted ++ cooling)
  | slow =>
    simpa [Bands.push, Bands.warm] using
      hmiddle (probation ++ live ++ slow) (paced ++ faulted ++ cooling)
  | paced =>
    simpa [Bands.push, Bands.warm] using
      hmiddle (probation ++ live ++ slow ++ paced) (faulted ++ cooling)
  | credentialFault =>
    simpa [Bands.push, Bands.warm] using
      hmiddle (probation ++ live ++ slow ++ paced ++ faulted) cooling
  | cooling =>
    simpa only [Bands.push, Bands.warm, List.append_assoc, List.append_nil] using
      hmiddle (probation ++ live ++ slow ++ paced ++ faulted ++ cooling) []

/-! ## The loop -/

variable (terms : UsabilityTerms) (now : Number) (rep : β → ResolvedAttempt)

/-- Classifies the candidates in order by their representative attempts,
threading the breaker's cells. -/
def bandLoop : List β → Bands β → CircuitStates → Bands β × CircuitStates
  | [], bands, states => (bands, states)
  | candidate :: rest, bands, states =>
    let (usability, states) := targetUsability terms states (rep candidate) now
    bandLoop rest (bands.push candidate usability) states

/-- The verdicts of the loop: every candidate with the band it was put in. -/
def verdicts : List β → CircuitStates → List (β × TargetUsability)
  | [], _ => []
  | candidate :: rest, states =>
    let (usability, states) := targetUsability terms states (rep candidate) now
    (candidate, usability) :: verdicts rest states

/-- The candidates a list of verdicts puts in a band, in input order. -/
def inBand (u : TargetUsability) (judged : List (β × TargetUsability)) : List β :=
  (judged.filter fun verdict => verdict.2 = u).map Prod.fst

/-- **Each band** is filled with its candidates, in input order. -/
theorem bandLoop_band (candidates : List β) (bands : Bands β) (states : CircuitStates)
    (u : TargetUsability) :
    (bandLoop terms now rep candidates bands states).1.band u
      = bands.band u ++ inBand u (verdicts terms now rep candidates states) := by
  induction candidates generalizing bands states with
  | nil => simp [bandLoop, verdicts, inBand]
  | cons candidate rest ih =>
    simp only [bandLoop, verdicts, ih, Bands.band_push, inBand]
    by_cases hu : (targetUsability terms states (rep candidate) now).1 = u
    · simp [hu]
    · simp [hu]

/-- **The loop loses nothing.** -/
theorem bandLoop_perm (candidates : List β) (bands : Bands β) (states : CircuitStates) :
    ((bandLoop terms now rep candidates bands states).1.warm
        ++ (bandLoop terms now rep candidates bands states).1.cooling).Perm
      (bands.warm ++ bands.cooling ++ candidates) := by
  induction candidates generalizing bands states with
  | nil => simp [bandLoop]
  | cons candidate rest ih =>
    refine (ih _ _).trans (((bands.push_perm candidate _).append_right rest).trans ?_)
    exact List.perm_middle.symm

/-! ## The cooling band -/

/-- The comparator of the cooling band: not after. A comparator that answers
`nan` reports a tie. -/
def liftLe : Option Number → Option Number → Bool
  | none, none => true
  | none, some _ => false
  | some _, none => true
  | some a, some b => a.sub b = .nan || (a.sub b).le 0

/-- Sorts the cooling band by lift time. -/
def sortByLift (states : CircuitStates) (cooling : List β) : List β :=
  cooling.insertionSort fun a b =>
    liftLe (coolingLiftTime terms states (rep a) now)
      (coolingLiftTime terms states (rep b) now) = true

/-- Lift times from the earliest on; what no longer cools comes last. -/
def LiftsNoLater : Option Number → Option Number → Prop
  | _, none => True
  | none, some _ => False
  | some a, some b => a.le b = true

theorem coolingLiftTime_ne_nan {terms : UsabilityTerms} {states : CircuitStates}
    {attempt : ResolvedAttempt} {now lift : Number}
    (h : coolingLiftTime terms states attempt now = some lift) : lift ≠ .nan := by
  have hlater : now.lt lift = true := by
    unfold coolingLiftTime at h
    split at h
    · rename_i state hstate
      cases h
      exact (Option.filter_eq_some_iff.mp hstate).2
    · exact (Option.filter_eq_some_iff.mp h).2
  rintro rfl
  simp at hlater

theorem liftLe_iff {states : CircuitStates} (a b : ResolvedAttempt) :
    liftLe (coolingLiftTime terms states a now) (coolingLiftTime terms states b now) = true
      ↔ LiftsNoLater (coolingLiftTime terms states a now) (coolingLiftTime terms states b now) := by
  cases ha : coolingLiftTime terms states a now with
  | none =>
    cases hb : coolingLiftTime terms states b now with
    | none => simp [liftLe, LiftsNoLater]
    | some liftB => simp [liftLe, LiftsNoLater]
  | some liftA =>
    cases hb : coolingLiftTime terms states b now with
    | none => simp [liftLe, LiftsNoLater]
    | some liftB =>
      have hsub := Number.sub_le_zero_or_nan (coolingLiftTime_ne_nan ha) (coolingLiftTime_ne_nan hb)
      simpa [liftLe, LiftsNoLater] using hsub

variable (states : CircuitStates)

theorem sortByLift_perm (cooling : List β) :
    (sortByLift terms now rep states cooling).Perm cooling :=
  List.perm_insertionSort _ _

theorem liftLe_total (a b : ResolvedAttempt) :
    liftLe (coolingLiftTime terms states a now) (coolingLiftTime terms states b now) = true ∨
      liftLe (coolingLiftTime terms states b now) (coolingLiftTime terms states a now) = true := by
  rw [liftLe_iff, liftLe_iff]
  cases ha : coolingLiftTime terms states a now with
  | none => exact .inr (by cases coolingLiftTime terms states b now <;> trivial)
  | some liftA =>
    cases hb : coolingLiftTime terms states b now with
    | none => exact .inl trivial
    | some liftB =>
      exact Number.le_total (coolingLiftTime_ne_nan ha) (coolingLiftTime_ne_nan hb)

theorem liftLe_trans {a b c : ResolvedAttempt}
    (hab : liftLe (coolingLiftTime terms states a now) (coolingLiftTime terms states b now) = true)
    (hbc : liftLe (coolingLiftTime terms states b now) (coolingLiftTime terms states c now) = true) :
    liftLe (coolingLiftTime terms states a now) (coolingLiftTime terms states c now) = true := by
  rw [liftLe_iff] at hab hbc ⊢
  cases hc : coolingLiftTime terms states c now with
  | none => cases coolingLiftTime terms states a now <;> trivial
  | some liftC =>
    cases hb : coolingLiftTime terms states b now with
    | none => simp [hb, hc, LiftsNoLater] at hbc
    | some liftB =>
      cases ha : coolingLiftTime terms states a now with
      | none => simp [ha, hb, LiftsNoLater] at hab
      | some liftA =>
        simp only [ha, hb, hc] at hab hbc ⊢
        exact Number.le_trans hab hbc

/-- What the cooling band is sorted by. -/
def LiftsBefore (states : CircuitStates) (a b : β) : Prop :=
  liftLe (coolingLiftTime terms states (rep a) now)
    (coolingLiftTime terms states (rep b) now) = true

instance (states : CircuitStates) : DecidableRel (LiftsBefore terms now rep states) :=
  fun _ _ => instDecidableEqBool _ _

instance (states : CircuitStates) : Std.Total (LiftsBefore terms now rep states) :=
  ⟨fun a b => liftLe_total terms now states (rep a) (rep b)⟩

instance (states : CircuitStates) : IsTrans β (LiftsBefore terms now rep states) :=
  ⟨fun _ _ _ hab hbc => liftLe_trans terms now states hab hbc⟩

/-- **The cooling band is sorted** by lift time. -/
theorem pairwise_sortByLift (cooling : List β) :
    (sortByLift terms now rep states cooling).Pairwise fun a b =>
      LiftsNoLater (coolingLiftTime terms states (rep a) now)
        (coolingLiftTime terms states (rep b) now) := by
  have hsorted := List.pairwise_insertionSort (LiftsBefore terms now rep states) cooling
  exact hsorted.imp fun h => (liftLe_iff terms now _ _).mp h

end Bands

/-! ## The orderings -/

/-- An ordering, with the labels of what was demoted from the first place. -/
structure TrackedOrder where
  ordered : List ResolvedAttempt
  quotaDemotedFirst : Option String
  latencyDemotedFirst : Option String
  pacedFirst : Option String

/-- Orders attempts by their own usability. -/
def orderByUsabilityTracked (terms : UsabilityTerms) (attempts : List ResolvedAttempt)
    (states : CircuitStates) (now : Number) : TrackedOrder × CircuitStates :=
  let (bands, states) := bandLoop terms now id attempts .empty states
  ({ ordered := bands.warm ++ sortByLift terms now id states bands.cooling
     quotaDemotedFirst := none
     latencyDemotedFirst := none
     pacedFirst := none }, states)

/-- Orders whole deployments by the usability of their first attempt. -/
def orderDeploymentGroupsByUsability (terms : UsabilityTerms) (attempts : List ResolvedAttempt)
    (states : CircuitStates) (now : Number) : TrackedOrder × CircuitStates :=
  let groups := groupCredentialAttempts attempts
  let (bands, states) :=
    bandLoop terms now DeploymentCredentialGroup.first groups .empty states
  let cooling :=
    sortByLift terms now DeploymentCredentialGroup.first states bands.cooling
  let ordered := (bands.warm ++ cooling).flatMap (·.attempts)
  let demoted := (groups.head?.map (·.first)).filter fun preferred =>
    ordered.head?.any (· ≠ preferred)
  ({ ordered
     quotaDemotedFirst := demoted.bind fun preferred =>
       (terms.quotaDemotion states preferred now).map (·.label)
     latencyDemotedFirst := demoted.bind fun preferred =>
       terms.latencyDemotion states preferred now
     pacedFirst := demoted.bind fun preferred => terms.pacing states preferred now }, states)

/-- The spec a target is pinned by. -/
def specOfTarget (target : ResolvedTarget) : String :=
  match target.model with
  | none => target.provider
  | some model => if model = "" then target.provider else target.provider ++ "/" ++ model

/-- Is some deployment live and not degraded? The scan stops at the first. -/
def hasLiveInBand (terms : UsabilityTerms) (degraded : List String) (now : Number) :
    List DeploymentCredentialGroup → CircuitStates → Bool × CircuitStates
  | [], states => (false, states)
  | group :: rest, states =>
    if degraded.contains (specOfTarget group.first.target) then
      hasLiveInBand terms degraded now rest states
    else
      match targetUsability terms states group.first now with
      | (.live, states) => (true, states)
      | (_, states) => hasLiveInBand terms degraded now rest states

/-- What a band is called in a sticky status. -/
def TargetUsability.label : TargetUsability → String
  | .live => "live"
  | .slow => "slow"
  | .paced => "paced"
  | .credentialFault => "credential-fault"
  | .cooling => "cooling"
  | .probation => "probation"

/-- Moves the pinned deployment to the front, where it is live and no healthy
deployment is preferred to a degraded pin. -/
def applyStickyOrdering (terms : UsabilityTerms) (ordered : List ResolvedAttempt)
    (pinnedSpec : String) (states : CircuitStates) (degraded : List String) (now : Number) :
    (List ResolvedAttempt × String) × CircuitStates :=
  let groups := groupCredentialAttempts ordered
  match groups.findIdx? fun group => specOfTarget group.first.target = pinnedSpec with
  | none => ((ordered, "bypassed: not-in-pool"), states)
  | some pinnedIndex =>
    match groups[pinnedIndex]? with
    | none => ((ordered, "bypassed: not-in-pool"), states)
    | some pinnedGroup =>
      let (usability, states) := targetUsability terms states pinnedGroup.first now
      if usability ≠ .live then ((ordered, "bypassed: " ++ usability.label), states)
      else
        let (bypassed, states) :=
          if degraded.contains pinnedSpec then hasLiveInBand terms degraded now groups states
          else (false, states)
        if bypassed then ((ordered, "bypassed: degraded"), states)
        else if pinnedIndex = 0 then ((ordered, "pinned, natural"), states)
        else
          (((pinnedGroup :: groups.eraseIdx pinnedIndex).flatMap (·.attempts),
            "pinned, reordered"), states)

/-! ## Nothing is lost -/

/-- Candidates ordered by band: each band in input order, the cooling one by
lift time. -/
structure OrderedByBand {β : Type*} (judged : List (β × TargetUsability))
    (lift : β → Option Number) (ordered : List β) : Prop where
  banded : ∃ cooling : List β,
    ordered = inBand .probation judged ++ inBand .live judged ++ inBand .slow judged
      ++ inBand .paced judged ++ inBand .credentialFault judged ++ cooling ∧
    cooling.Perm (inBand .cooling judged) ∧
    cooling.Pairwise fun a b => LiftsNoLater (lift a) (lift b)

section Orderings

variable (terms : UsabilityTerms) (states : CircuitStates) (now : Number)

theorem bandLoop_ordered {β : Type*} (rep : β → ResolvedAttempt) (candidates : List β) :
    let outcome := bandLoop terms now rep candidates .empty states
    let ordered := outcome.1.warm ++ sortByLift terms now rep outcome.2 outcome.1.cooling
    ordered.Perm candidates ∧
      OrderedByBand (verdicts terms now rep candidates states)
        (fun c => coolingLiftTime terms outcome.2 (rep c) now) ordered := by
  intro outcome ordered
  have hband := bandLoop_band terms now rep candidates .empty states
  refine ⟨?_, ⟨_, ?_, ?_, pairwise_sortByLift terms now rep outcome.2 outcome.1.cooling⟩⟩
  · have hloop := bandLoop_perm terms now rep candidates .empty states
    exact ((sortByLift_perm terms now rep outcome.2 outcome.1.cooling).append_left _).trans
      (hloop.trans (by simp [Bands.warm, Bands.empty]))
  · have hprobation := hband .probation
    have hlive := hband .live
    have hslow := hband .slow
    have hpaced := hband .paced
    have hfault := hband .credentialFault
    simp only [Bands.band, Bands.empty, List.nil_append] at hprobation hlive hslow hpaced hfault
    rw [← hprobation, ← hlive, ← hslow, ← hpaced, ← hfault]
    rfl
  · have hcooling := hband .cooling
    simp only [Bands.band, Bands.empty, List.nil_append] at hcooling
    rw [← hcooling]
    exact sortByLift_perm terms now rep outcome.2 outcome.1.cooling

/-- **The sticky move** returns its input, or the pinned deployment followed by
the others in first-seen order. -/
theorem applyStickyOrdering_cases (ordered : List ResolvedAttempt) (pinnedSpec : String)
    (degraded : List String) :
    let targets := (applyStickyOrdering terms ordered pinnedSpec states degraded now).1.1
    targets = ordered ∨ ∃ i pinned, (groupCredentialAttempts ordered)[i]? = some pinned ∧
      specOfTarget pinned.first.target = pinnedSpec ∧
      (targetUsability terms states pinned.first now).1 = .live ∧
      targets = (pinned :: (groupCredentialAttempts ordered).eraseIdx i).flatMap (·.attempts) := by
  intro targets
  cases hfind : (groupCredentialAttempts ordered).findIdx?
      fun group => specOfTarget group.first.target = pinnedSpec with
  | none => exact .inl (by simp only [targets, applyStickyOrdering, hfind])
  | some i =>
    obtain ⟨hlt, hspec, -⟩ := List.findIdx?_eq_some_iff_getElem.mp hfind
    have hpinned := List.getElem?_eq_getElem hlt
    simp only [targets, applyStickyOrdering, hfind, hpinned]
    by_cases hlive :
        (targetUsability terms states (groupCredentialAttempts ordered)[i].first now).1 = .live
    · simp only [ne_eq]
      by_cases hdegraded : degraded.contains pinnedSpec = true
      · simp only [hdegraded]
        split_ifs
        · exact .inl rfl
        · exact .inl rfl
        · exact .inr ⟨i, _, hpinned, by simpa using hspec, hlive, rfl⟩
      · simp only [hdegraded, Bool.false_eq_true, if_false]
        split_ifs
        · exact .inl rfl
        · exact .inr ⟨i, _, hpinned, by simpa using hspec, hlive, rfl⟩
    · simp only [hlive, ne_eq, not_false_eq_true, if_true]
      exact .inl trivial

theorem applyStickyOrdering_perm (ordered : List ResolvedAttempt) (pinnedSpec : String)
    (degraded : List String) :
    (applyStickyOrdering terms ordered pinnedSpec states degraded now).1.1.Perm ordered := by
  rcases applyStickyOrdering_cases terms states now ordered pinnedSpec degraded with
    hsame | ⟨i, pinned, hpinned, -, -, hmoved⟩
  · rw [hsame]
  · rw [hmoved]
    obtain ⟨hlt, hget⟩ := List.getElem?_eq_some_iff.mp hpinned
    have hgroups : (pinned :: (groupCredentialAttempts ordered).eraseIdx i).Perm
        (groupCredentialAttempts ordered) := by
      rw [← hget]
      exact List.getElem_cons_eraseIdx_perm hlt
    exact (hgroups.flatMap_right _).trans (groupCredentialAttempts_spec ordered).2.2

end Orderings

/-- **The usability orderings lose nothing.** Whatever the terms say and record
while they classify: ordering attempts returns them all, band by band, each in
input order and the cooling band by lift time; ordering deployments does so for
whole deployments, judged by their first attempt; and the sticky move returns
its input, or the live pinned deployment followed by the others. -/
theorem usability_orderings_lose_nothing (terms : UsabilityTerms) (attempts : List ResolvedAttempt)
    (states : CircuitStates) (now : Number) (pinnedSpec : String) (degraded : List String) :
    (let outcome := orderByUsabilityTracked terms attempts states now;
      outcome.1.ordered.Perm attempts ∧
        OrderedByBand (verdicts terms now id attempts states)
          (fun a => coolingLiftTime terms outcome.2 a now) outcome.1.ordered) ∧
    (let outcome := orderDeploymentGroupsByUsability terms attempts states now;
      outcome.1.ordered.Perm attempts ∧
        ∃ groups, outcome.1.ordered = groups.flatMap (·.attempts) ∧
          groups.Perm (groupCredentialAttempts attempts) ∧
          OrderedByBand (verdicts terms now (·.first) (groupCredentialAttempts attempts) states)
            (fun group => coolingLiftTime terms outcome.2 group.first now) groups) ∧
    (let targets := (applyStickyOrdering terms attempts pinnedSpec states degraded now).1.1;
      targets.Perm attempts ∧
        (targets = attempts ∨ ∃ i pinned, (groupCredentialAttempts attempts)[i]? = some pinned ∧
          specOfTarget pinned.first.target = pinnedSpec ∧
          (targetUsability terms states pinned.first now).1 = .live ∧
          targets
            = (pinned :: (groupCredentialAttempts attempts).eraseIdx i).flatMap (·.attempts))) := by
  refine ⟨?_, ?_, ?_⟩
  · exact bandLoop_ordered terms states now id attempts
  · obtain ⟨hperm, hbands⟩ := bandLoop_ordered terms states now DeploymentCredentialGroup.first
      (groupCredentialAttempts attempts)
    exact ⟨(hperm.flatMap_right _).trans (groupCredentialAttempts_spec attempts).2.2,
      _, rfl, hperm, hbands⟩
  · exact ⟨applyStickyOrdering_perm terms states now attempts pinnedSpec degraded,
      applyStickyOrdering_cases terms states now attempts pinnedSpec degraded⟩

/-- Terms without a verdict, but for one candidate on probation. -/
def probationTerms (candidate : Option ResolvedAttempt) : UsabilityTerms where
  quotaDemotion := fun _ _ _ => none
  costClassOf := fun _ => none
  cooldownUntil := fun _ _ _ => none
  latencyDemotion := fun _ _ _ => none
  probation := fun _ attempt _ => if some attempt = candidate then some "probation" else none
  pacing := fun _ _ _ => none

/-- Attempts of one deployment are kept together and a sticky pin goes first, so
neither ordering is by band attempt for attempt. -/
theorem orderings_not_banded_by_attempt :
    (¬ ∀ terms attempts states now,
      let outcome := orderDeploymentGroupsByUsability terms attempts states now
      OrderedByBand (verdicts terms now id attempts states)
        (fun a => coolingLiftTime terms outcome.2 a now) outcome.1.ordered) ∧
    ¬ ∀ terms attempts states now pinnedSpec degraded,
      let outcome := applyStickyOrdering terms attempts pinnedSpec states degraded now
      OrderedByBand (verdicts terms now id attempts states)
        (fun a => coolingLiftTime terms outcome.2 a now) outcome.1.1 := by
  let a : ResolvedAttempt :=
    { ref := 1
      target := { provider := "p", base := "b", kind := .openai, model := some "m" }
      credentialId := "p#one"
      credentialState := .notDeclared
      slot := { enabled := true, models := none, configIndex := 0 } }
  let b : ResolvedAttempt := { a with ref := 2, target := { a.target with model := some "n" } }
  let a' : ResolvedAttempt := { a with ref := 3, credentialId := "p#two" }
  constructor
  · intro h
    obtain ⟨cooling, hordered, hcooling, -⟩ := (h (probationTerms none) [a, b, a'] .empty 0).banded
    have hnone : cooling = [] := List.perm_nil.mp hcooling
    subst hnone
    exact absurd hordered (by decide +kernel)
  · intro h
    obtain ⟨cooling, hordered, hcooling, -⟩ :=
      (h (probationTerms (some a)) [a, b] .empty 0 "p/n" []).banded
    have hnone : cooling = [] := List.perm_nil.mp hcooling
    subst hnone
    exact absurd hordered (by decide +kernel)

end LlmRelay
