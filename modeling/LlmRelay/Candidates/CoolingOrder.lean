import LlmRelay.Candidates.Usability
import LlmRelay.Ecma.Sorting
import LlmRelay.Facts.Store

/-!
# The order of the cooling band

A candidate may be cooled by its breaker cell and by learned facts at once. The ordering sorts
the cooling band by one instant for each candidate, the end of the breaker's cooldown where that
is active (`candidate-runner.ts`), and a fact that cools it longer is not looked at.

## Main definitions

* `Facts.cooldownUntil`: until when the facts cool a target (`target-facts.ts`);
* `UsabilityTerms.withFacts`: the terms of an ordering that reads a fact store;
* `coolingEnds`, `LiftsAt`: the ends of what cools a candidate, and when the last has lifted;
* `Overtakes`: a candidate whose breaker frees it early and whose facts hold it late.

## Main results

* `cooling_band_by_availability_iff`: the band is in order of true availability exactly where no
  candidate overtakes another.
-/

namespace LlmRelay

open Ecma

/-! ## The facts that cool -/

namespace Facts

/-- The later of an end and the ends so far. -/
def laterEnd : Option Number → Number → Number
  | none, until_ => until_
  | some latest, until_ => latest.max until_

/-- Until when the facts cool a target: the latest end among the cooling ones. -/
def cooldownUntil (facts : List StoredFact) (provider : Text) (credentialId model : Option Text)
    (now : Number) (costClass : Option CostClass) : Option Number :=
  (factsFor facts provider credentialId model now costClass).foldl
    (fun latest fact => if COOLING fact.kind then some (laterEnd latest fact.until_) else latest)
    none

/-- The ends of the facts that cool a target. -/
def coolingFactEnds (facts : List StoredFact) (provider : Text) (credentialId model : Option Text)
    (now : Number) (costClass : Option CostClass) : List Number :=
  ((factsFor facts provider credentialId model now costClass).filter fun fact =>
    COOLING fact.kind).map ReportedFact.until_

end Facts

/-- The latest of some instants. -/
def LiftsAt (ends : List Number) (t : Number) : Prop :=
  t ∈ ends ∧ ∀ e ∈ ends, e.le t = true

theorem LiftsAt.append {front back : List Number} {s t : Number} (hs : LiftsAt front s)
    (ht : LiftsAt back t) : LiftsAt (front ++ back) (if s.le t then t else s) := by
  by_cases hle : s.le t = true
  · rw [if_pos hle]
    refine ⟨List.mem_append_right _ ht.1, fun e he => ?_⟩
    rcases List.mem_append.mp he with he | he
    · exact Number.le_trans (hs.2 e he) hle
    · exact ht.2 e he
  · rw [if_neg hle]
    refine ⟨List.mem_append_left _ hs.1, fun e he => ?_⟩
    have hst : t.le s = true := by
      have hsn : s ≠ .nan := by
        rintro rfl
        exact absurd (hs.2 _ hs.1) (by decide)
      have htn : t ≠ .nan := by
        rintro rfl
        exact absurd (ht.2 _ ht.1) (by decide)
      exact (Number.le_total hsn htn).resolve_left hle
    rcases List.mem_append.mp he with he | he
    · exact hs.2 e he
    · exact Number.le_trans (ht.2 e he) hst

/-- There is one latest instant. -/
theorem LiftsAt.le {ends : List Number} {s t : Number} (hs : LiftsAt ends s)
    (ht : LiftsAt ends t) : s.le t = true :=
  ht.2 s hs.1

namespace Facts

theorem not_nan_of_mem_factsFor {facts : List StoredFact} {provider : Text}
    {credentialId model : Option Text} {now : Number} {costClass : Option CostClass}
    {fact : ReportedFact} (h : fact ∈ factsFor facts provider credentialId model now costClass) :
    now.lt fact.until_ = true := by
  obtain ⟨stored, hstored, rfl⟩ := List.mem_map.mp (List.mem_mergeSort.mp h)
  rw [List.mem_filter, Bool.and_eq_true, Bool.and_eq_true] at hstored
  exact hstored.2.1.1

/-- **The cooldown of the facts** is the latest end among them. -/
theorem cooldownUntil_spec (facts : List StoredFact) (provider : Text)
    (credentialId model : Option Text) (now : Number) (costClass : Option CostClass) :
    match cooldownUntil facts provider credentialId model now costClass with
    | none => coolingFactEnds facts provider credentialId model now costClass = []
    | some t => LiftsAt (coolingFactEnds facts provider credentialId model now costClass) t := by
  unfold cooldownUntil coolingFactEnds
  have hnan : ∀ fact ∈ factsFor facts provider credentialId model now costClass,
      fact.until_ ≠ .nan := by
    intro fact hfact hnan
    have hlt := not_nan_of_mem_factsFor hfact
    rw [hnan, Number.lt_nan] at hlt
    cases hlt
  generalize factsFor facts provider credentialId model now costClass = hits at hnan ⊢
  induction hits using List.reverseRecOn with
  | nil => rfl
  | append_singleton hits fact ih =>
    have ih := ih fun hit hhit => hnan hit (List.mem_append_left _ hhit)
    have hfact := hnan fact (List.mem_append_right _ List.mem_cons_self)
    rw [List.foldl_append, List.filter_append, List.map_append]
    simp only [List.foldl_cons, List.filter_cons, List.filter_nil]
    split_ifs with hcooling
    · have hself : LiftsAt [fact.until_] fact.until_ := by
        refine ⟨List.mem_cons_self, fun e he => ?_⟩
        rw [List.mem_singleton.mp he]
        exact (Number.le_total hfact hfact).elim id id
      split at ih
      · rename_i hnone
        rw [hnone, ih]
        exact hself
      · rename_i t hsome
        rw [hsome]
        have ht : t ≠ .nan := by
          rintro rfl
          exact absurd (ih.2 _ ih.1) (by decide)
        have hmax : laterEnd (some t) fact.until_
            = if t.le fact.until_ then fact.until_ else t := by
          rw [laterEnd, Number.max, if_neg (by rintro (h | h) <;> contradiction)]
        rw [hmax]
        exact ih.append hself
    · rw [List.map_nil, List.append_nil]
      exact ih

end Facts

/-! ## What cools a candidate -/

/-- The cost class under which the facts know a cost. -/
def CredentialCost.costClass : CredentialCost → Facts.CostClass
  | .free => .free
  | .paid => .paid
  | .unknown => .unknown

/-- The terms of an ordering that reads its cooldowns from the fact store. -/
def UsabilityTerms.withFacts (terms : UsabilityTerms) (facts : List Facts.StoredFact) :
    UsabilityTerms :=
  { terms with
    cooldownUntil := fun attempt now cost =>
      Facts.cooldownUntil facts (text attempt.target.provider) (some (text attempt.credentialId))
        (attempt.target.model.map text) now (cost.map CredentialCost.costClass) }

section Ends

variable (terms : UsabilityTerms) (facts : List Facts.StoredFact) (states : CircuitStates)
  (now : Number) (attempt : ResolvedAttempt)

/-- The end of the attempt's breaker cooldown, where it is active. -/
def breakerEnd : Option Number :=
  ((states.get? (getKey (targetIdentity attempt))).filter fun state =>
    now.lt state.cooldownUntil).map CircuitState.cooldownUntil

/-- The ends of the facts that cool the attempt. -/
def factEnds : List Number :=
  Facts.coolingFactEnds facts (text attempt.target.provider) (some (text attempt.credentialId))
    (attempt.target.model.map text) now ((terms.costClassOf attempt).map CredentialCost.costClass)

/-- The ends of everything that cools the attempt. -/
def coolingEnds : List Number :=
  (breakerEnd states now attempt).toList ++ factEnds terms facts now attempt

/-- The end that is looked at first: the breaker's where it cools, the latest of the facts
elsewhere. -/
def FirstEnd (e : Number) : Prop :=
  match breakerEnd states now attempt with
  | some end_ => e = end_
  | none => LiftsAt (factEnds terms facts now attempt) e

variable {e : Number}

theorem factEnds_ne_nan (h : e ∈ factEnds terms facts now attempt) : now.lt e = true := by
  obtain ⟨fact, hfact, rfl⟩ := List.mem_map.mp h
  exact Facts.not_nan_of_mem_factsFor (List.mem_of_mem_filter hfact)

theorem firstEnd_of_coolingLiftTime
    (h : coolingLiftTime (terms.withFacts facts) states attempt now = some e) :
    FirstEnd terms facts states now attempt e := by
  unfold FirstEnd breakerEnd
  unfold coolingLiftTime at h
  split at h
  · rename_i state hstate
    rw [hstate]
    exact (Option.some.inj h).symm
  · rename_i hnone
    rw [hnone]
    have hspec := Facts.cooldownUntil_spec facts (text attempt.target.provider)
      (some (text attempt.credentialId)) (attempt.target.model.map text) now
      ((terms.costClassOf attempt).map CredentialCost.costClass)
    obtain ⟨hsome, -⟩ := Option.filter_eq_some_iff.mp h
    change Facts.cooldownUntil facts _ _ _ now
      ((terms.costClassOf attempt).map CredentialCost.costClass) = some e at hsome
    rw [hsome] at hspec
    exact hspec

variable {terms : UsabilityTerms} {facts : List Facts.StoredFact} {states : CircuitStates}

variable {attempt : ResolvedAttempt} {now : Number}

theorem coolingEnds_eq_nil (h : coolingLiftTime (terms.withFacts facts) states attempt now = none) :
    coolingEnds terms facts states now attempt = [] := by
  unfold coolingEnds breakerEnd
  unfold coolingLiftTime at h
  split at h
  · cases h
  · rename_i hnone
    rw [hnone, Option.map_none, Option.toList_none]
    have hspec := Facts.cooldownUntil_spec facts (text attempt.target.provider)
      (some (text attempt.credentialId)) (attempt.target.model.map text) now
      ((terms.costClassOf attempt).map CredentialCost.costClass)
    split at hspec
    · exact hspec
    · rename_i t hsome
      rw [Option.filter_eq_none_iff] at h
      exact absurd (factEnds_ne_nan terms facts now attempt hspec.1) (h t hsome)

theorem FirstEnd.mem (h : FirstEnd terms facts states now attempt e) :
    e ∈ coolingEnds terms facts states now attempt := by
  unfold FirstEnd at h
  unfold coolingEnds
  split at h
  · rename_i end_ hend
    rw [hend, h]
    exact List.mem_append_left _ List.mem_cons_self
  · exact List.mem_append_right _ h.1

/-- Two first ends are one instant. -/
theorem FirstEnd.le {e' : Number} (h : FirstEnd terms facts states now attempt e)
    (h' : FirstEnd terms facts states now attempt e') : e.le e' = true := by
  unfold FirstEnd at h h'
  split at h
  · rename_i end_ hend
    rw [hend] at h'
    rw [h, h']
    have hlater : now.lt end_ = true := by
      obtain ⟨state, hstate, rfl⟩ := Option.map_eq_some_iff.mp hend
      exact (Option.filter_eq_some_iff.mp hstate).2
    have hnan : end_ ≠ .nan := by
      rintro rfl
      rw [Number.lt_nan] at hlater
      cases hlater
    exact (Number.le_total hnan hnan).elim id id
  · rename_i hend
    rw [hend] at h'
    exact h.le h'

end Ends

/-! ## The order -/

section Order

variable {β : Type*} (terms : UsabilityTerms) (facts : List Facts.StoredFact)
  (states : CircuitStates) (now : Number) (rep : β → ResolvedAttempt)

/-- Everything that cools `a` has lifted no later than everything that cools `b`. -/
def AvailableNoLater (a b : ResolvedAttempt) : Prop :=
  ∀ s t, LiftsAt (coolingEnds terms facts states now a) s →
    LiftsAt (coolingEnds terms facts states now b) t → s.le t = true

/-- `a` overtakes `b`: the breaker of `a` frees it before the end of `b` that is looked at first,
and a fact holds `a` after everything that cools `b` has lifted. -/
def Overtakes (before : Number → Number → Bool) (a b : ResolvedAttempt) : Prop :=
  ∃ freed first held done, breakerEnd states now a = some freed ∧
    FirstEnd terms facts states now b first ∧ before freed first = true ∧
      LiftsAt (factEnds terms facts now a) held ∧
        LiftsAt (coolingEnds terms facts states now b) done ∧ held.le done = false

theorem availableNoLater_iff {before : Number → Number → Bool} {a b : ResolvedAttempt} {P : Prop}
    (hmono : ∀ x y z : Number, before x y = true → y.le z = true → before x z = true)
    (hle : ∀ x y : Number, before x y = true → x.le y = true)
    (hP : ∀ x y, coolingLiftTime (terms.withFacts facts) states a now = some x →
      coolingLiftTime (terms.withFacts facts) states b now = some y → (P ↔ before x y = true)) :
    (P → AvailableNoLater terms facts states now a b) ↔
      ¬ Overtakes terms facts states now before a b := by
  constructor
  · rintro hav ⟨freed, first, held, done, hfreed, hfirst, hbefore, hheld, hdone, hlate⟩
    cases hb : coolingLiftTime (terms.withFacts facts) states b now with
    | none =>
      have hmem := hfirst.mem
      rw [coolingEnds_eq_nil hb] at hmem
      exact absurd hmem List.not_mem_nil
    | some y =>
      cases ha : coolingLiftTime (terms.withFacts facts) states a now with
      | none =>
        have hmem : freed ∈ coolingEnds terms facts states now a := by
          rw [coolingEnds, hfreed]
          exact List.mem_append_left _ List.mem_cons_self
        rw [coolingEnds_eq_nil ha] at hmem
        exact absurd hmem List.not_mem_nil
      | some x =>
        have hx : x = freed := by
          have := firstEnd_of_coolingLiftTime terms facts states now a ha
          rwa [FirstEnd, hfreed] at this
        have hy := firstEnd_of_coolingLiftTime terms facts states now b hb
        have hfirsty := hmono _ _ _ hbefore (hfirst.le hy)
        -- so `a` stands first, and its latest end is no earlier than what its facts hold
        have hself : LiftsAt [freed] freed := by
          have hrefl := (firstEnd_of_coolingLiftTime terms facts states now a ha).le
            (firstEnd_of_coolingLiftTime terms facts states now a ha)
          rw [hx] at hrefl
          refine ⟨List.mem_cons_self, fun e he => ?_⟩
          rw [List.mem_singleton.mp he]
          exact hrefl
        have hlast := hself.append hheld
        have hends : coolingEnds terms facts states now a
            = [freed] ++ factEnds terms facts now a := by
          rw [coolingEnds, hfreed, Option.toList_some]
        rw [← hends] at hlast
        have hdoneLater := hav ((hP x y ha hb).mpr (hx ▸ hfirsty)) _ done hlast hdone
        have hheldLater := hlast.2 held (by
          exact List.mem_append_right _ hheld.1)
        have := Number.le_trans hheldLater hdoneLater
        rw [hlate] at this
        cases this
  · intro hnot hfirst s t hs ht
    by_contra hlate
    rw [Bool.not_eq_true] at hlate
    cases ha : coolingLiftTime (terms.withFacts facts) states a now with
    | none =>
      have hmem := hs.1
      rw [coolingEnds_eq_nil ha] at hmem
      exact absurd hmem List.not_mem_nil
    | some x =>
      cases hb : coolingLiftTime (terms.withFacts facts) states b now with
      | none =>
        have hmem := ht.1
        rw [coolingEnds_eq_nil hb] at hmem
        exact absurd hmem List.not_mem_nil
      | some y =>
        have hbefore := (hP x y ha hb).mp hfirst
        have hx := firstEnd_of_coolingLiftTime terms facts states now a ha
        have hy := firstEnd_of_coolingLiftTime terms facts states now b hb
        have hxt := Number.le_trans (hle x y hbefore) (ht.2 y hy.mem)
        -- the latest end of `a` is not the one it is sorted by
        have hsx : s.le x = false := by
          by_contra hsx
          rw [Bool.not_eq_false] at hsx
          rw [Number.le_trans hsx hxt] at hlate
          cases hlate
        cases hfreed : breakerEnd states now a with
        | none =>
          rw [FirstEnd, hfreed] at hx
          have hsmem := hs.1
          rw [coolingEnds, hfreed, Option.toList_none] at hsmem
          rw [hx.2 s hsmem] at hsx
          cases hsx
        | some freed =>
          have hxfreed := hx
          rw [FirstEnd, hfreed] at hxfreed
          subst hxfreed
          have hsmem := hs.1
          rw [coolingEnds, hfreed] at hsmem
          rcases List.mem_append.mp hsmem with hsfreed | hsfact
          · rw [List.mem_singleton.mp hsfreed, hx.le hx] at hsx
            cases hsx
          · refine hnot ⟨x, y, s, t, hfreed, hy, hbefore, ⟨hsfact, fun e he => ?_⟩, ht, hlate⟩
            refine hs.2 e ?_
            exact List.mem_append_right _ he

/-- **The cooling band by availability**: sorted by the ends that are looked at first, candidates
are in order of true availability exactly where none overtakes another. -/
theorem sortByLift_availableNoLater_iff {cooling : List β} :
    (sortByLift (terms.withFacts facts) now rep states cooling).Pairwise (fun a b =>
        AvailableNoLater terms facts states now (rep a) (rep b)) ↔
      cooling.Pairwise fun a b =>
        ¬ Overtakes terms facts states now Number.le (rep a) (rep b) ∧
          ¬ Overtakes terms facts states now Number.lt (rep b) (rep a) := by
  have hsort := pairwise_insertionSort_iff (l := cooling)
    (r := LiftsBefore (terms.withFacts facts) now rep states)
    (R := fun a b => AvailableNoLater terms facts states now (rep a) (rep b))
  refine hsort.trans ?_
  have hpair : ∀ a b : β,
      ((LiftsBefore (terms.withFacts facts) now rep states a b →
            AvailableNoLater terms facts states now (rep a) (rep b)) ∧
          (¬ LiftsBefore (terms.withFacts facts) now rep states a b →
            AvailableNoLater terms facts states now (rep b) (rep a))) ↔
        ¬ Overtakes terms facts states now Number.le (rep a) (rep b) ∧
          ¬ Overtakes terms facts states now Number.lt (rep b) (rep a) := by
    intro a b
    refine and_congr ?_ ?_
    · refine availableNoLater_iff terms facts states now
        (fun _ _ _ hxy hyz => Number.le_trans hxy hyz) (fun _ _ h => h) fun x y hx hy => ?_
      rw [LiftsBefore, liftLe_iff, hx, hy]
      rfl
    · refine availableNoLater_iff terms facts states now
        (fun _ _ _ hxy hyz => Number.lt_of_lt_of_le hxy hyz) (fun _ _ h => Number.le_of_lt h)
        fun x y hx hy => ?_
      rw [LiftsBefore, liftLe_iff, hx, hy]
      exact Number.not_le_iff (coolingLiftTime_ne_nan hy) (coolingLiftTime_ne_nan hx)
  simp only [hpair]

end Order

/-- The cooling band of an ordering of attempts, in its order. -/
def coolingBand (terms : UsabilityTerms) (attempts : List ResolvedAttempt)
    (states : CircuitStates) (now : Number) : List ResolvedAttempt :=
  let (bands, states) := bandLoop terms now id attempts .empty states
  sortByLift terms now id states bands.cooling

/-- **Cooling candidates and availability.** The ordering ends with its cooling band. In it a
candidate stands before another only if everything that cools it has lifted no later, for all pairs,
exactly where no cooling candidate overtakes another: has its breaker free it no later than the
end of the other that is looked at first, and a fact hold it until after the other is free of
everything. Of two that tie, the earlier of the list stands first. -/
theorem cooling_band_by_availability_iff (terms : UsabilityTerms) (facts : List Facts.StoredFact)
    (attempts : List ResolvedAttempt) (states : CircuitStates) (now : Number) :
    let ordering := orderByUsabilityTracked (terms.withFacts facts) attempts states now
    coolingBand (terms.withFacts facts) attempts states now <:+ ordering.1.ordered ∧
      (coolingBand (terms.withFacts facts) attempts states now).Perm
        (inBand .cooling (verdicts (terms.withFacts facts) now id attempts states)) ∧
      ((coolingBand (terms.withFacts facts) attempts states now).Pairwise
          (AvailableNoLater terms facts ordering.2 now) ↔
        (inBand .cooling (verdicts (terms.withFacts facts) now id attempts states)).Pairwise
          fun a b => ¬ Overtakes terms facts ordering.2 now Number.le a b ∧
            ¬ Overtakes terms facts ordering.2 now Number.lt b a) := by
  have hcooling := bandLoop_band (terms.withFacts facts) now id attempts .empty states .cooling
  simp only [Bands.band, Bands.empty, List.nil_append] at hcooling
  refine ⟨⟨_, rfl⟩, ?_, ?_⟩
  · rw [← hcooling]
    exact sortByLift_perm (terms.withFacts facts) now id _ _
  · rw [← hcooling]
    exact sortByLift_availableNoLater_iff terms facts _ now id

/-! ## A fact that is not looked at -/

/-- An attempt of the example. -/
def coolingAttempt (ref : Nat) (provider : String) : ResolvedAttempt where
  ref
  target := { provider, base := "b", kind := .openai, model := some "m" }
  credentialId := provider ++ "#one"
  credentialState := .notDeclared
  slot := { enabled := true, models := none, configIndex := 0 }

/-- A cell that cools until an instant. -/
def cellUntil (provider : String) (until_ : Number) : CircuitState :=
  { CircuitState.fresh (targetIdentity (coolingAttempt 0 provider)) with
    cooldownUntil := until_
    cooldownSource := some .retryAfter }

/-- Two cells that cool, the first for less long. -/
def twoCooling : CircuitStates :=
  (OrderedMap.empty.set "p#one/m" (cellUntil "p" 100)).set "q#one/m" (cellUntil "q" 500)

/-- The first credential's allowance is spent until later. -/
def spentFact : Facts.StoredFact where
  kind := .allowanceExhausted
  scope := .credential (text "p") (text "p#one")
  at_ := 0
  until_ := some 1000
  value := none
  untilBasis := none
  costClasses := none

/-- The candidate that is cooled until 1000 is tried before the one that is cooled until 500. -/
theorem longer_cooled_tried_first :
    coolingBand ((probationTerms none).withFacts [spentFact])
        [coolingAttempt 1 "p", coolingAttempt 2 "q"] twoCooling 0
      = [coolingAttempt 1 "p", coolingAttempt 2 "q"] ∧
    ¬ ∀ terms facts attempts states now,
      (coolingBand (UsabilityTerms.withFacts terms facts) attempts states now).Pairwise
        (AvailableNoLater terms facts
          (orderByUsabilityTracked (UsabilityTerms.withFacts terms facts) attempts states now).2
          now) := by
  have hband : coolingBand ((probationTerms none).withFacts [spentFact])
      [coolingAttempt 1 "p", coolingAttempt 2 "q"] twoCooling 0
        = [coolingAttempt 1 "p", coolingAttempt 2 "q"] := by
    decide +kernel
  refine ⟨hband, fun h => ?_⟩
  have hpair := h (probationTerms none) [spentFact] [coolingAttempt 1 "p", coolingAttempt 2 "q"]
    twoCooling 0
  rw [hband, List.pairwise_cons] at hpair
  have hle := hpair.1 (coolingAttempt 2 "q") List.mem_cons_self 1000 500
    ⟨by decide +kernel, by decide +kernel⟩ ⟨by decide +kernel, by decide +kernel⟩
  exact absurd hle (by decide)

end LlmRelay
