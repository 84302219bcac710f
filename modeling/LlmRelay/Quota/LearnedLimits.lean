import LlmRelay.Ecma.Sorting
import LlmRelay.Facts.Store
import LlmRelay.Pacing.Resolve

/-!
# Learned limits

Rate limits that were learned from refusals are read for a target, the most specific scope first
(`rate-limits.ts`), and collected with the other evidence into one bucket for each axis and
period (`availability.ts`).

## Main definitions

* `observedRateLimits`: the learned limits of a target;
* `QuotaBuckets.learnedOf`: the learned limit of a bucket;
* `coveringLimits`: the facts that a bucket of a target can take its limit from.

## Main results

* `learned_collectQuotaBuckets`: the bucket keeps the limit that is read last;
* `learned_limit_most_specific_iff`: when that is a limit of a most specific scope.
-/

namespace LlmRelay

open Ecma Facts

/-! ## Reading learned limits -/

/-- The window a kind of fact is about, where it is about a rate. -/
def rateLimitAxisOf : FactKind → Option (QuotaAxis × QuotaPeriod)
  | .rateLimitRpm => some (.requests, .minute)
  | .rateLimitRpd => some (.requests, .day)
  | .rateLimitTpm => some (.tokens, .minute)
  | .rateLimitTpd => some (.tokens, .day)
  | _ => none

/-- The limit a fact states about a rate. -/
def observedOf (fact : ReportedFact) : Option LearnedRateLimit :=
  (rateLimitAxisOf fact.kind).bind fun window =>
    fact.value.map fun limit => ⟨window.1, window.2, limit⟩

/-- The learned limits about a target, in the order in which the facts are reported. -/
def observedRateLimits (facts : List StoredFact) (provider : Text)
    (credentialId model : Option Text) (now : Number) : List LearnedRateLimit :=
  (factsFor facts provider credentialId model now none).filterMap observedOf

/-! ## The learned limit of a bucket -/

/-- The learned limit of a window. -/
def QuotaBuckets.learnedOf (buckets : QuotaBuckets) (window : QuotaAxis × QuotaPeriod) :
    Option Number :=
  (buckets.get? window).bind (·.limits.learned)

/-- Is the entry about the window? -/
def LearnedRateLimit.isAbout (window : QuotaAxis × QuotaPeriod) (entry : LearnedRateLimit) :
    Bool :=
  (entry.axis, entry.period) = window

section Buckets

variable {window : QuotaAxis × QuotaPeriod}

theorem learnedOf_modify (buckets : QuotaBuckets) (axis : QuotaAxis) (period : QuotaPeriod)
    (change : QuotaBucket → QuotaBucket) :
    (buckets.modify axis period change).learnedOf window
      = if (axis, period) = window then
          (change ((buckets.get? (axis, period)).getD
            ⟨axis, period, [], {}⟩)).limits.learned
        else buckets.learnedOf window := by
  unfold QuotaBuckets.learnedOf QuotaBuckets.modify
  rw [OrderedMap.get?_set]
  split
  · rfl
  · rfl

theorem learnedOf_modify_of_kept (buckets : QuotaBuckets) (axis : QuotaAxis)
    (period : QuotaPeriod) {change : QuotaBucket → QuotaBucket}
    (hchange : ∀ bucket, (change bucket).limits.learned = bucket.limits.learned) :
    (buckets.modify axis period change).learnedOf window = buckets.learnedOf window := by
  rw [learnedOf_modify]
  split
  · rename_i heq
    rw [hchange, ← heq, QuotaBuckets.learnedOf]
    cases buckets.get? (axis, period) <;> rfl
  · rfl

theorem learnedOf_foldl {α : Type*} {step : QuotaBuckets → α → QuotaBuckets}
    (hstep : ∀ buckets a, (step buckets a).learnedOf window = buckets.learnedOf window)
    (buckets : QuotaBuckets) (l : List α) :
    (l.foldl step buckets).learnedOf window = buckets.learnedOf window := by
  induction l generalizing buckets with
  | nil => rfl
  | cons a l ih => rw [List.foldl_cons, ih, hstep]

theorem learnedOf_foldl_last {step : QuotaBuckets → LearnedRateLimit → QuotaBuckets}
    (hstep : ∀ buckets entry, (step buckets entry).learnedOf window
      = if entry.isAbout window then some entry.limit else buckets.learnedOf window)
    (buckets : QuotaBuckets) (entries : List LearnedRateLimit) :
    (entries.foldl step buckets).learnedOf window
      = (((entries.filter (·.isAbout window)).getLast?).map (·.limit)).or
          (buckets.learnedOf window) := by
  induction entries using List.reverseRecOn with
  | nil => rfl
  | append_singleton entries entry ih =>
    rw [List.foldl_append, List.foldl_cons, List.foldl_nil, hstep, List.filter_append]
    cases habout : entry.isAbout window with
    | true =>
      rw [List.filter_singleton, habout, cond_true, List.getLast?_append]
      rfl
    | false =>
      rw [List.filter_singleton, habout, cond_false, List.append_nil]
      exact ih

end Buckets

/-- **The learned limit of a bucket** is the one that is read last. -/
theorem learned_collectQuotaBuckets (observations : List QuotaObservation)
    (learned : List LearnedRateLimit) (configured : Option (ConfiguredLimitAxis → Option Number))
    (window : QuotaAxis × QuotaPeriod) :
    (collectQuotaBuckets observations learned configured).learnedOf window
      = ((learned.filter (·.isAbout window)).getLast?).map (·.limit) := by
  have hnone : ∀ limit : Option Number, limit.or
      (QuotaBuckets.learnedOf .empty window) = limit := fun _ => Option.or_none
  have hstep : ∀ (buckets : QuotaBuckets) (entry : LearnedRateLimit),
      (buckets.modify entry.axis entry.period fun bucket =>
        { bucket with limits := { bucket.limits with learned := some entry.limit } }).learnedOf
          window
        = if entry.isAbout window then some entry.limit else buckets.learnedOf window := by
    intro buckets entry
    rw [learnedOf_modify]
    simp only [LearnedRateLimit.isAbout, decide_eq_true_eq]
  unfold collectQuotaBuckets
  cases configured with
  | none =>
    rw [learnedOf_foldl_last hstep, learnedOf_foldl, hnone]
    exact fun buckets observation => learnedOf_modify_of_kept buckets _ _ fun _ => rfl
  | some figures =>
    rw [learnedOf_foldl, learnedOf_foldl_last hstep, learnedOf_foldl, hnone]
    · exact fun buckets observation => learnedOf_modify_of_kept buckets _ _ fun _ => rfl
    · intro buckets axis
      cases figures axis with
      | none => rfl
      | some value => exact learnedOf_modify_of_kept buckets _ _ fun _ => rfl

/-! ## The scope it is of -/

/-- The place of a fact's scope among the kinds of scopes: the most specific one is the first. -/
def specificity (fact : StoredFact) : Nat :=
  SCOPE_PRECEDENCE.idxOf fact.scope.kind

/-- Does the fact state a limit of the window? -/
def statesLimit (window : QuotaAxis × QuotaPeriod) (fact : StoredFact) : Bool :=
  rateLimitAxisOf fact.kind = some window && fact.value.isSome

section Covering

variable (facts : List StoredFact) (provider : Text) (credentialId model : Option Text)
  (now : Number) (window : QuotaAxis × QuotaPeriod)

/-- The facts that are reported about the target. -/
def factsAbout : List StoredFact :=
  facts.filter fun fact =>
    now.lt (expiryOf fact) && covers fact provider credentialId model
      && costFilterAdmits fact none

/-- The learned limits of the window that cover the target. -/
def coveringLimits : List StoredFact :=
  (factsAbout facts provider credentialId model now).filter (statesLimit window)

theorem factsFor_eq :
    factsFor facts provider credentialId model now none
      = ((factsAbout facts provider credentialId model now).mergeSort
          fun a b => decide (specificity a ≤ specificity b)).map
            fun fact => ⟨fact.kind, fact.scope, expiryOf fact, fact.untilBasis, fact.value⟩ := by
  rw [List.map_mergeSort (s := fun a b : ReportedFact =>
    decide (SCOPE_PRECEDENCE.idxOf a.scope.kind ≤ SCOPE_PRECEDENCE.idxOf b.scope.kind))]
  · rfl
  · exact fun a _ b _ => rfl

theorem filter_filterMap_observedOf (l : List StoredFact) :
    (((l.map fun fact => (⟨fact.kind, fact.scope, expiryOf fact, fact.untilBasis, fact.value⟩ :
        ReportedFact)).filterMap observedOf).filter (·.isAbout window)).map (·.limit)
      = (l.filter (statesLimit window)).filterMap (·.value) := by
  induction l with
  | nil => rfl
  | cons fact l ih =>
    rw [List.map_cons]
    cases hkind : rateLimitAxisOf fact.kind with
    | none =>
      have hnot : statesLimit window fact = false := by simp [statesLimit, hkind]
      rw [List.filterMap_cons_none (by simp [observedOf, hkind]), ih,
        List.filter_cons_of_neg (by simp [hnot])]
    | some window' =>
      cases hvalue : fact.value with
      | none =>
        have hnot : statesLimit window fact = false := by simp [statesLimit, hvalue]
        rw [List.filterMap_cons_none (by simp [observedOf]), ih,
          List.filter_cons_of_neg (by simp [hnot])]
      | some limit =>
        have hobserved : observedOf ⟨fact.kind, fact.scope, expiryOf fact, fact.untilBasis,
            some limit⟩ = some ⟨window'.1, window'.2, limit⟩ := by simp [observedOf, hkind]
        have habout : LearnedRateLimit.isAbout window ⟨window'.1, window'.2, limit⟩
            = decide (window' = window) := rfl
        rw [List.filterMap_cons_some hobserved]
        by_cases heq : window' = window
        · have hstates : statesLimit window fact = true := by
            simp [statesLimit, hkind, hvalue, heq]
          rw [List.filter_cons_of_pos (by rw [habout, decide_eq_true heq]), List.map_cons, ih,
            List.filter_cons_of_pos hstates, List.filterMap_cons_some hvalue]
        · have hnot : statesLimit window fact = false := by simp [statesLimit, hkind, heq]
          rw [List.filter_cons_of_neg (by rw [habout]; simpa using heq), ih,
            List.filter_cons_of_neg (by simp [hnot])]

theorem getLast?_filterMap_of_isSome {α β : Type*} {f : α → Option β} {l : List α}
    (h : ∀ a ∈ l, (f a).isSome = true) : (l.filterMap f).getLast? = l.getLast?.bind f := by
  induction l using List.reverseRecOn with
  | nil => rfl
  | append_singleton l a _ =>
    obtain ⟨b, hb⟩ := Option.isSome_iff_exists.mp (h a (by simp))
    rw [List.filterMap_append, List.filterMap_cons_some hb, List.filterMap_nil,
      List.getLast?_append, List.getLast?_append]
    exact hb.symm

theorem learned_eq_getLast? (observations : List QuotaObservation)
    (configured : Option (ConfiguredLimitAxis → Option Number)) :
    (collectQuotaBuckets observations
        (observedRateLimits facts provider credentialId model now) configured).learnedOf window
      = ((((factsAbout facts provider credentialId model now).mergeSort fun a b =>
          decide (specificity a ≤ specificity b)).filter (statesLimit window)).getLast?).bind
            (·.value) := by
  rw [learned_collectQuotaBuckets, ← List.getLast?_map, observedRateLimits, factsFor_eq,
    filter_filterMap_observedOf]
  exact getLast?_filterMap_of_isSome fun fact hfact =>
    (Bool.and_eq_true_iff.mp (List.mem_filter.mp hfact).2).2

end Covering

/-- No covering limit is of a more specific scope. -/
def IsMostSpecific (covering : List StoredFact) (fact : StoredFact) : Prop :=
  fact ∈ covering ∧ ∀ other ∈ covering, specificity fact ≤ specificity other

/-- The broadest covering scopes, and the one of these that is stored last. -/
def IsBroadest (covering : List StoredFact) (fact : StoredFact) : Prop :=
  (∀ other ∈ covering, specificity other ≤ specificity fact) ∧
    (covering.filter (specificity · = specificity fact)).getLast? = some fact

/-- A learned limit is that of a most specific scope, or there is none. -/
def MostSpecificApplies (covering : List StoredFact) : Option Number → Prop
  | none => covering = []
  | some limit => ∃ fact, IsMostSpecific covering fact ∧ fact.value = some limit

/-- **The most specific learned limit applies** to a bucket exactly where the covering limit of
the broadest scope, the last one that is stored, states the figure of a most specific scope. -/
theorem learned_limit_most_specific_iff (facts : List StoredFact) (provider : Text)
    (credentialId model : Option Text) (now : Number) (observations : List QuotaObservation)
    (configured : Option (ConfiguredLimitAxis → Option Number)) (window : QuotaAxis × QuotaPeriod) :
    MostSpecificApplies (coveringLimits facts provider credentialId model now window)
        ((collectQuotaBuckets observations
          (observedRateLimits facts provider credentialId model now) configured).learnedOf
            window) ↔
      ∀ broadest, IsBroadest (coveringLimits facts provider credentialId model now window)
          broadest →
        ∃ fact, IsMostSpecific (coveringLimits facts provider credentialId model now window) fact
          ∧ fact.value = broadest.value := by
  rw [learned_eq_getLast?]
  cases hlast : (((factsAbout facts provider credentialId model now).mergeSort fun a b =>
      decide (specificity a ≤ specificity b)).filter (statesLimit window)).getLast? with
  | none =>
    have hperm := (List.mergeSort_perm (factsAbout facts provider credentialId model now)
      fun a b => decide (specificity a ≤ specificity b)).filter (statesLimit window)
    rw [List.getLast?_eq_none_iff.mp hlast] at hperm
    have hnone : coveringLimits facts provider credentialId model now window = [] :=
      hperm.nil_eq.symm
    rw [hnone]
    refine iff_of_true rfl fun broadest hbroadest => ?_
    cases hbroadest.2
  | some last =>
    have hbroadest := (getLast?_filter_mergeSort_rank specificity).mp hlast
    have hmem : last ∈ coveringLimits facts provider credentialId model now window :=
      (List.mem_filter.mp (List.mem_of_getLast? hbroadest.2)).1
    obtain ⟨limit, hlimit⟩ := Option.isSome_iff_exists.mp
      (Bool.and_eq_true_iff.mp (List.mem_filter.mp hmem).2).2
    rw [Option.bind_some, hlimit]
    constructor
    · rintro ⟨fact, hspecific, hvalue⟩ broadest ⟨hmax, hend⟩
      -- the broadest fact that is stored last is unique
      have hrank : specificity broadest = specificity last :=
        le_antisymm (hbroadest.1 broadest (List.mem_filter.mp (List.mem_of_getLast? hend)).1)
          (hmax last hmem)
      rw [hrank] at hend
      have heq : last = broadest := Option.some.inj (hbroadest.2.symm.trans hend)
      exact ⟨fact, hspecific, by rw [hvalue, ← heq, hlimit]⟩
    · intro hall
      obtain ⟨fact, hspecific, hvalue⟩ := hall last hbroadest
      exact ⟨fact, hspecific, hvalue.trans hlimit⟩

/-- A learned limit on the requests of a minute. -/
def learnedRpm (scope : Facts.FactScope) (limit : Number) : StoredFact where
  kind := .rateLimitRpm
  scope := scope
  at_ := 0
  until_ := none
  value := some limit
  untilBasis := none
  costClasses := none

/-- Limits of one window that an attempt and its credential stated. -/
def attemptAndCredential : List StoredFact :=
  [learnedRpm (.attempt (text "p") (text "p#a") (text "m")) 10,
    learnedRpm (.credential (text "p") (text "p#a")) 60]

/-- Both limits cover the target, and the one of the credential applies. -/
theorem learned_limit_broad_applies :
    (coveringLimits attemptAndCredential (text "p") (some (text "p#a")) (some (text "m")) 1
        (.requests, .minute)).map (fun fact => (specificity fact, fact.value))
        = [(0, some 10), (3, some 60)] ∧
      (collectQuotaBuckets []
        (observedRateLimits attemptAndCredential (text "p") (some (text "p#a"))
          (some (text "m")) 1) none).learnedOf (.requests, .minute) = some 60 := by
  -- the two facts are stored in the order of their scopes
  rw [learned_eq_getLast?, List.mergeSort_of_pairwise (by decide +kernel)]
  decide +kernel

end LlmRelay
