import LlmRelay.Candidates.CredentialSelect
import LlmRelay.Ecma.Sorting

/-!
# What credential ranking keeps

Ranking works deployment by deployment (`credential-select.ts`): a deployment's attempts that
nothing rules out, or, where learned facts rule every one of them out, those that are not ruled
out absolutely. The order of the deployments is that of the attempts.

## Main definitions

* `absolutelyOut`, `hardOut`: what rules an attempt out;
* `offered`: whether an attempt is in the ranking;
* `firstSeen`: the place of an attempt's deployment.

## Main results

* `rankOneDeployment_perm`: the ranking of a deployment, up to order;
* `rankCredentialAttempts_filter`: the attempts of one deployment are ranked by themselves;
* `credential_ranking_offers`: which attempts are offered, in which order of deployments.
-/

namespace LlmRelay

open Ecma

/-- Disabled, without its secret, or not allowed the model. -/
def absolutelyOut (attempt : ResolvedAttempt) : Bool :=
  !attempt.slot.enabled || attempt.credentialState = .declaredMissing
    || !attempt.slot.models.all fun models =>
      attempt.target.model.any fun model => models.contains model

/-- Ruled out absolutely or by a learned fact. -/
def hardOut (options : SelectionOptions) (attempt : ResolvedAttempt) : Bool :=
  absolutelyOut attempt
    || ((((options.evidenceFor attempt).map (·.facts)).getD []).filter fun fact =>
        scopeMatches fact.scope attempt).any fun fact =>
      fact.kind = "not-servable" || fact.kind = "subscription-required"

/-- The attempts of one deployment. -/
def deploymentOf (attempts : List ResolvedAttempt) (key : String) : List ResolvedAttempt :=
  attempts.filter (targetKey · = key)

/-- Nothing rules the attempt out, or all that rules it and the others of its deployment out
is learned. -/
def offered (options : SelectionOptions) (attempts : List ResolvedAttempt)
    (attempt : ResolvedAttempt) : Bool :=
  !absolutelyOut attempt
    && (!hardOut options attempt
      || (deploymentOf attempts (targetKey attempt)).all (hardOut options))

/-- The place at which the deployment of an attempt is met first. -/
def firstSeen (attempts : List ResolvedAttempt) (attempt : ResolvedAttempt) : Nat :=
  (attempts.map targetKey).idxOf (targetKey attempt)

theorem rankedOf_absolute (options : SelectionOptions) (attempt : ResolvedAttempt) (index : Nat) :
    (rankedOf options attempt index).absolute = absolutelyOut attempt := by
  simp [rankedOf, absolutelyOut]

theorem rankedOf_hard (options : SelectionOptions) (attempt : ResolvedAttempt) (index : Nat) :
    (rankedOf options attempt index).hard = hardOut options attempt := by
  rw [hardOut, ← rankedOf_absolute options attempt index]
  rfl

theorem hardOut_of_absolutelyOut {options : SelectionOptions} {attempt : ResolvedAttempt}
    (h : absolutelyOut attempt = true) : hardOut options attempt = true := by
  rw [hardOut, h, Bool.true_or]

/-! ## One deployment -/

section Deployment

variable (lru : CredentialLru) (options : SelectionOptions) (deployment : List ResolvedAttempt)

/-- The attempts of a deployment that are ranked. -/
def usableOf : List ResolvedAttempt :=
  if deployment.all (hardOut options) then deployment.filter (!absolutelyOut ·)
  else deployment.filter (!hardOut options ·)

theorem map_attempt_filter (p : Ranked → Bool) (q : ResolvedAttempt → Bool)
    (h : ∀ attempt index, p (rankedOf options attempt index) = q attempt) :
    ((deployment.zipIdx.map fun entry => rankedOf options entry.1 entry.2).filter p).map
      Ranked.attempt = deployment.filter q := by
  have hcomp : (p ∘ fun entry : ResolvedAttempt × Nat => rankedOf options entry.1 entry.2)
      = q ∘ Prod.fst := by
    funext entry
    exact h entry.1 entry.2
  have hfst : (Ranked.attempt ∘ fun entry : ResolvedAttempt × Nat =>
      rankedOf options entry.1 entry.2) = Prod.fst := rfl
  rw [List.filter_map, hcomp, List.map_map, hfst, ← List.filter_map, List.zipIdx_map_fst]

/-- **The ranking of a deployment**, up to order. -/
theorem rankOneDeployment_perm :
    (rankOneDeployment lru options deployment).Perm (usableOf options deployment) := by
  have hsurvivors := map_attempt_filter options deployment
    (fun candidate => !candidate.absolute && !candidate.hard) (!hardOut options ·) (by
      intro attempt index
      rw [rankedOf_absolute, rankedOf_hard]
      cases habsolute : absolutelyOut attempt with
      | false => rw [Bool.not_false, Bool.true_and]
      | true => rw [hardOut_of_absolutelyOut habsolute, Bool.and_self])
  have hnonAbsolute := map_attempt_filter options deployment
    (fun candidate => !candidate.absolute) (!absolutelyOut ·) fun attempt index => by
      rw [rankedOf_absolute]
  have hempty : ((deployment.zipIdx.map fun entry => rankedOf options entry.1 entry.2).filter
      fun candidate => !candidate.absolute && !candidate.hard).isEmpty
        = deployment.all (hardOut options) := by
    rw [Bool.eq_iff_iff, List.isEmpty_iff, ← List.map_eq_nil_iff, hsurvivors,
      List.filter_eq_nil_iff, List.all_eq_true]
    simp only [Bool.not_eq_true', Bool.not_eq_false]
  unfold rankOneDeployment usableOf
  refine ((List.perm_insertionSort _ _).map Ranked.attempt).trans ?_
  rw [hempty]
  split
  · rw [hnonAbsolute]
  · rw [hsurvivors]

variable {lru options deployment}

variable {attempt : ResolvedAttempt}

theorem mem_usableOf :
    attempt ∈ usableOf options deployment ↔ attempt ∈ deployment ∧
      absolutelyOut attempt = false ∧
        (hardOut options attempt = false ∨ deployment.all (hardOut options) = true) := by
  unfold usableOf
  by_cases hall : deployment.all (hardOut options) = true
  · rw [if_pos hall, List.mem_filter, Bool.not_eq_true']
    simp only [hall, or_true, and_true]
  · rw [if_neg hall, List.mem_filter, Bool.not_eq_true']
    simp only [hall, Bool.false_eq_true, or_false]
    refine and_congr_right fun _ => ⟨fun hhard => ⟨?_, hhard⟩, And.right⟩
    -- what is absolutely out is out
    cases habsolute : absolutelyOut attempt with
    | false => rfl
    | true =>
      rw [hardOut_of_absolutelyOut habsolute] at hhard
      cases hhard

theorem exists_mem_usableOf (hmem : attempt ∈ deployment) (husable : absolutelyOut attempt = false) :
    ∃ other, other ∈ usableOf options deployment := by
  by_cases hall : deployment.all (hardOut options) = true
  · exact ⟨attempt, mem_usableOf.mpr ⟨hmem, husable, .inr hall⟩⟩
  · obtain ⟨other, hother, hnot⟩ := List.all_eq_false.mp (Bool.not_eq_true _ ▸ hall)
    refine ⟨other, ?_⟩
    rw [usableOf, if_neg hall]
    exact List.mem_filter.mpr ⟨hother, by simpa using hnot⟩

theorem count_usableOf (attempt : ResolvedAttempt) :
    (usableOf options deployment).count attempt
      = if attempt ∈ usableOf options deployment then deployment.count attempt else 0 := by
  by_cases hmem : attempt ∈ usableOf options deployment
  · rw [if_pos hmem]
    unfold usableOf at hmem ⊢
    split at hmem
    · rename_i hall
      rw [if_pos hall]
      exact List.count_filter (List.mem_filter.mp hmem).2
    · rename_i hall
      rw [if_neg hall]
      exact List.count_filter (List.mem_filter.mp hmem).2
  · rw [if_neg hmem, List.count_eq_zero]
    exact hmem

theorem mem_of_mem_ite_filter {l : List Ranked} {usesFirst : Prop} [Decidable usesFirst]
    {p q : Ranked → Bool} {candidate : Ranked}
    (h : candidate ∈ if usesFirst then l.filter p else l.filter q) : candidate ∈ l := by
  split at h
  · exact (List.mem_filter.mp h).1
  · exact (List.mem_filter.mp h).1

theorem rankOneDeployment_congr {options' : SelectionOptions} (hnow : options'.now = options.now)
    (hfreshness : options'.quotaFreshnessMs = options.quotaFreshnessMs)
    (hevidence : ∀ attempt ∈ deployment,
      options'.evidenceFor attempt = options.evidenceFor attempt) :
    rankOneDeployment lru options' deployment = rankOneDeployment lru options deployment := by
  have hranked : (deployment.zipIdx.map fun entry => rankedOf options' entry.1 entry.2)
      = deployment.zipIdx.map fun entry => rankedOf options entry.1 entry.2 := by
    refine List.map_congr_left fun entry hentry => ?_
    have hmem := List.fst_mem_of_mem_zipIdx hentry
    rw [rankedOf, rankedOf, hevidence entry.1 hmem]
  have hattempt : ∀ candidate ∈ deployment.zipIdx.map fun entry =>
      rankedOf options entry.1 entry.2, candidate.attempt ∈ deployment := by
    intro candidate hcandidate
    obtain ⟨entry, hentry, rfl⟩ := List.mem_map.mp hcandidate
    exact List.fst_mem_of_mem_zipIdx hentry
  -- the comparison of two attempts of the deployment reads the evidence about them
  have hranks : ∀ candidate ∈ deployment.zipIdx.map fun entry =>
      rankedOf options entry.1 entry.2, ranksOf lru options' candidate
        = ranksOf lru options candidate := by
    intro candidate hcandidate
    rw [ranksOf, ranksOf, hevidence _ (hattempt candidate hcandidate), hnow, hfreshness]
  unfold rankOneDeployment
  rw [hranked]
  refine congrArg (List.map Ranked.attempt) (insertionSort_congr fun a ha b hb => ?_)
  rw [hranks a (mem_of_mem_ite_filter ha), hranks b (mem_of_mem_ite_filter hb)]

end Deployment

/-! ## All deployments -/

section Deployments

theorem pairwise_idxOf_append {l met : List String} (hmem : ∀ key ∈ met, key ∈ l)
    (h : met.Pairwise fun key key' => l.idxOf key < l.idxOf key') (rest : List String) :
    met.Pairwise fun key key' => (l ++ rest).idxOf key < (l ++ rest).idxOf key' := by
  refine h.imp_of_mem fun hkey hkey' hlt => ?_
  rw [List.idxOf_append_of_mem (hmem _ hkey), List.idxOf_append_of_mem (hmem _ hkey')]
  exact hlt

theorem pairwise_idxOf_snoc {l met : List String} (hmem : ∀ key ∈ met, key ∈ l)
    (h : met.Pairwise fun key key' => l.idxOf key < l.idxOf key') {last : String}
    (hlast : last ∉ l) :
    (met ++ [last]).Pairwise fun key key' =>
      (l ++ [last]).idxOf key < (l ++ [last]).idxOf key' := by
  refine List.pairwise_append.mpr
    ⟨pairwise_idxOf_append hmem h [last], List.pairwise_singleton _ _, ?_⟩
  intro key hkey key' hkey'
  rw [List.mem_singleton.mp hkey', List.idxOf_append_of_mem (hmem key hkey),
    List.idxOf_append_of_notMem hlast]
  exact Nat.lt_of_lt_of_le (List.idxOf_lt_length_of_mem (hmem key hkey)) (Nat.le_add_right _ _)

/-- The groups are the deployments with their attempts, in first-seen order. -/
structure Filed (attempts : List ResolvedAttempt)
    (groups : OrderedMap String (List ResolvedAttempt)) : Prop where
  filed : ∀ key, groups.get? key
    = if key ∈ attempts.map targetKey then some (deploymentOf attempts key) else none
  ordered : groups.keys.Pairwise fun key key' =>
    (attempts.map targetKey).idxOf key < (attempts.map targetKey).idxOf key'

variable {attempts : List ResolvedAttempt} {groups : OrderedMap String (List ResolvedAttempt)}

variable {key : String}

theorem Filed.mem_keys (h : Filed attempts groups) :
    key ∈ groups.keys ↔ key ∈ attempts.map targetKey := by
  rw [OrderedMap.mem_keys_iff, h.filed key]
  split <;> simp [*]

theorem deploymentOf_eq_nil (h : key ∉ attempts.map targetKey) :
    deploymentOf attempts key = [] := by
  refine List.filter_eq_nil_iff.mpr fun attempt hattempt heq => h ?_
  exact List.mem_map.mpr ⟨attempt, hattempt, of_decide_eq_true heq⟩

theorem deploymentOf_snoc (attempts : List ResolvedAttempt) (attempt : ResolvedAttempt)
    (key : String) :
    deploymentOf (attempts ++ [attempt]) key
      = deploymentOf attempts key ++ if targetKey attempt = key then [attempt] else [] := by
  rw [deploymentOf, List.filter_append, ← deploymentOf]
  split <;> simp [*]

theorem filed_empty : Filed [] .empty where
  filed := fun _ => rfl
  ordered := List.Pairwise.nil

theorem Filed.fileAttempt (h : Filed attempts groups) (attempt : ResolvedAttempt) :
    Filed (attempts ++ [attempt]) (fileAttempt groups attempt) := by
  have hold : ∀ key, (groups.get? key).getD [] = deploymentOf attempts key := by
    intro key
    rw [h.filed key]
    split
    · rfl
    · rename_i hnot
      exact (deploymentOf_eq_nil hnot).symm
  refine ⟨fun key => ?_, ?_⟩
  · have hmem : key ∈ (attempts ++ [attempt]).map targetKey ↔
        key ∈ attempts.map targetKey ∨ key = targetKey attempt := by
      rw [List.map_append, List.map_cons, List.map_nil, List.mem_append, List.mem_singleton]
    rw [LlmRelay.fileAttempt, OrderedMap.get?_set, hold, deploymentOf_snoc]
    by_cases heq : targetKey attempt = key
    · rw [if_pos heq, if_pos (hmem.mpr (.inr heq.symm)), if_pos heq, heq]
    · rw [if_neg heq, h.filed key, if_neg heq, List.append_nil]
      simp only [hmem, Ne.symm heq, or_false]
  · rw [LlmRelay.fileAttempt, OrderedMap.keys_set, List.map_append, List.map_cons]
    split
    · exact pairwise_idxOf_append (fun key hkey => h.mem_keys.mp hkey) h.ordered _
    · rename_i hnew
      exact pairwise_idxOf_snoc (fun key hkey => h.mem_keys.mp hkey) h.ordered
        fun hin => hnew (h.mem_keys.mpr hin)

/-- **Grouping files every attempt.** -/
theorem filed_foldl (attempts : List ResolvedAttempt) :
    Filed attempts (attempts.foldl LlmRelay.fileAttempt .empty) := by
  induction attempts using List.reverseRecOn with
  | nil => exact filed_empty
  | append_singleton attempts attempt ih =>
    rw [List.foldl_append]
    exact ih.fileAttempt attempt

theorem mem_groups_iff :
    ⟨key, deploymentOf attempts key⟩ ∈ groupCredentialAttempts attempts ↔
      key ∈ attempts.map targetKey := by
  constructor
  · intro h
    obtain ⟨entry, hentry, heq⟩ := List.mem_map.mp h
    obtain ⟨rfl, -⟩ := DeploymentCredentialGroup.mk.inj heq
    exact (filed_foldl attempts).mem_keys.mp (List.mem_map.mpr ⟨entry, hentry, rfl⟩)
  · intro h
    refine List.mem_map.mpr ⟨(key, deploymentOf attempts key), ?_, rfl⟩
    rw [OrderedMap.mem_entries_iff, (filed_foldl attempts).filed, if_pos h]

variable (lru : CredentialLru) (options : SelectionOptions)

theorem targetKey_of_mem_rankOneDeployment {deployment : List ResolvedAttempt}
    (hkey : ∀ attempt ∈ deployment, targetKey attempt = key) {attempt : ResolvedAttempt}
    (h : attempt ∈ rankOneDeployment lru options deployment) : targetKey attempt = key :=
  hkey attempt ((rankOneDeployment_subperm lru options deployment).subset h)

theorem filter_flatMap_groups {f : DeploymentCredentialGroup → List ResolvedAttempt}
    {groups : List DeploymentCredentialGroup} (hkeys : (groups.map (·.key)).Nodup)
    (hf : ∀ group ∈ groups, ∀ attempt ∈ f group, targetKey attempt = group.key)
    {group : DeploymentCredentialGroup} (hgroup : group ∈ groups) :
    (groups.flatMap f).filter (targetKey · = group.key) = f group := by
  induction groups with
  | nil => cases hgroup
  | cons first rest ih =>
    rw [List.map_cons, List.nodup_cons] at hkeys
    rw [List.flatMap_cons, List.filter_append]
    rcases List.mem_cons.mp hgroup with rfl | hrest
    · -- the later groups have other keys
      have hnone : (rest.flatMap f).filter (targetKey · = group.key) = [] := by
        refine List.filter_eq_nil_iff.mpr fun attempt hattempt heq => hkeys.1 ?_
        obtain ⟨other, hother, hin⟩ := List.mem_flatMap.mp hattempt
        refine List.mem_map.mpr ⟨other, hother, ?_⟩
        rw [← hf other (List.mem_cons_of_mem _ hother) attempt hin]
        exact of_decide_eq_true heq
      rw [hnone, List.append_nil]
      exact List.filter_eq_self.mpr fun attempt hattempt =>
        decide_eq_true (hf group List.mem_cons_self attempt hattempt)
    · have hne : first.key ≠ group.key := fun heq =>
        hkeys.1 (List.mem_map.mpr ⟨group, hrest, heq.symm⟩)
      have hnone : (f first).filter (targetKey · = group.key) = [] := by
        refine List.filter_eq_nil_iff.mpr fun attempt hattempt heq => hne ?_
        rw [← hf first List.mem_cons_self attempt hattempt]
        exact of_decide_eq_true heq
      rw [hnone]
      exact ih hkeys.2 (fun other hother => hf other (List.mem_cons_of_mem _ hother)) hrest

/-- **The attempts of one deployment** are ranked by themselves. -/
theorem rankCredentialAttempts_filter (key : String) :
    (rankCredentialAttempts lru options attempts).filter (targetKey · = key)
      = rankOneDeployment lru options (deploymentOf attempts key) := by
  have hf : ∀ group ∈ groupCredentialAttempts attempts,
      ∀ attempt ∈ rankOneDeployment lru options group.attempts,
        targetKey attempt = group.key := fun group hgroup attempt hattempt =>
    targetKey_of_mem_rankOneDeployment lru options
      ((groupCredentialAttempts_spec attempts).2.1 group hgroup) hattempt
  by_cases hmet : key ∈ attempts.map targetKey
  · exact filter_flatMap_groups (groupCredentialAttempts_spec attempts).1 hf
      (mem_groups_iff.mpr hmet)
  · -- neither the ranking nor the list has an attempt of it
    rw [deploymentOf_eq_nil hmet]
    refine List.filter_eq_nil_iff.mpr fun attempt hattempt heq => hmet ?_
    have hin := (rankCredentialAttempts_subperm lru options attempts).subset hattempt
    exact List.mem_map.mpr ⟨attempt, hin, of_decide_eq_true heq⟩

theorem rankCredentialAttempts_ordered :
    (rankCredentialAttempts lru options attempts).Pairwise fun a b =>
      firstSeen attempts a ≤ firstSeen attempts b := by
  have hkey : ∀ group ∈ groupCredentialAttempts attempts,
      ∀ attempt ∈ rankOneDeployment lru options group.attempts,
        targetKey attempt = group.key := fun group hgroup attempt hattempt =>
    targetKey_of_mem_rankOneDeployment lru options
      ((groupCredentialAttempts_spec attempts).2.1 group hgroup) hattempt
  have hordered : (groupCredentialAttempts attempts).Pairwise fun group group' =>
      (attempts.map targetKey).idxOf group.key < (attempts.map targetKey).idxOf group'.key := by
    have h := (filed_foldl attempts).ordered
    rw [OrderedMap.keys, List.pairwise_map] at h
    exact List.pairwise_map.mpr h
  refine List.pairwise_flatMap.mpr ⟨fun group hgroup => ?_, ?_⟩
  · refine List.pairwise_of_forall_mem_list fun a ha b hb => ?_
    rw [firstSeen, firstSeen, hkey group hgroup a ha, hkey group hgroup b hb]
  · refine hordered.imp_of_mem fun {group group'} hgroup hgroup' hlt a ha b hb => ?_
    rw [firstSeen, firstSeen, hkey group hgroup a ha, hkey group' hgroup' b hb]
    exact hlt.le

theorem count_rankCredentialAttempts (attempt : ResolvedAttempt) :
    (rankCredentialAttempts lru options attempts).count attempt
      = if offered options attempts attempt then attempts.count attempt else 0 := by
  have hown : decide (targetKey attempt = targetKey attempt) = true := decide_eq_true rfl
  have hcount : (rankCredentialAttempts lru options attempts).count attempt
      = (usableOf options (deploymentOf attempts (targetKey attempt))).count attempt := by
    rw [← List.count_filter (p := fun other => decide (targetKey other = targetKey attempt)) hown,
      rankCredentialAttempts_filter]
    exact (rankOneDeployment_perm lru options _).count_eq attempt
  have hdeployment : (deploymentOf attempts (targetKey attempt)).count attempt
      = attempts.count attempt :=
    List.count_filter (p := fun other => decide (targetKey other = targetKey attempt)) hown
  rw [hcount, count_usableOf, hdeployment]
  by_cases hin : attempt ∈ attempts
  · have hmem : attempt ∈ usableOf options (deploymentOf attempts (targetKey attempt)) ↔
        offered options attempts attempt = true := by
      rw [mem_usableOf, offered, Bool.and_eq_true, Bool.or_eq_true, Bool.not_eq_true',
        Bool.not_eq_true']
      exact and_iff_right (List.mem_filter.mpr ⟨hin, hown⟩)
    simp only [hmem]
  · rw [List.count_eq_zero_of_not_mem hin, ite_self, ite_self]

end Deployments

/-- **Ranking** keeps deployments in first-seen order; it offers an attempt as often as it is
in the list where nothing rules it out, or where it is not ruled out absolutely and every attempt
of its deployment is ruled out, and else not at all; it empties no deployment with an attempt
that is not ruled out absolutely; and what it offers of one deployment depends on the attempts
of this deployment and the evidence about them. -/
theorem credential_ranking_offers (lru : CredentialLru) (options : SelectionOptions)
    (attempts : List ResolvedAttempt) :
    (rankCredentialAttempts lru options attempts).Pairwise
        (fun a b => firstSeen attempts a ≤ firstSeen attempts b) ∧
      (∀ attempt, (rankCredentialAttempts lru options attempts).count attempt
        = if offered options attempts attempt then attempts.count attempt else 0) ∧
      (∀ attempt ∈ rankCredentialAttempts lru options attempts,
        absolutelyOut attempt = false) ∧
      (∀ attempt ∈ attempts, absolutelyOut attempt = false →
        ∃ other ∈ rankCredentialAttempts lru options attempts,
          targetKey other = targetKey attempt) ∧
      ∀ (options' : SelectionOptions) (attempts' : List ResolvedAttempt) (key : String),
        options'.now = options.now → options'.quotaFreshnessMs = options.quotaFreshnessMs →
        attempts'.filter (targetKey · = key) = attempts.filter (targetKey · = key) →
        (∀ attempt ∈ attempts, targetKey attempt = key →
          options'.evidenceFor attempt = options.evidenceFor attempt) →
        (rankCredentialAttempts lru options' attempts').filter (targetKey · = key)
          = (rankCredentialAttempts lru options attempts).filter (targetKey · = key) := by
  refine ⟨rankCredentialAttempts_ordered lru options,
    count_rankCredentialAttempts lru options, ?_, ?_, ?_⟩
  · intro attempt hattempt
    -- what is ranked is offered
    have hcount : (rankCredentialAttempts lru options attempts).count attempt
        = if offered options attempts attempt then attempts.count attempt else 0 :=
      count_rankCredentialAttempts lru options attempt
    have hpos := List.count_pos_iff.mpr hattempt
    cases habsolute : absolutelyOut attempt with
    | false => rfl
    | true =>
      have hnot : offered options attempts attempt = false := by
        rw [offered, habsolute, Bool.not_true, Bool.false_and]
      rw [hcount, hnot] at hpos
      cases hpos
  · intro attempt hattempt husable
    have hin : attempt ∈ deploymentOf attempts (targetKey attempt) :=
      List.mem_filter.mpr ⟨hattempt, decide_eq_true rfl⟩
    obtain ⟨other, hother⟩ : ∃ other,
        other ∈ usableOf options (deploymentOf attempts (targetKey attempt)) :=
      exists_mem_usableOf hin husable
    have hranked := (rankOneDeployment_perm lru options _).mem_iff.mpr hother
    rw [← rankCredentialAttempts_filter] at hranked
    obtain ⟨hmem, hkey⟩ := List.mem_filter.mp hranked
    exact ⟨other, hmem, of_decide_eq_true hkey⟩
  · intro options' attempts' key hnow hfreshness hsame hevidence
    rw [rankCredentialAttempts_filter, rankCredentialAttempts_filter, deploymentOf, hsame]
    refine rankOneDeployment_congr hnow hfreshness fun attempt hattempt => ?_
    obtain ⟨hmem, hkey⟩ := List.mem_filter.mp hattempt
    exact hevidence attempt hmem (of_decide_eq_true hkey)

/-- An enabled attempt of one deployment, with its secret and any model. -/
def slotAttempt (ref : Ref) (credentialId : String) : ResolvedAttempt where
  ref := ref
  target := ⟨"p", "https://p.example", .anthropic, some "m"⟩
  credentialId := credentialId
  credentialState := .declaredPresent
  slot := ⟨true, none, ref⟩

/-- The evidence that one credential is not served the model. -/
def notServedOn (credentialId : String) : SelectionOptions where
  evidenceFor := fun _ => some
    { facts := [⟨"not-servable", .attempt "p" credentialId "m"⟩]
      health := none
      credentialFault := false
      cooling := false
      saturated := false
      quota := []
      cost := none }
  now := 0
  quotaFreshnessMs := 300000

/-- An attempt that is not ruled out absolutely is dropped: its deployment has another one,
which nothing rules out. -/
theorem credential_ranking_drops_learned :
    absolutelyOut (slotAttempt 0 "p#one") = false ∧
      slotAttempt 0 "p#one" ∈ [slotAttempt 0 "p#one", slotAttempt 1 "p#two"] ∧
      rankCredentialAttempts .fresh (notServedOn "p#one")
          [slotAttempt 0 "p#one", slotAttempt 1 "p#two"]
        = [slotAttempt 1 "p#two"] := by
  decide +kernel

end LlmRelay
