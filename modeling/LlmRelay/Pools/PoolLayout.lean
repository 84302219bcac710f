import LlmRelay.Pools.BandOrder

/-!
# Materialized pools

Every pool that a materialization fills is made from the deployments that discovery found,
each once, in rank order.

## Main definitions

* `rankedTargets`, `discoveredCosts`: what the pools are filled from.

## Main results

* `nodup_discovered`: no deployment is discovered twice;
* `foldl_fill_of_mem`: what the loop over the policies leaves under a pool;
* `dynamic_pool_laid_out_iff`: when a materialized pool is laid out as it should be.
-/

namespace LlmRelay.Pools

open Ecma Config

/-! ## Discovery -/

namespace Discovery

/-- The specs that discovery remembers are those of the deployments, each once. -/
def Kept (state : Discovery) : Prop :=
  state.discovered.map (fun target => target.provider ++ slash :: target.model)
      = state.discoveredSpecs
    ∧ state.discoveredSpecs.Nodup

theorem Kept.nodup {state : Discovery} (h : state.Kept) : state.discovered.Nodup := by
  have hnodup := h.2
  rw [← h.1] at hnodup
  exact hnodup.of_map _

theorem Kept.visit {state : Discovery} (h : state.Kept) (evidence : PoolEvidence)
    (provider model : Text) : (visit evidence provider state model).Kept := by
  unfold Discovery.visit
  dsimp only
  split
  · exact h
  · rename_i hnew
    split
    · exact h
    · refine ⟨?_, ?_⟩
      · rw [List.map_append, h.1]
        rfl
      · apply List.nodup_append.mpr
        refine ⟨h.2, List.nodup_singleton _, ?_⟩
        rintro s hs t ht rfl
        exact hnew (List.mem_singleton.mp ht ▸ hs)

end Discovery

theorem kept_discoverDynamicTargets (providers : Providers) (evidence : PoolEvidence) :
    (discoverDynamicTargets providers evidence).Kept := by
  have hmodels (provider : Text) (models : List Text) (state : Discovery) (h : state.Kept) :
      (models.foldl (Discovery.visit evidence provider) state).Kept := by
    induction models generalizing state with
    | nil => exact h
    | cons model models ih => exact ih _ (h.visit evidence provider model)
  unfold discoverDynamicTargets
  generalize hstate : Discovery.empty = state
  have h : state.Kept := by
    rw [← hstate]
    exact ⟨rfl, List.nodup_nil⟩
  clear hstate
  induction providers.entries generalizing state with
  | nil => exact h
  | cons entry entries ih =>
    apply ih
    dsimp only
    split
    · exact hmodels _ _ _ h
    · exact h

/-- What discovery found, ranked. -/
def rankedTargets (providers : Providers) (evidence : PoolEvidence) : List RankedTarget :=
  rankTargetsWithProvenance evidence (discoverDynamicTargets providers evidence).discovered

def discoveredCosts (providers : Providers) (evidence : PoolEvidence) :
    OrderedMap Text Facts.CostClass :=
  (discoverDynamicTargets providers evidence).costBySpec

/-- **No deployment is discovered twice.** -/
theorem nodup_rankedTargets (providers : Providers) (evidence : PoolEvidence) :
    (rankedTargets providers evidence).Nodup := by
  have hnodup := (kept_discoverDynamicTargets providers evidence).nodup
  unfold rankedTargets rankTargetsWithProvenance
  rw [(List.mergeSort_perm _ _).nodup_iff]
  apply hnodup.map
  intro s t heq
  exact congrArg RankedTarget.target heq

theorem strength_of_mem_rankedTargets {providers : Providers} {evidence : PoolEvidence}
    {x : RankedTarget} (hx : x ∈ rankedTargets providers evidence) :
    x.strength = getStrength (evidence.findTierModel x.spec) := by
  unfold rankedTargets rankTargetsWithProvenance at hx
  rw [List.mem_mergeSort] at hx
  obtain ⟨target, -, rfl⟩ := List.mem_map.mp hx
  rfl

/-! ## The loop over the policies -/

section Loop

variable (ranked : List RankedTarget) (costBySpec : OrderedMap Text Facts.CostClass)

theorem get?_pools_fill (maps : PoolMaps) (name pool : Text) (policy : PoolPolicy) :
    (maps.fill ranked costBySpec name policy).pools.get? pool
      = if name = pool then some (materializePool ranked costBySpec policy).members
        else maps.pools.get? pool :=
  OrderedMap.get?_set ..

theorem get?_degraded_fill (maps : PoolMaps) (name pool : Text) (policy : PoolPolicy) :
    (maps.fill ranked costBySpec name policy).degraded.get? pool
      = if name = pool ∧ (materializePool ranked costBySpec policy).degraded ≠ [] then
          some (materializePool ranked costBySpec policy).degraded
        else maps.degraded.get? pool := by
  unfold PoolMaps.fill
  dsimp only
  split
  · rename_i hnil
    rw [if_neg (fun h => h.2 hnil)]
  · rename_i hne
    rw [OrderedMap.get?_set]
    simp [hne]

variable {policies : List (Text × PoolPolicy)}

theorem foldl_fill_of_notMem {pool : Text} (h : pool ∉ policies.map Prod.fst) (maps : PoolMaps) :
    let filled := policies.foldl (fun (maps : PoolMaps) (pool, policy) =>
      maps.fill ranked costBySpec pool policy) maps
    filled.pools.get? pool = maps.pools.get? pool
      ∧ filled.degraded.get? pool = maps.degraded.get? pool := by
  induction policies generalizing maps with
  | nil => exact ⟨rfl, rfl⟩
  | cons entry policies ih =>
    rw [List.map_cons, List.mem_cons, not_or] at h
    have hne : entry.1 ≠ pool := Ne.symm h.1
    obtain ⟨hpools, hdegraded⟩ := ih h.2 (maps.fill ranked costBySpec entry.1 entry.2)
    rw [get?_pools_fill, if_neg hne] at hpools
    rw [get?_degraded_fill, if_neg (fun h => hne h.1)] at hdegraded
    exact ⟨hpools, hdegraded⟩

/-- What the loop leaves under a pool with a policy. -/
theorem foldl_fill_of_mem (hnodup : (policies.map Prod.fst).Nodup) {pool : Text}
    {policy : PoolPolicy} (hmem : (pool, policy) ∈ policies) (maps : PoolMaps)
    (hmaps : maps.degraded.get? pool = none) :
    let filled := policies.foldl (fun (maps : PoolMaps) (pool, policy) =>
      maps.fill ranked costBySpec pool policy) maps
    filled.pools.get? pool = some (materializePool ranked costBySpec policy).members
      ∧ (filled.degraded.get? pool).getD []
        = (materializePool ranked costBySpec policy).degraded := by
  induction policies generalizing maps with
  | nil => cases hmem
  | cons entry policies ih =>
    rw [List.map_cons, List.nodup_cons] at hnodup
    dsimp only
    rw [List.foldl_cons]
    rcases List.mem_cons.mp hmem with rfl | hrest
    · obtain ⟨hpools, hdegraded⟩ := foldl_fill_of_notMem ranked costBySpec
        hnodup.1 (maps.fill ranked costBySpec pool policy)
      rw [hpools, hdegraded, get?_pools_fill, if_pos rfl, get?_degraded_fill]
      refine ⟨rfl, ?_⟩
      split
      · rfl
      · rename_i hnil
        have hempty : (materializePool ranked costBySpec policy).degraded = [] := by
          by_contra hne
          exact hnil ⟨rfl, hne⟩
        rw [hmaps, hempty]
        rfl
    · have hne : entry.1 ≠ pool := by
        rintro rfl
        exact hnodup.1 (List.mem_map.mpr ⟨_, hrest, rfl⟩)
      apply ih hnodup.2 hrest (maps.fill ranked costBySpec entry.1 entry.2)
      rw [get?_degraded_fill, if_neg (fun h => hne h.1), hmaps]

end Loop

/-! ## Every pool of a materialization -/

section Run

variable {cfg cfg' : DynamicConfig} {evidence : PoolEvidence} {force : Bool} {now : Int}
  (hrun : materializeDynamicPools cfg evidence force now = (true, cfg'))
  {policies : OrderedMap Text PoolPolicy} (hpolicies : cfg.poolPolicies = some policies)
  {pool : Text} {policy : PoolPolicy} (hpolicy : policies.get? pool = some policy)

include hrun hpolicies hpolicy

theorem materializeDynamicPools_pool :
    (cfg'.pools.bind (·.get? pool)).getD []
        = (materializePool (rankedTargets cfg.providers evidence)
            (discoveredCosts cfg.providers evidence) policy).members
      ∧ (cfg'.poolDegraded.bind (·.get? pool)).getD []
        = (materializePool (rankedTargets cfg.providers evidence)
            (discoveredCosts cfg.providers evidence) policy).degraded := by
  have hmem := (OrderedMap.mem_entries_iff policies).mpr hpolicy
  unfold materializeDynamicPools at hrun
  rw [hpolicies] at hrun
  cases hpools : cfg.pools with
  | none =>
    rw [hpools] at hrun
    cases hrun
  | some pools =>
    rw [hpools] at hrun
    dsimp only at hrun
    split at hrun
    · cases hrun
    · cases hrun
      obtain ⟨hmembers, hdegraded⟩ := foldl_fill_of_mem (rankedTargets cfg.providers evidence)
        (discoveredCosts cfg.providers evidence) policies.nodup hmem
        { pools := pools, degraded := .empty } rfl
      refine ⟨?_, hdegraded⟩
      exact congrArg (Option.getD · []) hmembers

/-- **When a materialized pool is laid out as it should be**: the deployments of its band have
specs of their own, and the lower bands take their turns in their order. -/
theorem dynamic_pool_laid_out_iff (hpreferred : policy.preferred.Nodup) :
    LaidOut (discoveredCosts cfg.providers evidence) policy
        (rankedTargets cfg.providers evidence)
        ((cfg'.pools.bind (·.get? pool)).getD [])
        ((cfg'.poolDegraded.bind (·.get? pool)).getD [])
      ↔ SpecsApart policy (rankedTargets cfg.providers evidence)
        ∧ BandsInTurn (discoveredCosts cfg.providers evidence) policy
            (rankedTargets cfg.providers evidence) := by
  obtain ⟨hmembers, hdegraded⟩ := materializeDynamicPools_pool hrun hpolicies hpolicy
  have hstrength : ∀ x ∈ rankedTargets cfg.providers evidence,
      ∀ y ∈ rankedTargets cfg.providers evidence, x.spec = y.spec → x.strength = y.strength := by
    intro x hx y hy heq
    rw [strength_of_mem_rankedTargets hx, strength_of_mem_rankedTargets hy, heq]
  rw [hmembers, hdegraded]
  exact laidOut_iff hstrength (nodup_rankedTargets cfg.providers evidence) hpreferred

end Run

/-- A provider with a metered model of the band `high` and a free one of the band `low`. -/
def twoBandEvidence : PoolEvidence where
  catalogRevision := 1
  cachedModels := fun _ => [text "large", text "small"]
  tierRevision := none
  findTierModel := fun name =>
    let eligibility :=
      if name.endsWith (text "large") then [text "low", text "medium", text "high"]
      else [text "low"]
    some
      { row :=
          { strength := some (3 / 4), signalCount := some 3, capabilityConfidence := none
            publishedSignalCount := none, effortEligibility := some eligibility
            supportsTools := some true }
        match_ := .exact }
  assessCost := fun _ model => if model = text "large" then .paid else .free
  isCostBlockedForEverySlot := fun _ _ _ => false
  deploymentFitness := fun target _ => if target.model = text "large" then 70 else 60

/-- A pool of the band `xhigh`. -/
def twoBandPolicy : PoolPolicy :=
  { preferred := [], exclude := none, effort := some .xhigh }

/-- That pool over one provider. -/
def twoBandConfig : DynamicConfig where
  providers := OrderedMap.empty.set (text "p") { kind := text "openai" }
  pools := some (OrderedMap.empty.set (text "xhigh") [])
  poolPolicies := some (OrderedMap.empty.set (text "xhigh") twoBandPolicy)
  poolDegraded := none
  cached := none

/-- The pool of the two bands is filled, and is laid out only if the bands take their turns. -/
theorem dynamic_pool_laid_out_two_bands :
    ∃ cfg', materializeDynamicPools twoBandConfig twoBandEvidence false 0 = (true, cfg')
      ∧ (LaidOut (discoveredCosts twoBandConfig.providers twoBandEvidence) twoBandPolicy
            (rankedTargets twoBandConfig.providers twoBandEvidence)
            ((cfg'.pools.bind (·.get? (text "xhigh"))).getD [])
            ((cfg'.poolDegraded.bind (·.get? (text "xhigh"))).getD [])
          ↔ SpecsApart twoBandPolicy (rankedTargets twoBandConfig.providers twoBandEvidence)
            ∧ BandsInTurn (discoveredCosts twoBandConfig.providers twoBandEvidence) twoBandPolicy
                (rankedTargets twoBandConfig.providers twoBandEvidence)) := by
  have hrun : materializeDynamicPools twoBandConfig twoBandEvidence false 0
      = (true, (materializeDynamicPools twoBandConfig twoBandEvidence false 0).2) := rfl
  refine ⟨_, hrun, ?_⟩
  exact dynamic_pool_laid_out_iff hrun rfl (OrderedMap.get?_set_self _ _ _) List.nodup_nil

/-- A free spec of the band `low` comes before a metered one of the band `high`. -/
theorem dynamic_pool_weaker_band_first :
    ¬∀ (cfg cfg' : DynamicConfig) (evidence : PoolEvidence) (force : Bool) (now : Int),
      materializeDynamicPools cfg evidence force now = (true, cfg') →
      ∀ policies, cfg.poolPolicies = some policies →
      ∀ pool policy, policies.get? pool = some policy → policy.preferred.Nodup →
        LaidOut (discoveredCosts cfg.providers evidence) policy
          (rankedTargets cfg.providers evidence)
          ((cfg'.pools.bind (·.get? pool)).getD [])
          ((cfg'.poolDegraded.bind (·.get? pool)).getD []) := by
  intro h
  let large := rankTarget twoBandEvidence { provider := text "p", model := text "large" }
  let small := rankTarget twoBandEvidence { provider := text "p", model := text "small" }
  have hpolicy : (OrderedMap.empty.set (text "xhigh") twoBandPolicy).get? (text "xhigh")
      = some twoBandPolicy := OrderedMap.get?_set_self _ _ _
  have hrun : materializeDynamicPools twoBandConfig twoBandEvidence false 0
      = (true, (materializeDynamicPools twoBandConfig twoBandEvidence false 0).2) := rfl
  have hlaid := h _ _ _ _ _ hrun _ rfl _ twoBandPolicy hpolicy List.nodup_nil
  have hleft := materializeDynamicPools_pool hrun rfl hpolicy
  have hranked : rankedTargets twoBandConfig.providers twoBandEvidence = [large, small] :=
    List.mergeSort_of_pairwise (by decide +kernel)
  have hspecs : specsAmong (inLowerBand twoBandPolicy) [large, small] = [large, small] := by
    decide +kernel
  have hsmall : bandOf twoBandPolicy small = some .low := by decide +kernel
  -- the free spec of the band `low` precedes the metered one of the band `high`
  have hmade : (materializePool [large, small]
      (discoveredCosts twoBandConfig.providers twoBandEvidence) twoBandPolicy).degraded
        = [small.spec, large.spec] := by
    decide +kernel
  obtain ⟨band, -, -, hlower⟩ := hlaid.parts
  rw [hleft.2, hranked, hspecs, hmade] at hlower
  apply hlower.bands small (by simp) large (by simp) _ (List.Sublist.refl _)
  show EFFORT_LEVELS.idxOf .low < EFFORT_LEVELS.idxOf .high
  decide

end LlmRelay.Pools
