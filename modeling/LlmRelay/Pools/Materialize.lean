import LlmRelay.Config.RoutingParser
import LlmRelay.Ecma.RoundRobin
import LlmRelay.Facts.Store

/-!
# Dynamic pools

A pool with a policy is filled from the catalogs (`dynamic-pools.ts`): the preferred prefix,
then the discovered specs of the pool's effort band, then those of the lower bands. Which band
admits a model is told from published evidence (`benchmarks.ts`).

What is measured outside is in `PoolEvidence`: the cached catalogs, the rows of the tier data,
the cost of a deployment and whether it is blocked, and the fitness that deployments are ranked
by.

## Main definitions

* `getStrength`, `strengthAllowedForEffort`: the evidence for a model, and its bands;
* `discoverDynamicTargets`, `rankTargetsWithProvenance`: the deployments, ranked;
* `computeDegradeTail`, `orderBandByCost`: the lower bands, and the order of a part;
* `materializePool`, `materializeDynamicPools`: one round of the loop, and the whole.
-/

namespace LlmRelay.Pools

open Ecma Config

/-! ## Evidence -/

/-- The bands, weakest first. -/
def EFFORT_LEVELS : List Config.EffortLevel :=
  [.low, .medium, .high, .xhigh]

inductive StrengthBasis where
  | snapshot | neutral
  deriving DecidableEq

/-- Whether a row is about the model, or about one with a similar name. -/
inductive SkuMatch where
  | exact | fuzzy
  deriving DecidableEq

structure Strength where
  score : ℚ
  rawScore : ℚ
  confidence : ℚ
  basis : StrengthBasis
  signalCount : Option ℚ := none
  publishedSignalCount : Option ℚ := none
  effortEligibility : Option (List Config.EffortLevel) := none
  match_ : Option SkuMatch := none
  deriving DecidableEq

/-- What is read of a row of the tier data. -/
structure TierRecord where
  strength : Option ℚ
  signalCount : Option ℚ
  capabilityConfidence : Option ℚ
  publishedSignalCount : Option ℚ
  effortEligibility : Option (List Text)
  supportsTools : Option Bool

/-- What `findTierModel` finds. -/
structure TierHit where
  row : TierRecord
  match_ : SkuMatch

def NEUTRAL : ℚ := 50

/-- `Math.round`: a half is rounded up. -/
def round (x : ℚ) : ℚ :=
  ⌊x + 1 / 2⌋

def evidenceConfidence (basis : StrengthBasis) (signalCount : ℚ) (match_ : SkuMatch) : ℚ :=
  match basis with
  | .neutral => 0
  | .snapshot => min 1 (max 0 signalCount / 5) * if match_ = .fuzzy then 1 / 2 else 1

def confidenceAdjustedScore (rawScore confidence : ℚ) : ℚ :=
  round ((NEUTRAL + (rawScore - NEUTRAL) * confidence) * 10) / 10

/-- `getStrength` of what the tier data has about a model. -/
def getStrength (hit : Option TierHit) : Strength :=
  match hit.bind fun hit => hit.row.strength.map (hit, ·) with
  | some (hit, strength) =>
    let rawScore := round (strength * 1000) / 10
    let signalCount := hit.row.signalCount.getD 0
    let snapshotConfidence :=
      match hit.row.capabilityConfidence with
      | some confidence => max 0 (min 1 confidence)
      | none => evidenceConfidence .snapshot signalCount .exact
    let confidence := snapshotConfidence * if hit.match_ = .fuzzy then 1 / 2 else 1
    { score := confidenceAdjustedScore rawScore confidence
      rawScore := rawScore
      confidence := confidence
      basis := .snapshot
      signalCount := some signalCount
      publishedSignalCount := some (hit.row.publishedSignalCount.getD signalCount)
      effortEligibility := hit.row.effortEligibility.map (·.filterMap Config.EffortLevel.ofText?)
      match_ := some hit.match_ }
  | none => { score := NEUTRAL, rawScore := NEUTRAL, confidence := 0, basis := .neutral }

def EFFORT_FLOORS : Config.EffortLevel → ℚ
  | .low => 50
  | .medium => 60
  | .high => 70
  | .xhigh => 80

/-- Whether a discovered model belongs in an effort pool. -/
def strengthAllowedForEffort (strength : Strength) (effort : Config.EffortLevel) : Bool :=
  let clearsFloor :=
    match strength.effortEligibility with
    | some eligibility => eligibility.contains effort
    | none => decide (EFFORT_FLOORS effort ≤ round strength.rawScore)
  decide (strength.basis = .snapshot) && decide (strength.match_ = some .exact)
    && decide (3 ≤ (strength.publishedSignalCount.or strength.signalCount).getD 0) && clearsFloor

/-! ## Discovery -/

structure ResolvedTarget where
  provider : Text
  model : Text
  deriving DecidableEq

/-- The spec of a target; an empty model id counts as absent. -/
def specOfTarget (target : ResolvedTarget) : Text :=
  if target.model = [] then target.provider else target.provider ++ slash :: target.model

/-- What is known outside the configuration. -/
structure PoolEvidence where
  catalogRevision : Nat
  /-- The model ids that a provider's catalog has cached. -/
  cachedModels : Text → List Text
  tierRevision : Option Text
  findTierModel : Text → Option TierHit
  /-- The cost class of a provider's model. -/
  assessCost : Text → Text → Facts.CostClass
  /-- Whether a block on costs holds the deployment back for every credential. -/
  isCostBlockedForEverySlot : Text → Text → Facts.CostClass → Bool
  /-- The fitness of a deployment of that strength. -/
  deploymentFitness : ResolvedTarget → Strength → ℚ

structure Discovery where
  discovered : List ResolvedTarget
  discoveredSpecs : List Text
  costBySpec : OrderedMap Text Facts.CostClass

namespace Discovery

def empty : Discovery := { discovered := [], discoveredSpecs := [], costBySpec := .empty }

/-- One round of the loop over the models of a provider. -/
def visit (evidence : PoolEvidence) (provider : Text) (state : Discovery) (model : Text) :
    Discovery :=
  let spec := provider ++ slash :: model
  if spec ∈ state.discoveredSpecs then state
  else
    let cost := evidence.assessCost provider model
    if evidence.isCostBlockedForEverySlot provider model cost then state
    else
      { discovered := state.discovered ++ [{ provider := provider, model := model }]
        discoveredSpecs := state.discoveredSpecs ++ [spec]
        costBySpec := state.costBySpec.set spec cost }

end Discovery

/-- The deployments of the openai providers that no block on costs holds back. -/
def discoverDynamicTargets (providers : Providers) (evidence : PoolEvidence) : Discovery :=
  providers.entries.foldl (fun state (provider, p) =>
    if p.kind = text "openai" then
      (evidence.cachedModels provider).foldl (Discovery.visit evidence provider) state
    else state) .empty

/-! ## Ranking -/

structure RankedTarget where
  target : ResolvedTarget
  strength : Strength
  fitness : ℚ
  supportsTools : Option Bool
  deriving DecidableEq

def RankedTarget.spec (entry : RankedTarget) : Text :=
  specOfTarget entry.target

/-- Only a row about the very model tells whether it supports tools. -/
def supportsTools (evidence : PoolEvidence) (target : ResolvedTarget) : Option Bool :=
  if target.model = [] then none
  else
    match evidence.findTierModel target.model with
    | some { row, match_ := .exact } => row.supportsTools
    | _ => none

def BASIS_CONFIDENCE : StrengthBasis → Nat
  | .snapshot => 1
  | .neutral => 0

/-- The sort does not put `b` before `a`. -/
def RankedTarget.noLater (a b : RankedTarget) : Bool :=
  if b.fitness ≠ a.fitness then decide (b.fitness < a.fitness)
  else if b.strength.score ≠ a.strength.score then decide (b.strength.score < a.strength.score)
  else if BASIS_CONFIDENCE b.strength.basis ≠ BASIS_CONFIDENCE a.strength.basis then
    decide (BASIS_CONFIDENCE b.strength.basis < BASIS_CONFIDENCE a.strength.basis)
  else decide (b.strength.signalCount.getD 0 ≤ a.strength.signalCount.getD 0)

def rankTarget (evidence : PoolEvidence) (target : ResolvedTarget) : RankedTarget :=
  let strength := getStrength (evidence.findTierModel (specOfTarget target))
  { target := target
    strength := strength
    fitness := evidence.deploymentFitness target strength
    supportsTools := supportsTools evidence target }

def rankTargetsWithProvenance (evidence : PoolEvidence) (targets : List ResolvedTarget) :
    List RankedTarget :=
  (targets.map (rankTarget evidence)).mergeSort RankedTarget.noLater

/-! ## One pool -/

/-- The bands below one, strongest first. -/
def lowerBands (effort : Config.EffortLevel) : List Config.EffortLevel :=
  (EFFORT_LEVELS.take (EFFORT_LEVELS.idxOf effort)).reverse

/-- The tail of a pool while it is collected, with the specs that it must not repeat. -/
structure TailState where
  seen : List Text
  tail : List RankedTarget

/-- One round of the inner loop of `computeDegradeTail`. -/
def TailState.visit (band : Config.EffortLevel) (state : TailState) (entry : RankedTarget) :
    TailState :=
  if entry.spec ∈ state.seen ∨ strengthAllowedForEffort entry.strength band = false then state
  else { seen := state.seen ++ [entry.spec], tail := state.tail ++ [entry] }

def computeDegradeTail (usable : List RankedTarget) (effort : Option Config.EffortLevel)
    (inBandSpecs : List Text) : List RankedTarget :=
  match effort with
  | none => []
  | some effort =>
    ((lowerBands effort).foldl (fun state band => usable.foldl (TailState.visit band) state)
      { seen := inBandSpecs, tail := [] }).tail

/-- Whether a spec is recorded as free. -/
def isFree (costBySpec : OrderedMap Text Facts.CostClass) (spec : Text) : Bool :=
  decide (costBySpec.get? spec = some .free)

def interleaveByProvider (entries : List RankedTarget) : List RankedTarget :=
  interleaveBy (fun entry => entry.target.provider) entries

def orderBandByCost (entries : List RankedTarget)
    (costBySpec : OrderedMap Text Facts.CostClass) : List RankedTarget :=
  let free := entries.filter fun e => isFree costBySpec e.spec
  let rest := entries.filter fun e => !isFree costBySpec e.spec
  interleaveByProvider free ++ interleaveByProvider rest

/-- The specs of a pool, and those of its degrade tail. -/
structure MaterializedPool where
  members : List Text
  degraded : List Text

/-- What a policy lets an agent use: it is not excluded, and not known to lack tools. -/
def usableFor (policy : PoolPolicy) (entry : RankedTarget) : Bool :=
  decide (entry.spec ∉ policy.exclude.getD []) && decide (entry.supportsTools ≠ some false)

/-- Those that the band of a policy admits; without a band, all. -/
def inBandEntries (policy : PoolPolicy) (usable : List RankedTarget) : List RankedTarget :=
  match policy.effort with
  | some effort => usable.filter fun entry => strengthAllowedForEffort entry.strength effort
  | none => usable

/-- One round of the loop of `materializeDynamicPools`. -/
def materializePool (ranked : List RankedTarget) (costBySpec : OrderedMap Text Facts.CostClass)
    (policy : PoolPolicy) : MaterializedPool :=
  let excluded := policy.exclude.getD []
  let preferred := policy.preferred.filter fun spec => decide (spec ∉ excluded)
  let usable := ranked.filter (usableFor policy)
  let inBand := inBandEntries policy usable
  let inBandSpecs := inBand.map RankedTarget.spec
  let tail := computeDegradeTail usable policy.effort inBandSpecs
  let bandOrder := ((orderBandByCost inBand costBySpec).map RankedTarget.spec).filter
    fun s => decide (s ∉ preferred)
  let tailOrder := ((orderBandByCost tail costBySpec).map RankedTarget.spec).filter
    fun s => decide (s ∉ preferred) && decide (s ∉ inBandSpecs)
  { members := preferred ++ bandOrder ++ tailOrder, degraded := tailOrder }

/-! ## The whole -/

def DYNAMIC_POOL_RANKING_EPOCH_MS : Int := 30000

/-- What a materialization was made from. -/
structure Signature where
  catalogRevision : Nat
  tierRevision : Option Text
  epoch : Int
  policies : OrderedMap Text PoolPolicy
  deriving DecidableEq

/-- The part of the configuration that materialization reads and writes, with the signature
that is cached for it. -/
structure DynamicConfig where
  providers : Providers
  pools : Option (OrderedMap Text (List Text))
  poolPolicies : Option (OrderedMap Text PoolPolicy)
  poolDegraded : Option (OrderedMap Text (List Text))
  cached : Option Signature

/-- The maps while the pools are filled. -/
structure PoolMaps where
  pools : OrderedMap Text (List Text)
  degraded : OrderedMap Text (List Text)

def PoolMaps.fill (ranked : List RankedTarget) (costBySpec : OrderedMap Text Facts.CostClass)
    (maps : PoolMaps) (pool : Text) (policy : PoolPolicy) : PoolMaps :=
  let made := materializePool ranked costBySpec policy
  { pools := maps.pools.set pool made.members
    degraded :=
      if made.degraded = [] then maps.degraded else maps.degraded.set pool made.degraded }

/-- `materializeDynamicPools`; the answer tells whether the pools were filled. -/
def materializeDynamicPools (cfg : DynamicConfig) (evidence : PoolEvidence) (force : Bool)
    (now : Int) : Bool × DynamicConfig :=
  match cfg.poolPolicies, cfg.pools with
  | some policies, some pools =>
    let signature : Signature :=
      { catalogRevision := evidence.catalogRevision
        tierRevision := evidence.tierRevision
        epoch := now / DYNAMIC_POOL_RANKING_EPOCH_MS
        policies := policies }
    if force = false ∧ cfg.cached = some signature then (false, cfg)
    else
      let discovery := discoverDynamicTargets cfg.providers evidence
      let ranked := rankTargetsWithProvenance evidence discovery.discovered
      let maps := policies.entries.foldl (fun (maps : PoolMaps) (pool, policy) =>
        maps.fill ranked discovery.costBySpec pool policy) { pools := pools, degraded := .empty }
      (true,
        { cfg with
          pools := some maps.pools
          poolDegraded := some maps.degraded
          cached := some signature })
  | _, _ => (false, cfg)

end LlmRelay.Pools
