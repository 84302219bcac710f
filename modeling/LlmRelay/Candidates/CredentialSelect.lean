import LlmRelay.Ecma.Date
import LlmRelay.Kernel.RequestLifecycle
import Mathlib.Data.List.Perm.Subperm
import Mathlib.Data.List.Sort

/-!
# Credential selection

Grouping attempts by deployment and ranking the credentials of each deployment
(`credential-select.ts`).

## Main definitions

* `ResolvedAttempt`: a deployment together with one credential slot;
* `FactScope`, `scopeMatches`: what a learned fact applies to;
* `groupCredentialAttempts`: the deployments in first-seen order;
* `rankCredentialAttempts`: the ranked attempts.

## Main results

* `groupCredentialAttempts_spec`: the groups have distinct keys, each attempt
  stands in the group of its key, and nothing is lost;
* `rankCredentialAttempts_subperm`: ranking only reorders and drops.
-/

namespace LlmRelay

open Ecma

/-! ## Attempts -/

/-- Whether a slot's secret is there. -/
inductive CredentialState where
  | notDeclared
  | declaredPresent
  | declaredMissing
  deriving DecidableEq, Repr, Inhabited

/-- The part of a resolved target that selection reads. -/
structure ResolvedTarget where
  provider : String
  base : String
  kind : ProviderKind
  model : Option String
  deriving DecidableEq, Repr, Inhabited

/-- The part of a credential slot that selection reads. -/
structure CredentialSlot where
  enabled : Bool
  models : Option (List String)
  configIndex : Nat
  deriving DecidableEq, Repr, Inhabited

/-- A deployment with one credential slot; `ref` is the object's identity. -/
structure ResolvedAttempt where
  ref : Ref
  target : ResolvedTarget
  credentialId : String
  credentialState : CredentialState
  slot : CredentialSlot
  deriving DecidableEq, Repr, Inhabited

/-- What a learned fact applies to. -/
inductive FactScope where
  | attempt (provider credentialId model : String)
  | group (provider : String) (credentialId : Option String) (members : List String)
  | deployment (provider model : String)
  | credential (provider credentialId : String)
  | provider (provider : String)
  | model (model : String)
  deriving DecidableEq, Repr

/-- A learned fact. -/
structure CredentialFact where
  kind : String
  scope : FactScope
  deriving DecidableEq, Repr

/-- The deployment key of an attempt. -/
def targetKey (attempt : ResolvedAttempt) : String :=
  attempt.target.provider ++ "\x00" ++ attempt.target.base ++ "\x00"
    ++ attempt.target.model.getD ""

/-- Does a scope cover an attempt? -/
def scopeMatches (scope : FactScope) (attempt : ResolvedAttempt) : Bool :=
  let provider := attempt.target.provider
  let model := attempt.target.model.getD ""
  match scope with
  | .attempt p c m => p = provider && c = attempt.credentialId && m = model
  | .credential p c => p = provider && c = attempt.credentialId
  | .deployment p m => p = provider && m = model
  | .provider p => p = provider
  | .model m => m = model
  | .group p c members =>
    p = provider && model ≠ "" && members.contains model
      && (c.isNone || c = some attempt.credentialId)

theorem eq_of_append_cons_eq {α : Type*} {c : α} {l₁ l₂ r₁ r₂ : List α} (h₁ : c ∉ l₁)
    (h₂ : c ∉ l₂) (h : l₁ ++ c :: r₁ = l₂ ++ c :: r₂) : l₁ = l₂ := by
  induction l₁ generalizing l₂ with
  | nil =>
    cases l₂ with
    | nil => rfl
    | cons b l₂ => exact absurd (by simp_all) h₂
  | cons a l₁ ih =>
    cases l₂ with
    | nil => exact absurd (by simp_all) h₁
    | cons b l₂ =>
      simp only [List.cons_append, List.cons.injEq] at h
      rw [h.1, ih (fun hc => h₁ (List.mem_cons_of_mem _ hc))
        (fun hc => h₂ (List.mem_cons_of_mem _ hc)) h.2]

theorem provider_eq_of_targetKey_eq {a b : ResolvedAttempt}
    (ha : '\x00' ∉ a.target.provider.toList) (hb : '\x00' ∉ b.target.provider.toList)
    (h : targetKey a = targetKey b) : a.target.provider = b.target.provider := by
  have hlist := congrArg String.toList h
  have hnul : "\x00".toList = ['\x00'] := rfl
  simp only [targetKey, String.toList_append, List.append_assoc] at hlist
  exact String.toList_inj.mp (eq_of_append_cons_eq ha hb hlist)

/-! ## Ranking -/

/-- How healthy a credential's cell is. -/
inductive CredentialHealth where
  | healthy
  | degraded
  | unhealthy
  | unknown
  deriving DecidableEq, Repr

/-- What a deployment costs. -/
inductive CredentialCost where
  | free
  | paid
  | unknown
  deriving DecidableEq, Repr

/-- The live evidence about one attempt. -/
structure CredentialSelectionEvidence where
  facts : List CredentialFact
  health : Option CredentialHealth
  credentialFault : Bool
  cooling : Bool
  saturated : Bool
  quota : List QuotaObservation
  cost : Option CredentialCost

/-- Credential-wide use order. -/
structure CredentialLru where
  lastUsed : OrderedMap String Nat
  sequence : Nat

/-- A use order nothing was used in. -/
def CredentialLru.fresh : CredentialLru := ⟨.empty, 0⟩

/-- Marks a credential as the one used last. -/
def CredentialLru.touch (lru : CredentialLru) (credentialId : String) : CredentialLru where
  lastUsed := lru.lastUsed.set credentialId (lru.sequence + 1)
  sequence := lru.sequence + 1

/-- Unseen credentials rank first, then the least recently used. -/
def CredentialLru.rank (lru : CredentialLru) (credentialId : String) : Nat :=
  (lru.lastUsed.get? credentialId).getD 0

/-- The first instant of the current period; `none` where it is not known. -/
def periodStart (now : Number) (period : QuotaPeriod) : Option Number :=
  match now with
  | .fin q =>
    match period with
    | .minute => some (.fin (startOfMinute q))
    | .day => some ((timeClip now).elim .nan fun t => .fin (startOfDay t))
    | .month => some ((timeClip now).elim .nan fun t => .fin (startOfMonth t))
    | .unknown => none
  | _ => none

/-- Is a quota figure fresh, unexpired, well formed and of the current period? -/
def isFreshQuota (now freshnessMs : Number) (observation : QuotaObservation) : Bool :=
  observation.observedAt.isFinite
    && observation.observedAt.le now
    && (now.sub observation.observedAt).le freshnessMs
    && observation.resetsAt.all now.lt
    && observation.limit.isFinite && Number.lt 0 observation.limit
    && observation.remaining.isFinite && Number.le 0 observation.remaining
    && (periodStart now observation.period).all fun start => start.le observation.observedAt

/-- The percentage of a figure that is left. -/
def headroomOf (observation : QuotaObservation) : ℚ :=
  match observation.remaining, observation.limit with
  | .fin remaining, .fin limit => remaining / limit * 100
  | _, _ => 0

/-- The band of the tightest fresh quota figure: ample, unknown, tight, spent. -/
def headroomBand (quota : List QuotaObservation) (now freshnessMs : Number) : Nat :=
  match quota.filter (isFreshQuota now freshnessMs) with
  | [] => 1
  | first :: rest =>
    let minimum := (rest.map headroomOf).foldl min (headroomOf first)
    if minimum ≤ 0 then 3 else if minimum ≤ 10 then 2 else 0

/-- How far evidence demotes an attempt. -/
def demotionBand : Option CredentialSelectionEvidence → Nat
  | none => 0
  | some evidence =>
    if evidence.health = some .unhealthy then 4
    else if evidence.cooling then 3
    else if evidence.credentialFault then 2
    else if evidence.saturated || evidence.health = some .degraded then 1
    else 0

/-- Free before everything else. -/
def costBand (cost : Option CredentialCost) : Nat :=
  if cost = some .free then 0 else 1

/-- An attempt with what was found out about it. -/
structure Ranked where
  attempt : ResolvedAttempt
  index : Nat
  hard : Bool
  absolute : Bool

/-- The options of a selection: evidence for each attempt, the clock and the
freshness bound. -/
structure SelectionOptions where
  evidenceFor : ResolvedAttempt → Option CredentialSelectionEvidence
  now : Number
  quotaFreshnessMs : Number

/-- The ranks an attempt is compared by, the most important first. Attempts of
one deployment differ in the last of them. -/
def ranksOf (lru : CredentialLru) (options : SelectionOptions) (a : Ranked) : List Nat :=
  let evidence := options.evidenceFor a.attempt
  [ if a.hard then 1 else 0,
    demotionBand evidence,
    headroomBand ((evidence.map (·.quota)).getD []) options.now options.quotaFreshnessMs,
    costBand (evidence.bind (·.cost)),
    lru.rank a.attempt.credentialId,
    a.attempt.slot.configIndex,
    a.index ]

/-- Lexicographic comparison of ranks: not after. -/
def ranksLe : List Nat → List Nat → Bool
  | a :: as, b :: bs => if a = b then ranksLe as bs else a < b
  | _, _ => true

/-- What rules an attempt of a deployment out. -/
def rankedOf (options : SelectionOptions) (attempt : ResolvedAttempt) (index : Nat) : Ranked :=
  let facts := ((options.evidenceFor attempt).map (·.facts)).getD []
  let matching := facts.filter fun fact => scopeMatches fact.scope attempt
  let modelAllowed := attempt.slot.models.all fun models =>
    attempt.target.model.any fun model => models.contains model
  let hasSecret := attempt.credentialState ≠ .declaredMissing
  let absolute := !attempt.slot.enabled || !hasSecret || !modelAllowed
  { attempt
    index
    hard := absolute
      || matching.any fun fact =>
        fact.kind = "not-servable" || fact.kind = "subscription-required"
    absolute }

/-- Ranks the credentials of one deployment; where every one is ruled out by
learned facts, these stay as a last resort. -/
def rankOneDeployment (lru : CredentialLru) (options : SelectionOptions)
    (deployment : List ResolvedAttempt) : List ResolvedAttempt :=
  let ranked := deployment.zipIdx.map fun entry => rankedOf options entry.1 entry.2
  let survivors := ranked.filter fun candidate => !candidate.absolute && !candidate.hard
  let nonAbsolute := ranked.filter fun candidate => !candidate.absolute
  let usable := if survivors.isEmpty then nonAbsolute else survivors
  (usable.insertionSort fun a b =>
    ranksLe (ranksOf lru options a) (ranksOf lru options b) = true).map Ranked.attempt

/-- A deployment with its attempts. -/
structure DeploymentCredentialGroup where
  key : String
  attempts : List ResolvedAttempt
  deriving DecidableEq, Repr

/-- The first attempt of a deployment. -/
def DeploymentCredentialGroup.first (group : DeploymentCredentialGroup) : ResolvedAttempt :=
  group.attempts.headD default

/-- Files an attempt under its deployment key. -/
def fileAttempt (groups : OrderedMap String (List ResolvedAttempt)) (attempt : ResolvedAttempt) :
    OrderedMap String (List ResolvedAttempt) :=
  groups.set (targetKey attempt) ((groups.get? (targetKey attempt)).getD [] ++ [attempt])

/-- Groups attempts by deployment, in first-seen order. -/
def groupCredentialAttempts (attempts : List ResolvedAttempt) : List DeploymentCredentialGroup :=
  (attempts.foldl fileAttempt .empty).entries.map fun entry => ⟨entry.1, entry.2⟩

/-- Ranks the credentials within each deployment; deployments keep their order. -/
def rankCredentialAttempts (lru : CredentialLru) (options : SelectionOptions)
    (attempts : List ResolvedAttempt) : List ResolvedAttempt :=
  (groupCredentialAttempts attempts).flatMap fun group =>
    rankOneDeployment lru options group.attempts

/-! ## Grouping loses nothing -/

theorem values_fileAttempt_perm (groups : OrderedMap String (List ResolvedAttempt))
    (attempt : ResolvedAttempt) :
    (fileAttempt groups attempt).values.flatten.Perm (groups.values.flatten ++ [attempt]) := by
  unfold fileAttempt OrderedMap.values OrderedMap.set OrderedMap.get?
  simp only
  generalize groups.entries = entries
  induction entries with
  | nil => simp [setEntry, lookupEntry]
  | cons entry rest ih =>
    by_cases hkey : entry.1 = targetKey attempt
    · simp only [setEntry, lookupEntry, hkey, if_true, List.map_cons,
        List.flatten_cons, List.append_assoc]
      exact List.Perm.append_left _ List.perm_append_comm
    · simp only [setEntry, lookupEntry, hkey, List.map_cons, List.flatten_cons, List.append_assoc]
      exact List.Perm.append_left _ ih

theorem fileAttempt_keyed {groups : OrderedMap String (List ResolvedAttempt)}
    (h : ∀ k l, groups.get? k = some l → ∀ a ∈ l, targetKey a = k) (attempt : ResolvedAttempt)
    {k : String} {l : List ResolvedAttempt} (hget : (fileAttempt groups attempt).get? k = some l)
    {a : ResolvedAttempt} (ha : a ∈ l) : targetKey a = k := by
  unfold fileAttempt at hget
  rw [OrderedMap.get?_set] at hget
  split_ifs at hget with hkey
  · cases hget
    rcases List.mem_append.mp ha with hold | hnew
    · cases hgroup : groups.get? (targetKey attempt) with
      | none => simp [hgroup] at hold
      | some old =>
        rw [hgroup] at hold
        exact (h _ old hgroup a hold).trans hkey
    · rw [List.mem_singleton.mp hnew]
      exact hkey
  · exact h k l hget a ha

/-- **Grouping** gives distinct keys, puts each attempt in the group of its key
and loses nothing. -/
theorem groupCredentialAttempts_spec (attempts : List ResolvedAttempt) :
    ((groupCredentialAttempts attempts).map (·.key)).Nodup ∧
      (∀ group ∈ groupCredentialAttempts attempts, ∀ a ∈ group.attempts,
        targetKey a = group.key) ∧
      ((groupCredentialAttempts attempts).flatMap (·.attempts)).Perm attempts := by
  have hfold : (∀ k l, (attempts.foldl fileAttempt .empty).get? k = some l →
      ∀ a ∈ l, targetKey a = k) ∧
      (attempts.foldl fileAttempt .empty).values.flatten.Perm attempts := by
    induction attempts using List.reverseRecOn with
    | nil => exact ⟨fun k l h => (by cases h), List.Perm.nil⟩
    | append_singleton attempts attempt ih =>
      rw [List.foldl_append]
      exact ⟨fun k l hget a ha => fileAttempt_keyed ih.1 attempt hget ha,
        (values_fileAttempt_perm _ attempt).trans (ih.2.append_right _)⟩
  refine ⟨?_, ?_, ?_⟩
  · have hnodup := (attempts.foldl fileAttempt .empty).nodup
    simpa [groupCredentialAttempts, Function.comp_def] using hnodup
  · intro group hgroup a ha
    obtain ⟨entry, hentry, rfl⟩ := List.mem_map.mp hgroup
    exact hfold.1 entry.1 entry.2 ((OrderedMap.mem_entries_iff _).mp hentry) a ha
  · have hvalues := hfold.2
    simpa [groupCredentialAttempts, OrderedMap.values, List.flatMap,
      Function.comp_def] using hvalues

theorem rankOneDeployment_subperm (lru : CredentialLru) (options : SelectionOptions)
    (deployment : List ResolvedAttempt) :
    (rankOneDeployment lru options deployment).Subperm deployment := by
  have hranked : (deployment.zipIdx.map fun entry => rankedOf options entry.1 entry.2).map
      Ranked.attempt = deployment := by
    simp [rankedOf, Function.comp_def]
  refine ((List.perm_insertionSort _ _).map _).subperm.trans ?_
  split_ifs
  · exact (((List.filter_sublist).map Ranked.attempt).subperm).trans (by rw [hranked])
  · exact (((List.filter_sublist).map Ranked.attempt).subperm).trans (by rw [hranked])

/-- **Ranking** only reorders and drops attempts. -/
theorem rankCredentialAttempts_subperm (lru : CredentialLru) (options : SelectionOptions)
    (attempts : List ResolvedAttempt) :
    (rankCredentialAttempts lru options attempts).Subperm attempts := by
  refine List.Subperm.trans ?_ (groupCredentialAttempts_spec attempts).2.2.subperm
  unfold rankCredentialAttempts
  generalize groupCredentialAttempts attempts = groups
  induction groups with
  | nil => exact List.Subperm.refl _
  | cons group rest ih =>
    exact (rankOneDeployment_subperm lru options group.attempts).append ih

end LlmRelay
