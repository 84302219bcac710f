import LlmRelay.Config.RoutingParser

/-!
# Disabled providers

A provider that is disabled leaves the map of providers and is named in `disabledProviders`.
What the parser then makes of a block that it accepts otherwise is the block without the
references to the provider, unless an array pool loses all its members, which is refused.

## Main definitions

* `Routing.without`: a block without the references to a set of providers;
* `Providers.without`: the providers that are left;
* `Resolvable`: every spec of the block names something.

## Main results

* `fst_degradeDisabledRouting`: the loops of the degradation remove the references;
* `parsePools_disabled`, `parsePools_disabled_error`: the pools of the two runs;
* `Resolvable.without`: what is left still resolves;
* `parseRouting_disabled`: the two runs of the parser.
-/

namespace LlmRelay.Config

open Ecma

variable {α : Type}

theorem assign_of_ne {k : Text} (h : k ≠ protoName) (map : OrderedMap Text α) (v : α) :
    assign map k v = map.set k v :=
  if_neg h

/-! ## Blocks without references -/

section Without

variable (disabled : List Text)

/-- What is left of a spec, if anything. -/
def Spec.without : Spec → Option Spec
  | .single s => if keepsMember disabled s then some (.single s) else none
  | .list specs _ =>
    if h : specs.filter (keepsMember disabled) = [] then none else some (.list _ h)

/-- A rung that addresses no disabled provider. -/
def LadderRung.survives (rung : LadderRung) : Bool :=
  match rung.kind, rung.spec with
  | .relay, some spec => keepsMember disabled spec
  | _, _ => true

/-- What is left of a ladder, if anything. -/
def rungsWithout (rungs : List LadderRung) : Option (List LadderRung) :=
  if rungs.filter (LadderRung.survives disabled) = [] then none
  else some (rungs.filter (LadderRung.survives disabled))

/-- What is left of a policy: the prefix loses members. -/
def PoolPolicy.without (policy : PoolPolicy) : PoolPolicy :=
  { policy with preferred := policy.preferred.filter (keepsMember disabled) }

/-- A block without the references to the providers of the set: members of pools, preferred
prefixes, tiers, subagents, relay rungs and the members of a default that is a list. -/
def Routing.without {β : Type} (routing : Routing β) : Routing β :=
  { routing with
    default_ := (routing.default_.without disabled).getD routing.default_
    tiers := routing.tiers.filterMapValues (Spec.without disabled)
    pools := routing.pools.map (·.mapValues (·.filter (keepsMember disabled)))
    poolPolicies := routing.poolPolicies.map (·.mapValues (PoolPolicy.without disabled))
    subagents := routing.subagents.map (·.filterMapValues (Spec.without disabled))
    ladder := routing.ladder.bind (rungsWithout disabled)
    ladders := routing.ladders.bind fun ladders =>
      unlessEmpty (ladders.filterMapValues (rungsWithout disabled)) }

/-- The providers that are left. -/
def Providers.without (providers : Providers) : Providers where
  entries := providers.entries.filter fun e => decide (e.1 ∉ disabled)
  nodup := providers.nodup.sublist (List.filter_sublist.map _)

end Without

section Removal

variable {disabled : List Text}

@[simp] theorem keepsMember_nil (s : Text) : keepsMember [] s = true := by
  simp [keepsMember]

@[simp] theorem filter_keepsMember_nil (ss : List Text) : ss.filter (keepsMember []) = ss :=
  List.filter_eq_self.mpr fun s _ => keepsMember_nil s

@[simp] theorem Spec.without_nil (spec : Spec) : spec.without [] = some spec := by
  cases spec with
  | single s => simp [Spec.without]
  | list specs h => simp [Spec.without, h]

theorem LadderRung.survives_nil (rung : LadderRung) : rung.survives [] = true := by
  unfold LadderRung.survives
  split <;> simp

theorem filter_survives_nil (rungs : List LadderRung) :
    rungs.filter (LadderRung.survives []) = rungs :=
  List.filter_eq_self.mpr fun rung _ => rung.survives_nil

theorem bind_rungsWithout_nil (rungs : List LadderRung) :
    (rungsWithout [] rungs).bind (rungsWithout disabled) = rungsWithout disabled rungs := by
  unfold rungsWithout
  rw [filter_survives_nil]
  by_cases h : rungs = []
  · subst h
    rfl
  · rw [if_neg h, Option.bind_some]

theorem bind_unlessEmpty_filterMapValues {α β : Type} (f : α → Option β) (map : OrderedMap Text α) :
    ((unlessEmpty map).bind fun m => unlessEmpty (m.filterMapValues f))
      = unlessEmpty (map.filterMapValues f) := by
  unfold unlessEmpty
  by_cases h : map.keys = []
  · have hmap : map.entries = [] := List.map_eq_nil_iff.mp h
    have hnone : (map.filterMapValues f).keys = [] := by
      simp [OrderedMap.keys, OrderedMap.filterMapValues, hmap]
    rw [if_pos h, if_pos hnone, Option.bind_none]
  · rw [if_neg h, Option.bind_some]

theorem unlessEmpty_mapValues (f : α → α) (map : OrderedMap Text α) :
    unlessEmpty (map.mapValues f) = (unlessEmpty map).map (·.mapValues f) := by
  unfold unlessEmpty
  rw [OrderedMap.keys_mapValues]
  split <;> rfl

/-! ## The loops of the degradation -/

variable (h : POOL_PREFIX ∉ disabled)

include h

theorem keepsSpec_eq (s : Text) : keepsSpec disabled s = keepsMember disabled s := by
  unfold keepsSpec keepsMember
  by_cases hs : (splitSpec s).provider = POOL_PREFIX
  · simp [hs, h]
  · simp [hs]

theorem fst_dropDisabledSpecs (spec : Spec) (where_ : Text) :
    (dropDisabledSpecs spec disabled where_).1 = spec.without disabled := by
  unfold dropDisabledSpecs
  by_cases hnil : disabled = []
  · subst hnil
    simp
  · rw [if_neg hnil]
    simp only [funext (keepsSpec_eq h)]
    cases spec with
    | single s =>
      cases hs : keepsMember disabled s <;> simp [Spec.specs, Spec.without, hs]
    | list specs hne =>
      by_cases hkept : specs.filter (keepsMember disabled) = [] <;>
        simp [Spec.specs, Spec.without, hkept]

theorem keepsRung_eq (rung : LadderRung) : keepsRung disabled rung = rung.survives disabled := by
  unfold keepsRung LadderRung.survives
  cases rung.kind with
  | cli => rfl
  | relay =>
    cases rung.spec with
    | none => rfl
    | some spec =>
      dsimp only
      rw [fst_dropDisabledSpecs h, Spec.without]
      cases keepsMember disabled spec <;> rfl

theorem fst_dropDisabledRungs (rungs : List LadderRung) (prefix_ : Text) :
    (dropDisabledRungs rungs disabled prefix_).1
      = rungs.filter (LadderRung.survives disabled) := by
  show rungs.filter (keepsRung disabled) = _
  exact List.filter_congr fun rung _ => keepsRung_eq h rung

theorem fst_pruneDisabledSpecEntries (map : OrderedMap Text Spec) (prefix_ : Text) :
    (pruneDisabledSpecEntries map disabled prefix_).1
      = map.filterMapValues (Spec.without disabled) := by
  unfold pruneDisabledSpecEntries
  dsimp only
  exact OrderedMap.prune_eq (fun tier spec => fst_dropDisabledSpecs h spec _) map

theorem fst_pruneLadders (ladders : OrderedMap Text (List LadderRung)) :
    (pruneLadders ladders disabled).1 = ladders.filterMapValues (rungsWithout disabled) := by
  unfold pruneLadders
  dsimp only
  refine OrderedMap.prune_eq (fun tier rungs => ?_) ladders
  rw [fst_dropDisabledRungs h, rungsWithout]

theorem fst_degradeDefault (spec : Spec) :
    (degradeDefault spec disabled).1 = (spec.without disabled).getD spec := by
  cases spec with
  | single s =>
    rw [Spec.without]
    cases keepsMember disabled s <;> rfl
  | list specs hne =>
    unfold degradeDefault
    dsimp only
    rw [fst_dropDisabledSpecs h]

/-- **The degradation** removes the references outside the pools. -/
theorem fst_degradeDisabledRouting {β : Type} (routing : Routing β) :
    (degradeDisabledRouting routing disabled).1
      = { routing.without disabled with
          pools := routing.pools
          poolPolicies := routing.poolPolicies } := by
  unfold degradeDisabledRouting Routing.without
  dsimp only
  rw [fst_pruneDisabledSpecEntries h, fst_pruneDisabledSpecEntries h, fst_degradeDefault h,
    fst_dropDisabledRungs h, fst_pruneLadders h]
  simp only [Routing.mk.injEq, true_and, and_true]
  refine ⟨?_, ?_, ?_⟩
  · cases routing.subagents <;> rfl
  · cases routing.ladder <;> rfl
  · cases routing.ladders <;> rfl

omit h

theorem without_degradeDisabledRouting_nil {β : Type} (routing : Routing β) :
    (degradeDisabledRouting routing []).1.without disabled = routing.without disabled := by
  rw [fst_degradeDisabledRouting List.not_mem_nil]
  unfold Routing.without
  have hspec : Spec.without [] = some := funext Spec.without_nil
  simp only [hspec, Option.getD_some, OrderedMap.filterMapValues_some, Option.map_id',
    Routing.mk.injEq, true_and, and_true]
  refine ⟨?_, ?_⟩
  · rw [Option.bind_assoc]
    simp only [bind_rungsWithout_nil]
  · rw [Option.bind_assoc]
    refine Option.bind_congr fun ladders _ => ?_
    rw [bind_unlessEmpty_filterMapValues, OrderedMap.filterMapValues_filterMapValues]
    simp only [bind_rungsWithout_nil]

end Removal

/-! ## Pools -/

section ParsedPools

variable (disabled : List Text)

/-- A pool that is an array keeps a member. -/
def PoolSurvives (v : Json) : Prop :=
  ∀ items, v = .arr items → ∃ s ∈ specStrings items, keepsMember disabled s = true

variable {k : Text} {v : Json} {entry : PoolEntry} {entries : List (Text × Json)}

variable {poolPolicy : Option PoolPolicy}

theorem parsePoolEntry_of_declared {declared : List Text}
    (h : declaredPool k v = .ok (declared, poolPolicy)) :
    parsePoolEntry k v disabled
      = if declared.filter (keepsMember disabled) = [] ∧ poolPolicy = none then
          .error (text "config.routing.pools." ++ k
            ++ text " must contain at least one valid spec string")
        else
          match (declared.filter (keepsMember disabled)).find?
              fun s => s.startsWith (POOL_PREFIX ++ [slash]) with
          | some nested =>
            .error (text "config.routing.pools." ++ k ++ text " member \"" ++ nested
              ++ text "\" — a pool cannot reference another pool")
          | none =>
            .ok
              { members := declared.filter (keepsMember disabled)
                poolPolicy := poolPolicy.map fun policy =>
                  { policy with preferred := declared.filter (keepsMember disabled) }
                warnings := (declared.filter fun s => !keepsMember disabled s).map
                  (poolWarning k) } := by
  unfold parsePoolEntry
  rw [h]
  show (if _ then _ else _) = _
  split
  · rfl
  · rfl

theorem find?_filter_eq_none {p q : Text → Bool} {ss : List Text} (h : ss.find? p = none) :
    (ss.filter q).find? p = none := by
  rw [List.find?_eq_none] at h ⊢
  exact fun s hs => h s (List.mem_of_mem_filter hs)

theorem declaredPool_of_parsePoolEntry (h : parsePoolEntry k v [] = .ok entry) :
    ∃ declared poolPolicy, declaredPool k v = .ok (declared, poolPolicy)
      ∧ entry.members = declared
      ∧ entry.poolPolicy = poolPolicy.map (fun policy => { policy with preferred := declared })
      ∧ (declared.find? fun s => s.startsWith (POOL_PREFIX ++ [slash])) = none := by
  have hdeclared : ∃ parsed, declaredPool k v = .ok parsed := by
    cases hparsed : declaredPool k v with
    | error e =>
      unfold parsePoolEntry at h
      rw [hparsed] at h
      cases h
    | ok parsed => exact ⟨parsed, rfl⟩
  obtain ⟨⟨declared, poolPolicy⟩, hparsed⟩ := hdeclared
  rw [parsePoolEntry_of_declared [] hparsed] at h
  simp only [filter_keepsMember_nil] at h
  split at h
  · cases h
  · split at h
    · cases h
    · rename_i hnested
      cases h
      exact ⟨declared, poolPolicy, hparsed, rfl, rfl, hnested⟩

variable {disabled}

theorem emptied_iff {declared : List Text} (h : declaredPool k v = .ok (declared, poolPolicy)) :
    (declared.filter (keepsMember disabled) = [] ∧ poolPolicy = none)
      ↔ ¬PoolSurvives disabled v := by
  unfold declaredPool at h
  split at h
  · rename_i items
    cases h
    have hsurvives : PoolSurvives disabled (.arr items)
        ↔ ∃ s ∈ specStrings items, keepsMember disabled s = true := by
      constructor
      · exact fun hs => hs items rfl
      · rintro hs items' heq
        cases heq
        exact hs
    rw [hsurvives]
    simp
  · rename_i fields
    have hsome : ∃ policy, poolPolicy = some policy := by
      cases hparsed : parsePoolPolicy k (.obj fields) with
      | error e =>
        rw [hparsed] at h
        cases h
      | ok parsed =>
        rw [hparsed] at h
        cases h
        exact ⟨parsed.2, rfl⟩
    obtain ⟨policy, rfl⟩ := hsome
    have hsurvives : PoolSurvives disabled (.obj fields) := fun items heq => nomatch heq
    simp [hsurvives]
  · cases h

theorem parsePoolEntry_disabled (h : parsePoolEntry k v [] = .ok entry)
    (hsurvives : PoolSurvives disabled v) :
    ∃ warnings, parsePoolEntry k v disabled
      = .ok
          { members := entry.members.filter (keepsMember disabled)
            poolPolicy := entry.poolPolicy.map (PoolPolicy.without disabled)
            warnings := warnings } := by
  obtain ⟨declared, poolPolicy, hdeclared, hmembers, hpolicy, hnested⟩ :=
    declaredPool_of_parsePoolEntry h
  refine ⟨(declared.filter fun s => !keepsMember disabled s).map (poolWarning k), ?_⟩
  rw [parsePoolEntry_of_declared disabled hdeclared, if_neg fun hempty => (emptied_iff hdeclared).mp hempty hsurvives,
    find?_filter_eq_none hnested, hmembers, hpolicy, Option.map_map]
  rfl

theorem parsePoolEntry_disabled_error (h : parsePoolEntry k v [] = .ok entry)
    (hlost : ¬PoolSurvives disabled v) : ∃ e, parsePoolEntry k v disabled = .error e := by
  obtain ⟨declared, poolPolicy, hdeclared, -⟩ := declaredPool_of_parsePoolEntry h
  rw [parsePoolEntry_of_declared disabled hdeclared, if_pos ((emptied_iff hdeclared).mpr hlost)]
  exact ⟨_, rfl⟩

/-- The pools of the second run, beside those of the first. -/
structure Pools.Degraded (disabled : List Text) (pools pools' : Pools) : Prop where
  members : pools'.pools = pools.pools.mapValues (·.filter (keepsMember disabled))
  prototypes : pools.prototype = none ∧ pools'.prototype = none
  policies : pools'.poolPolicies = pools.poolPolicies.mapValues (PoolPolicy.without disabled)

theorem Pools.Degraded.add {pools pools' : Pools} (h : pools.Degraded disabled pools')
    (hk : k ≠ protoName) (entry : PoolEntry) (warnings : List Text) :
    (pools.add k entry).Degraded disabled
      (pools'.add k
        { members := entry.members.filter (keepsMember disabled)
          poolPolicy := entry.poolPolicy.map (PoolPolicy.without disabled)
          warnings := warnings }) where
  members := by
    unfold Pools.add
    rw [assign_of_ne hk, assign_of_ne hk, OrderedMap.mapValues_set, h.members]
  prototypes := by
    unfold Pools.add
    rw [if_neg hk, if_neg hk]
    exact h.prototypes
  policies := by
    unfold Pools.add
    cases entry.poolPolicy with
    | none => exact h.policies
    | some policy =>
      dsimp only [Option.map_some]
      rw [assign_of_ne hk, assign_of_ne hk, OrderedMap.mapValues_set, h.policies]

/-- The loop of `parsePools`, from accumulators on. -/
def parsePoolsFrom (disabledProviders : List Text) (entries : List (Text × Json))
    (pools : Pools) : Parsed Pools :=
  entries.foldlM (fun pools (k, v) => do
    return pools.add k (← parsePoolEntry k v disabledProviders)) pools

theorem parsePoolsFrom_cons (k : Text) (v : Json) (rest : List (Text × Json)) (pools : Pools) :
    parsePoolsFrom disabled ((k, v) :: rest) pools
      = parsePoolEntry k v disabled >>= fun entry =>
          parsePoolsFrom disabled rest (pools.add k entry) := by
  unfold parsePoolsFrom
  rw [List.foldlM_cons]
  dsimp only
  cases parsePoolEntry k v disabled <;> rfl

theorem parsePoolsFrom_disabled (hproto : ∀ entry ∈ entries, entry.1 ≠ protoName)
    (hsurvives : ∀ entry ∈ entries, PoolSurvives disabled entry.2) :
    ∀ {pools pools' out : Pools}, pools.Degraded disabled pools' →
      parsePoolsFrom [] entries pools = .ok out →
      ∃ out', parsePoolsFrom disabled entries pools' = .ok out' ∧ out.Degraded disabled out' := by
  induction entries with
  | nil =>
    intro pools pools' out hpools hrun
    cases hrun
    exact ⟨pools', rfl, hpools⟩
  | cons head rest ih =>
    intro pools pools' out hpools hrun
    rw [parsePoolsFrom_cons] at hrun
    obtain ⟨entry, hentry, hrest⟩ := bind_eq_ok.mp hrun
    obtain ⟨warnings, hdisabled⟩ :=
      parsePoolEntry_disabled hentry (hsurvives _ List.mem_cons_self)
    rw [parsePoolsFrom_cons, hdisabled]
    exact ih (fun e he => hproto e (List.mem_cons_of_mem _ he))
      (fun e he => hsurvives e (List.mem_cons_of_mem _ he))
      (hpools.add (hproto _ List.mem_cons_self) entry warnings) hrest

theorem parsePoolsFrom_disabled_error {entry : Text × Json} (hin : entry ∈ entries)
    (hlost : ¬PoolSurvives disabled entry.2) :
    ∀ {pools pools' out : Pools}, parsePoolsFrom [] entries pools = .ok out →
      ∃ e, parsePoolsFrom disabled entries pools' = .error e := by
  induction entries with
  | nil => exact absurd hin List.not_mem_nil
  | cons head rest ih =>
    intro pools pools' out hrun
    obtain ⟨k, v⟩ := head
    rw [parsePoolsFrom_cons] at hrun
    obtain ⟨parsed, hparsed, hrest⟩ := bind_eq_ok.mp hrun
    rw [parsePoolsFrom_cons]
    cases hdisabled : parsePoolEntry k v disabled with
    | error e => exact ⟨e, rfl⟩
    | ok parsed' =>
      -- the entry that is lost is not the first one, which has just been parsed
      rcases List.mem_cons.mp hin with rfl | hrestin
      · obtain ⟨e, he⟩ := parsePoolEntry_disabled_error hparsed hlost
        rw [he] at hdisabled
        cases hdisabled
      · exact ih hrestin hrest

end ParsedPools

/-! ## What resolves -/

/-- The spec names a pool, or a provider with the model that it needs. -/
def Resolves (providers : Providers) (pools : PoolTable) (s : Text) : Prop :=
  if (splitSpec s).provider = POOL_PREFIX then
    (splitSpec s).model.getD [] ≠ [] ∧ namesPool pools ((splitSpec s).model.getD []) = true
  else
    match providers.get? (splitSpec s).provider with
    | some p => ¬(p.kind = text "openai" ∧ (splitSpec s).model.getD [] = [])
    | none => (splitSpec s).provider ∈ inheritedNames

variable {pools : PoolTable}

variable {providers : Providers} {disabled : List Text}

theorem assertOneResolvable_eq_ok {where_ : Text} {s : Text} :
    assertOneResolvable providers pools where_ disabled s = .ok () ↔ Resolves providers pools s := by
  unfold assertOneResolvable Resolves
  dsimp only
  split
  · split
    · rename_i h
      refine iff_of_false (fun hok => nomatch hok) fun hres => ?_
      rcases h with h | h
      · exact hres.1 h
      · rw [hres.2] at h
        cases h
    · rename_i h
      rw [not_or, Bool.not_eq_false] at h
      exact iff_of_true rfl h
  · cases hp : providers.get? (splitSpec s).provider with
    | none =>
      dsimp only
      split
      · rename_i h
        exact iff_of_true rfl h
      · rename_i h
        refine iff_of_false (fun hok => ?_) h
        split at hok <;> cases hok
    | some p =>
      dsimp only
      split
      · rename_i h
        exact iff_of_false (fun hok => nomatch hok) fun hne => hne h
      · rename_i h
        exact iff_of_true rfl h

theorem bind_unit_eq_ok {x : Parsed Unit} {f : Unit → Parsed α} {b : α} :
    (x >>= f) = .ok b ↔ x = .ok () ∧ f () = .ok b :=
  bind_eq_ok.trans ⟨fun ⟨_, hx, hf⟩ => ⟨hx, hf⟩, fun ⟨hx, hf⟩ => ⟨(), hx, hf⟩⟩

theorem forM_eq_ok {f : α → Parsed Unit} {xs : List α} :
    xs.forM f = .ok () ↔ ∀ x ∈ xs, f x = .ok () := by
  induction xs with
  | nil => exact iff_of_true rfl fun x hx => absurd hx List.not_mem_nil
  | cons x xs ih =>
    show (f x >>= fun _ => xs.forM f) = .ok () ↔ _
    rw [bind_unit_eq_ok, List.forall_mem_cons, ← ih]

theorem assertSpecResolvable_eq_ok {specs : List Text} {where_ : Text} :
    assertSpecResolvable specs providers pools where_ disabled = .ok ()
      ↔ ∀ s ∈ specs, Resolves providers pools s := by
  unfold assertSpecResolvable
  rw [forM_eq_ok]
  exact forall₂_congr fun _ _ => assertOneResolvable_eq_ok

/-- The relay rungs of a ladder resolve. -/
def RungsResolve (providers : Providers) (pools : PoolTable)
    (rungs : List LadderRung) : Prop :=
  ∀ rung ∈ rungs, rung.kind = .relay → ∀ spec, rung.spec = some spec →
    Resolves providers pools spec

theorem assertRungsResolvable_eq_ok {rungs : List LadderRung} {prefix_ : Text} :
    assertRungsResolvable rungs providers pools prefix_ = .ok ()
      ↔ RungsResolve providers pools rungs := by
  unfold assertRungsResolvable RungsResolve
  rw [forM_eq_ok]
  refine forall₂_congr fun rung _ => ?_
  cases rung.kind with
  | cli => simp
  | relay =>
    cases rung.spec with
    | none => simp
    | some spec =>
      rw [assertSpecResolvable_eq_ok]
      simp

/-- Every spec of the block names something. -/
structure Resolvable {β : Type} (providers : Providers) (routing : Routing β) : Prop where
  default_ : ∀ s ∈ routing.default_.specs, Resolves providers routing.poolTable s
  tiers : ∀ tier ∈ routing.tiers.entries, ∀ s ∈ tier.2.specs,
    Resolves providers routing.poolTable s
  pools : ∀ pool ∈ (routing.pools.getD .empty).entries, ∀ s ∈ pool.2,
    Resolves providers .empty s
  subagents : ∀ tier ∈ (routing.subagents.getD .empty).entries, ∀ s ∈ tier.2.specs,
    Resolves providers routing.poolTable s
  ladder : RungsResolve providers routing.poolTable (routing.ladder.getD [])
  ladders : ∀ tier ∈ (routing.ladders.getD .empty).entries,
    RungsResolve providers routing.poolTable tier.2

variable {β : Type}

theorem assertRoutingResolvable_eq_ok {routing : Routing β} :
    assertRoutingResolvable routing providers disabled = .ok () ↔ Resolvable providers routing := by
  unfold assertRoutingResolvable
  simp only [bind_unit_eq_ok, assertSpecResolvable_eq_ok, forM_eq_ok, assertRungsResolvable_eq_ok]
  constructor
  · rintro ⟨hdefault, htiers, hpools, hsubagents, hladder, hladders⟩
    exact ⟨hdefault, htiers, hpools, hsubagents, hladder, hladders⟩
  · intro h
    exact ⟨h.default_, h.tiers, h.pools, h.subagents, h.ladder, h.ladders⟩

section Removal

variable {disabled : List Text}

theorem lookupEntry_filter_not_mem (k : Text) (l : List (Text × α)) :
    lookupEntry k (l.filter fun e => decide (e.1 ∉ disabled))
      = if k ∈ disabled then none else lookupEntry k l := by
  induction l with
  | nil => simp [lookupEntry]
  | cons e rest ih =>
    by_cases he : e.1 ∈ disabled
    · rw [List.filter_cons_of_neg (by simp [he]), ih, lookupEntry]
      by_cases hk : e.1 = k
      · rw [if_pos (hk ▸ he), if_pos (hk ▸ he)]
      · rw [if_neg hk]
    · rw [List.filter_cons_of_pos (by simp [he]), lookupEntry, lookupEntry, ih]
      by_cases hk : e.1 = k
      · rw [if_pos hk, if_pos hk, if_neg (hk ▸ he)]
      · rw [if_neg hk, if_neg hk]

theorem get?_providersWithout (providers : Providers) (k : Text) :
    (Providers.without disabled providers).get? k
      = if k ∈ disabled then none else providers.get? k :=
  lookupEntry_filter_not_mem k providers.entries

variable {providers : Providers} {rungs rungs' : List LadderRung}

theorem has_providersWithout {k : Text} (h : providers.has k = false) :
    (Providers.without disabled providers).has k = false := by
  unfold OrderedMap.has at h ⊢
  rw [get?_providersWithout]
  split
  · rfl
  · exact h

variable {s : Text}

/-- A spec that refers to no disabled provider resolves as before. -/
theorem Resolves.without {pools' : PoolTable} (h : Resolves providers pools s)
    (hkeeps : keepsMember disabled s = true)
    (hpools : ∀ model, namesPool pools' model = namesPool pools model) :
    Resolves (Providers.without disabled providers) pools' s := by
  unfold Resolves at h ⊢
  split at h
  · rename_i hpool
    rw [if_pos hpool, hpools]
    exact h
  · rename_i hpool
    rw [if_neg hpool, get?_providersWithout, if_neg (of_decide_eq_true hkeeps)]
    exact h

theorem mem_specs_without {spec spec' : Spec} (h : spec.without disabled = some spec')
    (hs : s ∈ spec'.specs) : s ∈ spec.specs ∧ keepsMember disabled s = true := by
  unfold Spec.without at h
  split at h
  · split at h
    · rename_i hkeeps
      cases h
      obtain rfl := List.mem_singleton.mp hs
      exact ⟨hs, hkeeps⟩
    · cases h
  · split at h
    · cases h
    · cases h
      exact List.mem_filter.mp hs

theorem without_of_survivor {spec : Spec} (hs : s ∈ spec.specs)
    (hkeeps : keepsMember disabled s = true) : ∃ spec', spec.without disabled = some spec' := by
  unfold Spec.without
  split
  · obtain rfl := List.mem_singleton.mp hs
    exact ⟨_, if_pos hkeeps⟩
  · rename_i specs _
    have hne : specs.filter (keepsMember disabled) ≠ [] :=
      List.ne_nil_of_mem (List.mem_filter.mpr ⟨hs, hkeeps⟩)
    exact ⟨_, dif_neg hne⟩

theorem mem_of_rungsWithout (h : rungsWithout disabled rungs = some rungs') {rung : LadderRung}
    (hin : rung ∈ rungs') : rung ∈ rungs ∧ rung.survives disabled = true := by
  unfold rungsWithout at h
  split at h
  · cases h
  · cases h
    exact List.mem_filter.mp hin

theorem RungsResolve.without {pools' : PoolTable} (h : RungsResolve providers pools rungs)
    (hrungs : rungsWithout disabled rungs = some rungs')
    (hpools : ∀ model, namesPool pools' model = namesPool pools model) :
    RungsResolve (Providers.without disabled providers) pools' rungs' := by
  intro rung hin hkind spec hspec
  obtain ⟨hrung, hsurvives⟩ := mem_of_rungsWithout hrungs hin
  unfold LadderRung.survives at hsurvives
  rw [hkind, hspec] at hsurvives
  exact (h rung hrung hkind spec hspec).without hsurvives hpools

theorem namesPool_without (routing : Routing β) (model : Text) :
    namesPool (routing.without disabled).poolTable model = namesPool routing.poolTable model := by
  have hown : (routing.without disabled).poolTable.own.has model
      = routing.poolTable.own.has model := by
    unfold Routing.without Routing.poolTable
    cases routing.pools with
    | none => rfl
    | some pools => exact OrderedMap.has_mapValues _ _ _
  unfold namesPool
  rw [hown]
  rfl

/-- **What is left resolves**, where the default keeps a spec. -/
theorem Resolvable.without {routing : Routing β} (h : Resolvable providers routing)
    (hdefault : ∃ s ∈ routing.default_.specs, keepsMember disabled s = true) :
    Resolvable (Providers.without disabled providers) (routing.without disabled) where
  default_ := by
    obtain ⟨survivor, hsurvivor, hkeeps⟩ := hdefault
    obtain ⟨spec', hspec'⟩ := without_of_survivor hsurvivor hkeeps
    intro s hs
    change s ∈ ((routing.default_.without disabled).getD routing.default_).specs at hs
    rw [hspec'] at hs
    obtain ⟨hin, hs'⟩ := mem_specs_without hspec' hs
    exact (h.default_ s hin).without hs' (namesPool_without routing)
  tiers := by
    rintro ⟨tier, spec'⟩ htier s hs
    obtain ⟨spec, hspec, hwithout⟩ := OrderedMap.mem_filterMapValues.mp htier
    obtain ⟨hin, hs'⟩ := mem_specs_without hwithout hs
    exact (h.tiers _ hspec s hin).without hs' (namesPool_without routing)
  pools := by
    have hpools := h.pools
    intro pool hpool s hs
    change pool ∈ (Option.getD (routing.pools.map _) OrderedMap.empty).entries at hpool
    cases hrouting : routing.pools with
    | none =>
      rw [hrouting] at hpool
      cases hpool
    | some pools =>
      rw [hrouting] at hpool hpools
      obtain ⟨declared, hdeclared, rfl⟩ := List.mem_map.mp hpool
      obtain ⟨hin, hs'⟩ := List.mem_filter.mp hs
      exact (hpools declared hdeclared s hin).without hs' fun _ => rfl
  subagents := by
    have hsubagents := h.subagents
    rintro ⟨tier, spec'⟩ htier s hs
    change (tier, spec') ∈ (Option.getD (routing.subagents.map _) OrderedMap.empty).entries at htier
    cases hrouting : routing.subagents with
    | none =>
      rw [hrouting] at htier
      cases htier
    | some subagents =>
      rw [hrouting] at htier hsubagents
      obtain ⟨spec, hspec, hwithout⟩ := OrderedMap.mem_filterMapValues.mp htier
      obtain ⟨hin, hs'⟩ := mem_specs_without hwithout hs
      exact (hsubagents _ hspec s hin).without hs' (namesPool_without routing)
  ladder := by
    have hladder := h.ladder
    change RungsResolve _ _ ((routing.ladder.bind (rungsWithout disabled)).getD [])
    cases hrouting : routing.ladder with
    | none => exact fun rung hin => absurd hin List.not_mem_nil
    | some rungs =>
      rw [hrouting] at hladder
      rw [Option.bind_some]
      cases hrungs : rungsWithout disabled rungs with
      | none => exact fun rung hin => absurd hin List.not_mem_nil
      | some rungs' => exact hladder.without hrungs (namesPool_without routing)
  ladders := by
    have hladders := h.ladders
    rintro ⟨tier, rungs'⟩ htier
    change (tier, rungs') ∈ ((routing.ladders.bind fun ladders =>
      unlessEmpty (ladders.filterMapValues (rungsWithout disabled))).getD .empty).entries at htier
    cases hrouting : routing.ladders with
    | none =>
      rw [hrouting] at htier
      cases htier
    | some ladders =>
      rw [hrouting] at htier hladders
      rw [Option.bind_some, unlessEmpty] at htier
      split at htier
      · cases htier
      · obtain ⟨rungs, hin, hrungs⟩ := OrderedMap.mem_filterMapValues.mp htier
        exact (hladders _ hin).without hrungs (namesPool_without routing)

/-! ## The two runs -/

theorem assertNoReservedProviderNames_eq_ok :
    assertNoReservedProviderNames providers = .ok ()
      ↔ providers.has POOL_PREFIX = false ∧ providers.has AUTO_MODEL = false := by
  unfold assertNoReservedProviderNames
  cases providers.has POOL_PREFIX <;> cases providers.has AUTO_MODEL
  · exact iff_of_true rfl ⟨rfl, rfl⟩
  all_goals exact iff_of_false (fun h => nomatch h) (by simp)

section Runs

variable {β : Type} {parseOptionalBlocks : Json → Parsed (β × List Text)} {raw : Json}
  {providers : Providers} {overrideDefault : Option Text}

variable {warnings : List Text}

theorem parseBlock_disabled {routing : Routing β}
    (h : parseBlock parseOptionalBlocks raw providers overrideDefault [] = .ok (routing, warnings))
    (hsurvives : ∀ entry ∈ objectEntries (raw.get? (text "pools")), PoolSurvives disabled entry.2)
    (hproto : ∀ entry ∈ objectEntries (raw.get? (text "pools")), entry.1 ≠ protoName) :
    ∃ warnings', parseBlock parseOptionalBlocks raw (Providers.without disabled providers)
        overrideDefault disabled
      = .ok
          ({ routing with
              pools := (routing.without disabled).pools
              poolPolicies := (routing.without disabled).poolPolicies },
            warnings') := by
  unfold parseBlock at h ⊢
  obtain ⟨hreserved, h⟩ := bind_unit_eq_ok.mp h
  simp only [bind_eq_ok] at h
  obtain ⟨dflt, hdflt, pools, hpools, offload, hoffload, blocks, hblocks, ladder,
    hladder, ladders, hladders, cliLane, hcliLane, hout⟩ := h
  obtain ⟨pools', hpools', hdegraded⟩ := parsePoolsFrom_disabled hproto hsurvives
    (⟨rfl, ⟨rfl, rfl⟩, rfl⟩ : Pools.Degraded disabled .empty .empty) hpools
  have hreserved' : assertNoReservedProviderNames (Providers.without disabled providers)
      = .ok () := by
    rw [assertNoReservedProviderNames_eq_ok] at hreserved ⊢
    exact ⟨has_providersWithout hreserved.1, has_providersWithout hreserved.2⟩
  have hparsed : parsePools (raw.get? (text "pools")) disabled = .ok pools' := hpools'
  cases hout
  refine ⟨pools'.warnings ++ blocks.2 ++ ladder.2 ++ ladders.2, ?_⟩
  rw [hreserved', hdflt, hparsed, hoffload, hblocks, hladder, hladders, hcliLane]
  unfold Routing.without
  rw [← unlessEmpty_mapValues, ← unlessEmpty_mapValues, ← hdegraded.members, ← hdegraded.policies,
    hdegraded.prototypes.1.trans hdegraded.prototypes.2.symm]
  rfl

theorem parseBlock_disabled_error {routing : Routing β}
    (h : parseBlock parseOptionalBlocks raw providers overrideDefault [] = .ok (routing, warnings))
    {entry : Text × Json} (hin : entry ∈ objectEntries (raw.get? (text "pools")))
    (hlost : ¬PoolSurvives disabled entry.2) :
    ∃ message, parseBlock parseOptionalBlocks raw (Providers.without disabled providers)
      overrideDefault disabled = .error message := by
  unfold parseBlock at h ⊢
  obtain ⟨hreserved, h⟩ := bind_unit_eq_ok.mp h
  simp only [bind_eq_ok] at h
  obtain ⟨dflt, hdflt, pools, hpools, -⟩ := h
  have hreserved' : assertNoReservedProviderNames (Providers.without disabled providers)
      = .ok () := by
    rw [assertNoReservedProviderNames_eq_ok] at hreserved ⊢
    exact ⟨has_providersWithout hreserved.1, has_providersWithout hreserved.2⟩
  obtain ⟨message, hmessage⟩ : ∃ message,
      parsePools (raw.get? (text "pools")) disabled = .error message :=
    parsePoolsFrom_disabled_error hin hlost hpools
  refine ⟨message, ?_⟩
  rw [hreserved', hdflt, hmessage]
  rfl

theorem parseRouting_eq_ok {disabledProviders : List Text} {routing : Routing β} :
    parseRouting parseOptionalBlocks raw providers overrideDefault disabledProviders
        = .ok (routing, warnings)
      ↔ ∃ parsed, parseBlock parseOptionalBlocks raw providers overrideDefault disabledProviders
            = .ok parsed
          ∧ routing = (degradeDisabledRouting parsed.1 disabledProviders).1
          ∧ warnings = parsed.2 ++ (degradeDisabledRouting parsed.1 disabledProviders).2
          ∧ Resolvable providers routing := by
  unfold parseRouting
  rw [bind_eq_ok]
  refine exists_congr fun parsed => and_congr_right fun _ => ?_
  rw [bind_unit_eq_ok, assertRoutingResolvable_eq_ok]
  constructor
  · rintro ⟨hresolvable, heq⟩
    cases heq
    exact ⟨rfl, rfl, hresolvable⟩
  · rintro ⟨rfl, rfl, hresolvable⟩
    exact ⟨hresolvable, rfl⟩

/-- **A disabled provider degrades the routing**: where a block is accepted and its default
keeps a spec, the second run gives the block without the references, unless a pool that is an
array has lost all its members, and then it is refused. -/
theorem parseRouting_disabled {routing : Routing β} {warnings : List Text}
    (hproto : ∀ entry ∈ objectEntries (raw.get? (text "pools")), entry.1 ≠ protoName)
    (hproviders : ∀ provider ∈ disabled, providers.has provider = true)
    (haccepts : parseRouting parseOptionalBlocks raw providers overrideDefault []
      = .ok (routing, warnings))
    (hdefault : ∃ s ∈ routing.default_.specs, keepsMember disabled s = true) :
    ((∀ entry ∈ objectEntries (raw.get? (text "pools")), PoolSurvives disabled entry.2) →
        ∃ warnings', parseRouting parseOptionalBlocks raw (Providers.without disabled providers)
          overrideDefault disabled = .ok (routing.without disabled, warnings'))
      ∧ ((∃ entry ∈ objectEntries (raw.get? (text "pools")), ¬PoolSurvives disabled entry.2) →
        ∃ message, parseRouting parseOptionalBlocks raw (Providers.without disabled providers)
          overrideDefault disabled = .error message) := by
  obtain ⟨⟨parsed, warnings₀⟩, hparsed, rfl, -, hresolvable⟩ := parseRouting_eq_ok.mp haccepts
  -- the prefix of pools is reserved, so no provider of the set has its name
  have hpool : POOL_PREFIX ∉ disabled := by
    intro hin
    have hhas := hproviders _ hin
    unfold parseBlock at hparsed
    obtain ⟨hreserved, -⟩ := bind_unit_eq_ok.mp hparsed
    rw [(assertNoReservedProviderNames_eq_ok.mp hreserved).1] at hhas
    cases hhas
  constructor
  · intro hsurvives
    obtain ⟨warnings', hsecond⟩ := parseBlock_disabled hparsed hsurvives hproto
    refine ⟨_, parseRouting_eq_ok.mpr ⟨_, hsecond, ?_, rfl, hresolvable.without hdefault⟩⟩
    rw [without_degradeDisabledRouting_nil, fst_degradeDisabledRouting hpool]
    rfl
  · rintro ⟨entry, hin, hlost⟩
    obtain ⟨message, hmessage⟩ := parseBlock_disabled_error hparsed hin hlost
    refine ⟨message, ?_⟩
    unfold parseRouting
    rw [hmessage]
    rfl

end Runs

end Removal

/-! ## A pool with a disabled provider -/

/-- A block without sub-blocks. -/
def noBlocks (_ : Json) : Parsed (Unit × List Text) :=
  .ok ((), [])

def sampleProviders : Providers where
  entries :=
    [(text "good", { kind := text "openai" }), (text "needsvar", { kind := text "openai" })]
  nodup := by decide

/-- A block with one pool. -/
def samplePool (members : List Text) : Json :=
  .obj
    [(text "default", .str (text "good/m")),
      (text "pools", .obj [(text "coding", .arr (members.map .str))])]

theorem parseRouting_disabled_sample :
    ∃ routing warnings warnings',
      parseRouting noBlocks (samplePool [text "good/m", text "needsvar/m"]) sampleProviders none []
          = .ok (routing, warnings)
        ∧ parseRouting noBlocks (samplePool [text "good/m", text "needsvar/m"])
            (Providers.without [text "needsvar"] sampleProviders) none [text "needsvar"]
          = .ok (routing.without [text "needsvar"], warnings') := by
  have hfirst : ∃ routing warnings,
      parseRouting noBlocks (samplePool [text "good/m", text "needsvar/m"]) sampleProviders none []
          = .ok (routing, warnings)
        ∧ ∃ s ∈ routing.default_.specs, keepsMember [text "needsvar"] s = true :=
    ⟨_, _, rfl, text "good/m", by decide, by decide⟩
  obtain ⟨routing, warnings, haccepts, hdefault⟩ := hfirst
  have hproviders : ∀ provider ∈ [text "needsvar"], sampleProviders.has provider = true := by
    decide
  have hentry : ∀ entry ∈ objectEntries ((samplePool [text "good/m", text "needsvar/m"]).get?
      (text "pools")),
      entry = (text "coding", Json.arr [.str (text "good/m"), .str (text "needsvar/m")]) :=
    fun entry hin => List.mem_singleton.mp hin
  have hproto : ∀ entry ∈ objectEntries ((samplePool [text "good/m", text "needsvar/m"]).get?
      (text "pools")), entry.1 ≠ protoName := by
    intro entry hin
    rw [hentry entry hin]
    decide
  have hsurvives : ∀ entry ∈ objectEntries ((samplePool [text "good/m", text "needsvar/m"]).get?
      (text "pools")), PoolSurvives [text "needsvar"] entry.2 := by
    intro entry hin items hitems
    obtain rfl := hentry entry hin
    cases hitems
    exact ⟨text "good/m", by decide, by decide⟩
  obtain ⟨warnings', hsecond⟩ :=
    (parseRouting_disabled hproto hproviders haccepts hdefault).1 hsurvives
  exact ⟨routing, warnings, warnings', haccepts, hsecond⟩

/-- A pool whose only member is at the disabled provider. -/
theorem parseRouting_emptied_pool :
    (∃ routing warnings,
      parseRouting noBlocks (samplePool [text "needsvar/m"]) sampleProviders none []
          = .ok (routing, warnings)
        ∧ ∃ s ∈ routing.default_.specs, keepsMember [text "needsvar"] s = true)
      ∧ ∃ message, parseRouting noBlocks (samplePool [text "needsvar/m"])
          (Providers.without [text "needsvar"] sampleProviders) none [text "needsvar"]
        = .error message :=
  ⟨⟨_, _, rfl, text "good/m", by decide, by decide⟩, _, rfl⟩

end LlmRelay.Config
