import LlmRelay.Config.StatedSpecs

/-!
# Declared specs

The final check of `parseRouting` looks a spec's provider and its pool up by plain property access
on objects that are built from the document's keys, so that the names which every object inherits
count as declared, and with a pool named `__proto__` those of an array. These are the only specs
that an accepted block has without a declaration.

## Main definitions

* `Declared`, `AllDeclared`: what the specs of a block should name;
* `InheritedOnly`: the spec names what is only inherited.

## Main results

* `declared_iff`: a spec that resolves is declared unless its name is inherited;
* `specs_declared_iff`: when all specs of an accepted block are declared.
-/

namespace LlmRelay.Config

open Ecma

/-- The spec names a provider that is declared, with a model where the provider needs one, or a
pool that is declared. -/
def Declared (providers : Providers) (pools : OrderedMap Text (List Text)) (s : Text) : Prop :=
  if (splitSpec s).provider = POOL_PREFIX then
    ∃ name, (splitSpec s).model = some name ∧ pools.has name = true
  else
    ∃ p, providers.get? (splitSpec s).provider = some p
      ∧ (p.kind = text "openai" → ∃ model, (splitSpec s).model = some model ∧ model ≠ [])

/-- Every spec of a block is declared, and no member of a pool names a pool. -/
structure AllDeclared {β : Type} (providers : Providers) (routing : Routing β) : Prop where
  specs : ∀ s ∈ routing.specs, Declared providers (routing.pools.getD .empty) s
  members : ∀ s ∈ routing.members, Declared providers (routing.pools.getD .empty) s
    ∧ (splitSpec s).provider ≠ POOL_PREFIX
  prefixes : ∀ s ∈ routing.prefixes, Declared providers (routing.pools.getD .empty) s
    ∧ (splitSpec s).provider ≠ POOL_PREFIX

/-- The names of the pools that a document states. -/
def statedPoolNames (raw : Json) : List Text :=
  (objectEntries (raw.get? (text "pools"))).map Prod.fst

/-- What the object of the pools has without that it is stated: what every object inherits, and
the elements and the names of an array if `__proto__` is stated. -/
def InheritedPoolName (raw : Json) (name : Text) : Prop :=
  name ∈ inheritedNames
    ∨ protoName ∈ statedPoolNames raw
      ∧ (name = text "length" ∨ name ∈ arrayNames ∨ (arrayIndex? name).isSome = true)

/-- The spec names what is not declared, but inherited. -/
def InheritedOnly (raw : Json) (providers : Providers) (s : Text) : Prop :=
  if (splitSpec s).provider = POOL_PREFIX then
    ∃ name, (splitSpec s).model = some name
      ∧ ¬(name ∈ statedPoolNames raw ∧ name ≠ protoName) ∧ InheritedPoolName raw name
  else
    providers.has (splitSpec s).provider = false ∧ (splitSpec s).provider ∈ inheritedNames

section Specs

variable {raw : Json} {providers : Providers} {table : PoolTable} {s : Text}

/-- **A spec that resolves** is declared unless its name is inherited. -/
theorem declared_iff (hown : ∀ name, table.own.has name = true
      ↔ name ∈ statedPoolNames raw ∧ name ≠ protoName)
    (hproto : table.prototype.isSome = true → protoName ∈ statedPoolNames raw)
    (h : Resolves providers table s) :
    Declared providers table.own s ↔ ¬InheritedOnly raw providers s := by
  unfold Resolves at h
  unfold Declared InheritedOnly
  split at h
  · rename_i hpool
    rw [if_pos hpool, if_pos hpool]
    cases hmodel : (splitSpec s).model with
    | none =>
      rw [hmodel] at h
      exact absurd rfl h.1
    | some name =>
      rw [hmodel, Option.getD_some] at h
      simp only [Option.some.injEq, exists_eq_left', hown]
      constructor
      · exact fun hstated hinherited => hinherited.1 hstated
      · intro hinherited
        by_contra hstated
        refine hinherited ⟨hstated, ?_⟩
        have hnames := h.2
        rw [namesPool, Bool.or_eq_true, hown, inheritsPool, Bool.or_eq_true,
          decide_eq_true_eq] at hnames
        rcases hnames with hthere | hobject | harray
        · exact absurd hthere hstated
        · exact .inl hobject
        · obtain ⟨members, hmembers, hhas⟩ := (Option.any_eq_true _ _).mp harray
          refine .inr ⟨hproto (by rw [hmembers]; rfl), ?_⟩
          rw [arrayHas, Bool.or_eq_true, Bool.or_eq_true] at hhas
          rcases hhas with (hlength | hname) | hindex
          · rw [Bool.and_eq_true, beq_iff_eq] at hlength
            exact .inl hlength.1
          · exact .inr (.inl (List.contains_iff_mem.mp hname))
          · refine .inr (.inr ?_)
            obtain ⟨_, hmember⟩ := Option.isSome_iff_exists.mp hindex
            obtain ⟨i, hi, -⟩ := Option.bind_eq_some_iff.mp hmember
            rw [hi]
            rfl
  · rename_i hpool
    rw [if_neg hpool, if_neg hpool, OrderedMap.has]
    cases hprovider : providers.get? (splitSpec s).provider with
    | none =>
      rw [hprovider] at h
      refine iff_of_false ?_ fun hnot => hnot ⟨rfl, h⟩
      rintro ⟨p, hp, -⟩
      cases hp
    | some p =>
      rw [hprovider] at h
      refine iff_of_true ⟨p, rfl, fun hkind => ?_⟩ fun hinherited => by cases hinherited.1
      cases hmodel : (splitSpec s).model with
      | none => exact absurd ⟨hkind, by rw [hmodel]; rfl⟩ h
      | some model => exact ⟨model, rfl, fun hnil => h ⟨hkind, by rw [hmodel, hnil]; rfl⟩⟩

theorem eq_of_splitSpec {model : Text} (h : (splitSpec s).model = some model) :
    s = (splitSpec s).provider ++ slash :: model := by
  unfold splitSpec at h ⊢
  split at h
  · cases h
  · rename_i i hindex
    obtain rfl := Option.some.inj h
    obtain ⟨⟨rest, hrest⟩, -⟩ := Text.indexOf_spec hindex
    have hdrop : s.drop i = slash :: s.drop (i + 1) := by
      rw [List.drop_add_one_eq_tail_drop, ← hrest]
      rfl
    rw [← hdrop, List.take_append_drop]

theorem provider_ne_of_member (h : Resolves providers .empty s)
    (hflat : s.startsWith (POOL_PREFIX ++ [slash]) = false) :
    (splitSpec s).provider ≠ POOL_PREFIX := by
  intro hpool
  unfold Resolves at h
  rw [if_pos hpool] at h
  cases hmodel : (splitSpec s).model with
  | none =>
    rw [hmodel] at h
    exact h.1 rfl
  | some model =>
    have heq := eq_of_splitSpec hmodel
    rw [hpool] at heq
    rw [heq] at hflat
    cases hflat

end Specs

/-- The specs that the document states and that are kept. -/
def keptStated (raw : Json) (overrideDefault : Option Text) (disabledProviders : List Text) :
    List Text :=
  keptSpecs raw overrideDefault disabledProviders ++ keptMembers raw disabledProviders

section Parsed

variable {β : Type} {parseOptionalBlocks : Json → Parsed (β × List Text)} {raw : Json}
  {providers : Providers} {overrideDefault : Option Text} {disabled : List Text}
  {routing : Routing β} {warnings : List Text}

theorem resolves_of_mem_specs (h : Resolvable providers routing) {s : Text}
    (hs : s ∈ routing.specs) : Resolves providers routing.poolTable s := by
  have hrungs {rungs : List LadderRung} (hrungs : RungsResolve providers routing.poolTable rungs)
      (hs : s ∈ relaySpecs rungs) : Resolves providers routing.poolTable s := by
    obtain ⟨rung, hrung, hspec⟩ := List.mem_filterMap.mp hs
    unfold relaySpec? at hspec
    split at hspec
    · rename_i hkind
      exact hrungs rung hrung hkind s hspec
    · cases hspec
  unfold Routing.specs at hs
  simp only [List.mem_append] at hs
  rcases hs with hdefault | ((htier | hsubagent) | hladder) | hladders
  · exact h.default_ s hdefault
  · obtain ⟨tier, htier, hs⟩ := List.mem_flatMap.mp htier
    exact h.tiers tier htier s hs
  · obtain ⟨tier, htier, hs⟩ := List.mem_flatMap.mp hsubagent
    exact h.subagents tier htier s hs
  · exact hrungs h.ladder hladder
  · obtain ⟨tier, htier, hs⟩ := List.mem_flatMap.mp hladders
    exact hrungs (h.ladders tier htier) hs

/-- **All specs of an accepted block are declared** exactly if no spec that the document states
and that is kept names what is only inherited. -/
theorem specs_declared_iff
    (hkeys : ∀ key, ((objectEntries (raw.get? key)).map Prod.fst).Nodup)
    (h : parseRouting parseOptionalBlocks raw providers overrideDefault disabled
      = .ok (routing, warnings)) :
    AllDeclared providers routing
      ↔ ∀ s ∈ keptStated raw overrideDefault disabled, ¬InheritedOnly raw providers s := by
  obtain ⟨_, -, -, -, hresolvable⟩ := parseRouting_eq_ok.mp h
  obtain ⟨hspecs, pools, hstated, hpools, hpolicies, hprototype⟩ := stated_of_parseRouting hkeys h
  have hmembers : routing.members = pools.members := by
    rw [Routing.members, hpools]
    rfl
  have hown (name : Text) : routing.poolTable.own.has name = true
      ↔ name ∈ statedPoolNames raw ∧ name ≠ protoName := by
    rw [Routing.poolTable, hpools, OrderedMap.has, ← OrderedMap.mem_keys_iff, hstated.keys,
      List.mem_filter, decide_eq_true_eq]
    rfl
  have hproto : routing.poolTable.prototype.isSome = true → protoName ∈ statedPoolNames raw := by
    rw [Routing.poolTable, hprototype]
    exact hstated.prototype
  -- what a member resolves to does not depend on the pools
  have hmember (s : Text) (hs : s ∈ routing.members) :
      (splitSpec s).provider ≠ POOL_PREFIX
        ∧ (Declared providers routing.poolTable.own s ↔ ¬InheritedOnly raw providers s) := by
    obtain ⟨pool, hpool, hin⟩ := List.mem_flatMap.mp hs
    have hresolves := hresolvable.pools pool hpool s hin
    rw [hmembers] at hs
    have hne := provider_ne_of_member hresolves (hstated.flat s hs)
    refine ⟨hne, declared_iff hown hproto ?_⟩
    unfold Resolves at hresolves ⊢
    rw [if_neg hne] at hresolves ⊢
    exact hresolves
  have hkept (s : Text) : s ∈ keptStated raw overrideDefault disabled
      ↔ s ∈ routing.specs ∨ s ∈ routing.members := by
    rw [keptStated, List.mem_append, hspecs, hmembers, hstated.members]
    rfl
  constructor
  · intro hall s hs
    rcases (hkept s).mp hs with hspec | hin
    · exact (declared_iff hown hproto (resolves_of_mem_specs hresolvable hspec)).mp
        (hall.specs s hspec)
    · exact (hmember s hin).2.mp (hall.members s hin).1
  · intro hnone
    have hmembersDeclared (s : Text) (hs : s ∈ routing.members) :
        Declared providers (routing.pools.getD .empty) s ∧ (splitSpec s).provider ≠ POOL_PREFIX :=
      ⟨(hmember s hs).2.mpr (hnone s ((hkept s).mpr (.inr hs))), (hmember s hs).1⟩
    refine ⟨fun s hs => ?_, hmembersDeclared, fun s hs => ?_⟩
    · exact (declared_iff hown hproto (resolves_of_mem_specs hresolvable hs)).mpr
        (hnone s ((hkept s).mpr (.inl hs)))
    · -- a preferred prefix lists members of its pool
      obtain ⟨policy, hpolicy, hin⟩ := List.mem_flatMap.mp hs
      rw [hpolicies] at hpolicy
      apply hmembersDeclared s
      rw [hmembers]
      exact hstated.preferred policy hpolicy s hin

end Parsed

/-- A block with one pool and one tier. -/
def sampleTier (spec : Text) : Json :=
  .obj
    [(text "default", .str (text "good/m")),
      (text "tiers", .obj [(text "fast", .str spec)]),
      (text "pools", .obj [(text "coding", .arr [.str (text "good/m")])])]

theorem nodup_sampleTier (spec key : Text) :
    ((objectEntries ((sampleTier spec).get? key)).map Prod.fst).Nodup := by
  unfold sampleTier Json.get?
  dsimp only [lookupEntry]
  split
  · exact List.nodup_nil
  · split
    · exact List.nodup_singleton _
    · split
      · exact List.nodup_singleton _
      · exact List.nodup_nil

theorem specs_declared_iff_coding :
    ∃ routing warnings,
      parseRouting noBlocks (sampleTier (text "pool/coding")) sampleProviders none []
          = .ok (routing, warnings)
        ∧ (AllDeclared sampleProviders routing
          ↔ ∀ s ∈ keptStated (sampleTier (text "pool/coding")) none [],
            ¬InheritedOnly (sampleTier (text "pool/coding")) sampleProviders s) := by
  have haccepts : ∃ routing warnings,
      parseRouting noBlocks (sampleTier (text "pool/coding")) sampleProviders none []
        = .ok (routing, warnings) :=
    ⟨_, _, rfl⟩
  obtain ⟨routing, warnings, haccepts⟩ := haccepts
  exact ⟨routing, warnings, haccepts, specs_declared_iff (nodup_sampleTier _) haccepts⟩

/-- A pool that no document declares is accepted under a name that objects inherit. -/
theorem inherited_pool_accepted :
    ¬∀ (raw : Json) (providers : Providers) (overrideDefault : Option Text)
        (disabled : List Text) (routing : Routing Unit) (warnings : List Text),
      (∀ key, ((objectEntries (raw.get? key)).map Prod.fst).Nodup) →
        parseRouting noBlocks raw providers overrideDefault disabled = .ok (routing, warnings) →
          AllDeclared providers routing := by
  intro h
  have hall := h (sampleTier (text "pool/toString")) sampleProviders none [] _ _
    (nodup_sampleTier _) rfl
  have hdeclared := hall.specs (text "pool/toString") (by decide)
  obtain ⟨name, hname, hpool⟩ := hdeclared
  obtain rfl : text "toString" = name := Option.some.inj hname
  exact absurd hpool (by decide)

end LlmRelay.Config
