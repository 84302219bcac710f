import LlmRelay.Reload.ConfigReload

/-!
# A reload is atomic and exact

Two configurations that agree on what needs a restart differ only where a reload copies; what
is refused is refused before the first assignment.

## Main results

* `mem_configReloadChangedPaths_iff`: the paths that are reported;
* `deepEquals_applyConfigReload`: the live configuration afterwards;
* `applyConfigReload_exact`: a candidate is refused, or taken over and reported exactly.
-/

namespace LlmRelay.Reload

open Ecma

variable {α : Type*} [DecidableEq α]

/-! ## Lists of paths -/

@[simp] theorem mem_sortedUnique {paths : List Text} {p : Text} :
    p ∈ sortedUnique paths ↔ p ∈ paths := by
  simp [sortedUnique]

theorem nodup_sortedUnique (paths : List Text) : (sortedUnique paths).Nodup :=
  (List.mergeSort_perm _ _).nodup_iff.mpr (List.nodup_dedup paths)

@[simp] theorem mem_noteIfChanged {β : Type*} [DecidableEq β] {paths : List Text}
    {path p : Text} {before after : β} :
    p ∈ noteIfChanged paths path before after ↔ p ∈ paths ∨ p = path ∧ before ≠ after := by
  unfold noteIfChanged
  split <;> simp_all

theorem mem_foldl_note {β : Type*} {note : List Text → β → List Text} (noted : β → Text → Prop)
    {p : Text} (xs : List β)
    (h : ∀ paths, ∀ x ∈ xs, p ∈ note paths x ↔ p ∈ paths ∨ noted x p) (paths : List Text) :
    p ∈ xs.foldl note paths ↔ p ∈ paths ∨ ∃ x ∈ xs, noted x p := by
  induction xs generalizing paths with
  | nil => simp
  | cons x xs ih =>
    rw [List.foldl_cons, ih (fun paths x' hx' => h paths x' (List.mem_cons_of_mem _ hx')),
      h paths x List.mem_cons_self, or_assoc]
    simp

theorem mem_foldl_noteIfChanged {κ : Type*} (fields : List κ) (path : κ → Text)
    (before after : Properties κ α) (paths : List Text) (p : Text) :
    p ∈ fields.foldl (fun paths field =>
        noteIfChanged paths (path field) (before field) (after field)) paths
      ↔ p ∈ paths ∨ ∃ field ∈ fields, p = path field ∧ before field ≠ after field :=
  mem_foldl_note (fun field p => p = path field ∧ before field ≠ after field) fields
    (fun _ _ _ => mem_noteIfChanged) paths

/-! ## Providers of the same names -/

omit [DecidableEq α] in
theorem mem_providerNames {cfg : Config α} {name : Text} :
    name ∈ providerNames cfg ↔ (cfg.providers.get? name).isSome := by
  rw [providerNames, List.mem_mergeSort, Option.isSome_iff_ne_none, ne_eq, OrderedMap.get?,
    lookupEntry_eq_none_iff, not_not, OrderedMap.keys]

omit [DecidableEq α] in
theorem nodup_providerNames (cfg : Config α) : (providerNames cfg).Nodup :=
  (List.mergeSort_perm _ _).nodup_iff.mpr cfg.providers.nodup

variable {live candidate : Config α}

omit [DecidableEq α] in
theorem providers_of_names (h : providerNames live = providerNames candidate) (name : Text) :
    (∃ before after, live.providers.get? name = some before
        ∧ candidate.providers.get? name = some after)
      ∨ live.providers.get? name = none ∧ candidate.providers.get? name = none := by
  have hiff : (live.providers.get? name).isSome ↔ (candidate.providers.get? name).isSome := by
    rw [← mem_providerNames, ← mem_providerNames, h]
  cases hlive : live.providers.get? name <;> cases hcandidate : candidate.providers.get? name <;>
    simp_all

/-! ## What a restart is needed for -/

/-- The two providers agree on what needs a restart. -/
structure SameProviderIdentity (before after : ProviderConfig α) : Prop where
  property : ∀ key ∈ PROVIDER_RESTART_FIELDS, before.property key = after.property key
  credentials : credentialIdentityList before = credentialIdentityList after

/-- The two configurations agree on what needs a restart. -/
structure Applicable (live candidate : Config α) : Prop where
  property : ∀ key ∈ [ConfigKey.host, .port, .log, .sourcePath],
    live.property key = candidate.property key
  destructiveTools : live.repair .destructiveTools = candidate.repair .destructiveTools
  names : providerNames live = providerNames candidate
  provider : ∀ name before after, live.providers.get? name = some before →
    candidate.providers.get? name = some after → SameProviderIdentity before after
  routing : ∀ key ∈ ROUTING_RESTART_FIELDS, live.routing key = candidate.routing key

/-- The provider differs in something that needs a restart, and the path says in what. -/
def ProviderNeedsRestart (live candidate : Config α) (name p : Text) : Prop :=
  ∃ before after, live.providers.get? name = some before
    ∧ candidate.providers.get? name = some after
    ∧ ((∃ key ∈ PROVIDER_RESTART_FIELDS, p = providerPath name key.name
        ∧ before.property key ≠ after.property key)
      ∨ p = providerPath name (text "credentials")
        ∧ credentialIdentityList before ≠ credentialIdentityList after)

theorem mem_noteProviderRestart (live candidate : Config α) (paths : List Text) (name p : Text) :
    p ∈ noteProviderRestart live candidate paths name
      ↔ p ∈ paths ∨ ProviderNeedsRestart live candidate name p := by
  unfold noteProviderRestart ProviderNeedsRestart
  split
  · rename_i before after hbefore hafter
    rw [mem_noteIfChanged, mem_foldl_noteIfChanged PROVIDER_RESTART_FIELDS
      (fun key => providerPath name key.name), or_assoc]
    simp [hbefore, hafter]
  · rename_i hmissing
    refine (or_iff_left ?_).symm
    rintro ⟨before, after, hbefore, hafter, -⟩
    exact hmissing before after hbefore hafter

theorem mem_foldl_noteProviderRestart (live candidate : Config α) (names paths : List Text)
    (p : Text) :
    p ∈ names.foldl (noteProviderRestart live candidate) paths
      ↔ p ∈ paths ∨ ∃ name ∈ names, ProviderNeedsRestart live candidate name p :=
  mem_foldl_note _ names
    (fun paths name _ => mem_noteProviderRestart live candidate paths name p) paths

theorem applicable_of_no_restart
    (h : configReloadRestartPaths live candidate = []) : Applicable live candidate := by
  have hnone : ∀ p, p ∉ configReloadRestartPaths live candidate := by
    rw [h]
    exact fun p => List.not_mem_nil
  simp only [configReloadRestartPaths, mem_sortedUnique,
    mem_foldl_noteIfChanged ROUTING_RESTART_FIELDS (fun key => routingPath key.name),
    not_or] at hnone
  have hrouting : ∀ key ∈ ROUTING_RESTART_FIELDS, live.routing key = candidate.routing key := by
    intro key hkey
    by_contra hne
    exact (hnone _).2 ⟨key, hkey, rfl, hne⟩
  have hnames : providerNames live = providerNames candidate := by
    by_contra hne
    refine (hnone (text "providers")).1 ?_
    rw [if_neg hne]
    exact List.mem_append_right _ (List.mem_singleton_self _)
  have hfront := fun p => (hnone p).1
  simp only [if_pos hnames, mem_foldl_noteProviderRestart, mem_noteIfChanged, not_or] at hfront
  refine ⟨?_, ?_, hnames, ?_, hrouting⟩
  · intro key hkey
    by_contra hne
    have := hfront key.name
    simp only [List.mem_cons, List.not_mem_nil, or_false] at hkey
    rcases hkey with rfl | rfl | rfl | rfl <;> simp_all [ConfigKey.name]
  · by_contra hne
    exact (hfront (text "repair.destructiveTools")).1.1.2 ⟨rfl, hne⟩
  · intro name before after hbefore hafter
    have hname : name ∈ providerNames live := mem_providerNames.mpr (by simp [hbefore])
    constructor
    · intro key hkey
      by_contra hne
      exact (hfront (providerPath name key.name)).2
        ⟨name, hname, before, after, hbefore, hafter, .inl ⟨key, hkey, rfl, hne⟩⟩
    · by_contra hne
      exact (hfront (providerPath name (text "credentials"))).2
        ⟨name, hname, before, after, hbefore, hafter, .inr ⟨rfl, hne⟩⟩

/-! ## What is reported -/

omit [DecidableEq α] in
/-- Slots of the same identity are equally many, and slot by slot differ in their limits at
most. -/
theorem slots_of_sameProviderIdentity {before after : ProviderConfig α}
    (h : SameProviderIdentity before after) :
    (before.credentials = none ∧ after.credentials = none)
      ∨ ∃ current next, before.credentials = some current ∧ after.credentials = some next
        ∧ current.map credentialIdentity = next.map credentialIdentity := by
  have hlists := h.credentials
  unfold credentialIdentityList at hlists
  cases hbefore : before.credentials <;> cases hafter : after.credentials <;> simp_all

/-- A reloadable place of one provider differs, and has the path. -/
def ProviderChanged (live candidate : Config α) (name p : Text) : Prop :=
  (∃ key ∈ PROVIDER_RELOADABLE_FIELDS, p = (Location.provider name key).path
      ∧ (Location.provider name key).read live ≠ (Location.provider name key).read candidate)
    ∨ ∃ index, p = (Location.credential name index .limits).path
      ∧ (Location.credential name index .limits).read live
        ≠ (Location.credential name index .limits).read candidate

theorem credentialLimitsPath_eq (name : Text) (index : Nat) :
    credentialLimitsPath name index = (Location.credential name index .limits).path := by
  simp [credentialLimitsPath, Location.path, CredentialKey.name, text]

variable (h : Applicable live candidate)

include h

theorem mem_noteProviderChanged (paths : List Text) (name p : Text) :
    p ∈ noteProviderChanged live candidate paths name
      ↔ p ∈ paths ∨ ProviderChanged live candidate name p := by
  rcases providers_of_names h.names name with ⟨before, after, hbefore, hafter⟩ | ⟨hlive, hnone⟩
  · have hsame := h.provider name before after hbefore hafter
    unfold noteProviderChanged
    rw [hbefore, hafter]
    simp only
    rcases slots_of_sameProviderIdentity hsame with ⟨hcur, hnext⟩ | ⟨current, next, hcur, hnext, hids⟩
    · rw [hcur, mem_foldl_noteIfChanged PROVIDER_RELOADABLE_FIELDS
        (fun key => providerPath name key.name)]
      simp [ProviderChanged, Location.read, Location.path, hbefore, hafter, hcur, hnext]
    · have hlength : current.length = next.length := by
        simpa using congrArg List.length hids
      rw [hcur, hnext]
      simp only
      rw [if_pos hsame.credentials, mem_foldl_noteIfChanged (List.range current.length)
        (credentialLimitsPath name) (fun index => current[index]?.bind (· .limits))
        (fun index => next[index]?.bind (· .limits)),
        mem_foldl_noteIfChanged PROVIDER_RELOADABLE_FIELDS
        (fun key => providerPath name key.name), or_assoc]
      refine or_congr Iff.rfl (or_congr ?_ ?_)
      · simp [Location.read, Location.path, hbefore, hafter]
      · simp only [credentialLimitsPath_eq, Location.read, hbefore, hafter, hcur, hnext,
          Option.bind_some]
        refine exists_congr fun index => and_iff_right_of_imp ?_
        rintro ⟨-, hne⟩
        -- behind the last slot there is nothing on either side
        rw [List.mem_range]
        by_contra hout
        rw [List.getElem?_eq_none (not_lt.mp hout),
          List.getElem?_eq_none (hlength ▸ not_lt.mp hout)] at hne
        exact hne rfl
  · unfold noteProviderChanged
    simp [ProviderChanged, Location.read, hlive, hnone]

theorem mem_foldl_noteProviderChanged (paths : List Text) (p : Text) :
    p ∈ (providerNames live).foldl (noteProviderChanged live candidate) paths
      ↔ p ∈ paths ∨ ∃ name, ProviderChanged live candidate name p := by
  rw [mem_foldl_note _ (providerNames live)
    (fun paths name _ => mem_noteProviderChanged h paths name p)]
  refine or_congr Iff.rfl (exists_congr fun name => and_iff_right_of_imp fun hchanged => ?_)
  -- where there is no provider there is nothing to differ
  rw [mem_providerNames]
  rcases providers_of_names h.names name with ⟨before, -, hbefore, -⟩ | ⟨hlive, hnone⟩
  · rw [hbefore]
    rfl
  · simp [ProviderChanged, Location.read, hlive, hnone] at hchanged

/-- **What is reported**: the paths of the reloadable places where the two differ. -/
theorem mem_configReloadChangedPaths_iff (p : Text) :
    p ∈ configReloadChangedPaths live candidate
      ↔ ∃ place : Location, place.Reloadable ∧ place.path = p
        ∧ place.read live ≠ place.read candidate := by
  simp only [configReloadChangedPaths, mem_sortedUnique, if_pos h.names,
    mem_foldl_noteIfChanged ROUTING_RELOADABLE_FIELDS (fun key => routingPath key.name),
    mem_foldl_noteProviderChanged h, mem_noteIfChanged, List.not_mem_nil, false_or]
  constructor
  · rintro ((hfixed | ⟨name, ⟨key, hkey, rfl, hne⟩ | ⟨index, rfl, hne⟩⟩) | ⟨key, hkey, rfl, hne⟩)
    · rcases hfixed with
        ((((((⟨rfl, hne⟩ | ⟨rfl, hne⟩) | ⟨rfl, hne⟩) | ⟨rfl, hne⟩) | ⟨rfl, hne⟩) | ⟨rfl, hne⟩)
          | ⟨rfl, hne⟩) | ⟨rfl, hne⟩
      · exact ⟨.config .mode, by simp [Location.Reloadable], rfl, hne⟩
      · exact ⟨.config .reshaper, by simp [Location.Reloadable], rfl, hne⟩
      · exact ⟨.config .reshaperCandidates, by simp [Location.Reloadable], rfl, hne⟩
      · exact ⟨.config .reshaperPool, by simp [Location.Reloadable], rfl, hne⟩
      · exact ⟨.repair .maxAttempts, rfl, rfl, hne⟩
      · exact ⟨.config .walkBudgetMs, by simp [Location.Reloadable], rfl, hne⟩
      · exact ⟨.config .maxBodyBytes, by simp [Location.Reloadable], rfl, hne⟩
      · exact ⟨.config .leaveMeAlone, by simp [Location.Reloadable], rfl, hne⟩
    · exact ⟨.provider name key, hkey, rfl, hne⟩
    · exact ⟨.credential name index .limits, rfl, rfl, hne⟩
    · exact ⟨.routing key, hkey, rfl, hne⟩
  · rintro ⟨place, hplace, rfl, hne⟩
    cases place with
    | config key =>
      refine .inl (.inl ?_)
      cases key with
      | mode => exact .inl (.inl (.inl (.inl (.inl (.inl (.inl ⟨rfl, hne⟩))))))
      | reshaper => exact .inl (.inl (.inl (.inl (.inl (.inl (.inr ⟨rfl, hne⟩))))))
      | reshaperCandidates => exact .inl (.inl (.inl (.inl (.inl (.inr ⟨rfl, hne⟩)))))
      | reshaperPool => exact .inl (.inl (.inl (.inl (.inr ⟨rfl, hne⟩))))
      | walkBudgetMs => exact .inl (.inl (.inr ⟨rfl, hne⟩))
      | maxBodyBytes => exact .inl (.inr ⟨rfl, hne⟩)
      | leaveMeAlone => exact .inr ⟨rfl, hne⟩
      | host | port | log | sourcePath | sourceMtimeMs | warnings =>
        simp [Location.Reloadable] at hplace
    | repair key =>
      cases hplace
      exact .inl (.inl (.inl (.inl (.inl (.inr ⟨rfl, hne⟩)))))
    | provider name key => exact .inl (.inr ⟨name, .inl ⟨key, hplace, rfl, hne⟩⟩)
    | credential name index key =>
      cases hplace
      exact .inl (.inr ⟨name, .inr ⟨index, rfl, hne⟩⟩)
    | routing key => exact .inr ⟨key, hplace, rfl, hne⟩

omit h

/-! ## What is left behind -/

omit [DecidableEq α] in
theorem replaceProperties_apply {κ : Type*} [DecidableEq κ] (fields : List κ)
    (target source : Properties κ α) (key : κ) :
    replaceProperties fields target source key
      = if key ∈ fields then source key else target key := by
  unfold replaceProperties
  induction fields generalizing target with
  | nil => rfl
  | cons field rest ih =>
    rw [List.foldl_cons, ih, replaceProperty, Function.update_apply]
    by_cases hkey : key = field
    · subst hkey
      simp
    · simp [hkey]

omit [DecidableEq α] in
theorem replaceProperty_limits {current next : ProviderCredentialConfig α}
    (h : credentialIdentity current = credentialIdentity next) :
    replaceProperty current .limits (next .limits) = next := by
  funext key
  have hkey := congrFun h key
  by_cases hlimits : key = .limits
  · subst hlimits
    simp [replaceProperty]
  · simpa [credentialIdentity, replaceProperty, hlimits] using hkey

omit [DecidableEq α] in
theorem replaceLimits_of_identity {current next : List (ProviderCredentialConfig α)}
    (h : current.map credentialIdentity = next.map credentialIdentity) :
    replaceLimits current next = next := by
  induction current generalizing next with
  | nil =>
    cases next with
    | nil => rfl
    | cons slot rest => cases h
  | cons slot rest ih =>
    cases next with
    | nil => cases h
    | cons slot' rest' =>
      rw [List.map_cons, List.map_cons, List.cons.injEq] at h
      rw [replaceLimits, replaceProperty_limits h.1, ih h.2]

omit [DecidableEq α] in
theorem applyProviderPolicy_eq {current next : ProviderConfig α}
    (h : SameProviderIdentity current next) : applyProviderPolicy current next = next := by
  have hproperty : (applyProviderPolicy current next).property = next.property := by
    funext key
    unfold applyProviderPolicy
    dsimp only
    rw [replaceProperties_apply]
    split
    · rfl
    · rename_i hkey
      exact h.property key ((provider_fields_complete key).resolve_left hkey)
  have hcredentials : (applyProviderPolicy current next).credentials = next.credentials := by
    unfold applyProviderPolicy
    rcases slots_of_sameProviderIdentity h with ⟨hcur, hnext⟩ | ⟨slots, slots', hcur, hnext, hids⟩
    · simp [hcur, hnext]
    · simp [hcur, hnext, replaceLimits_of_identity hids]
  cases hresult : applyProviderPolicy current next
  cases next
  simp_all

omit [DecidableEq α] in
theorem get?_applyProvider (candidate : Config α)
    (providers : OrderedMap Text (ProviderConfig α)) (name name' : Text) :
    (applyProvider candidate providers name).get? name' = if name = name' then
      (providers.get? name).map fun current =>
        (candidate.providers.get? name).elim current (applyProviderPolicy current)
      else providers.get? name' := by
  unfold applyProvider
  split
  · rename_i current next hcur hnext
    rw [OrderedMap.get?_set, hcur, hnext]
    rfl
  · rename_i hmissing
    by_cases h : name = name'
    · subst h
      cases hcur : providers.get? name <;> cases hnext : candidate.providers.get? name <;>
        simp_all
    · simp [h]

omit [DecidableEq α] in
theorem get?_foldl_applyProvider (candidate : Config α) {names : List Text}
    (hnames : names.Nodup) (providers : OrderedMap Text (ProviderConfig α)) (name : Text) :
    (names.foldl (applyProvider candidate) providers).get? name = if name ∈ names then
      (providers.get? name).map fun current =>
        (candidate.providers.get? name).elim current (applyProviderPolicy current)
      else providers.get? name := by
  induction names generalizing providers with
  | nil => rfl
  | cons first rest ih =>
    rw [List.nodup_cons] at hnames
    rw [List.foldl_cons, ih hnames.2, get?_applyProvider]
    by_cases h : first = name
    · subst h
      simp [hnames.1]
    · simp [h, Ne.symm h]

/-- The live configuration after a reload is the candidate. -/
theorem deepEquals_applyConfigReload (hnone : configReloadRestartPaths live candidate = []) :
    (applyConfigReload live candidate).2.DeepEquals candidate := by
  have h := applicable_of_no_restart hnone
  unfold applyConfigReload
  rw [hnone]
  simp only [List.length_nil, lt_irrefl, if_false]
  constructor
  · intro key
    simp only [replaceProperty, Function.update_apply, replaceProperties_apply]
    cases key <;> simp [h.property]
  · intro key
    cases key with
    | maxAttempts => simp [replaceProperty]
    | destructiveTools => simpa [replaceProperty] using h.destructiveTools
  · intro name
    -- the assignments before the loop left the providers alone
    change ((providerNames live).foldl (applyProvider candidate) live.providers).get? name = _
    rw [get?_foldl_applyProvider candidate (nodup_providerNames live)]
    rcases providers_of_names h.names name with ⟨before, after, hbefore, hafter⟩ | ⟨hlive, hno⟩
    · have hname : name ∈ providerNames live := mem_providerNames.mpr (by simp [hbefore])
      rw [if_pos hname, hbefore, hafter]
      simp [applyProviderPolicy_eq (h.provider name before after hbefore hafter)]
    · simp [hlive, hno]
  · intro key
    simp only
    rw [replaceProperties_apply]
    split
    · rfl
    · rename_i hkey
      exact h.routing key ((routing_fields_complete key).resolve_left hkey)

/-- **A reload is atomic and exact**: the candidate is refused and the live configuration is
what it was, or afterwards the live configuration is the candidate, and the paths reported are
those of the reloadable places where the two differed, each once. -/
theorem applyConfigReload_exact (live candidate : Config α) :
    (∃ paths, applyConfigReload live candidate = (.refused paths, live))
      ∨ (applyConfigReload live candidate).2.DeepEquals candidate
        ∧ ∃ changed, (applyConfigReload live candidate).1 = .applied changed
          ∧ changed.Nodup
          ∧ ∀ p, p ∈ changed ↔ ∃ place : Location, place.Reloadable ∧ place.path = p
              ∧ place.read live ≠ place.read candidate := by
  cases hpaths : configReloadRestartPaths live candidate with
  | cons path rest =>
    left
    exact ⟨path :: rest, by simp [applyConfigReload, hpaths]⟩
  | nil =>
    right
    refine ⟨deepEquals_applyConfigReload hpaths, configReloadChangedPaths live candidate, ?_,
      nodup_sortedUnique _, ?_⟩
    · simp [applyConfigReload, hpaths]
    · exact mem_configReloadChangedPaths_iff (applicable_of_no_restart hpaths)

end LlmRelay.Reload
