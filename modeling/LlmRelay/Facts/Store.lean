import LlmRelay.Ecma.Table
import LlmRelay.Facts.Scope

/-!
# The store of learned facts

A fact is learned about a scope, holds until it expires, and may be limited to some cost
classes (`target-facts.ts`). The store files facts under the text of their kind and scope;
what it answers about a target are the unexpired facts that cover it.

## Main definitions

* `StoredFact`, `FactStore`: the facts, filed under `keyOf`;
* `recordFact`, `clearFacts`, `clearMatchingActiveFacts`, `prune`: the operations;
* `factsFor`: the answer about a target;
* `FactMap`: the facts by kind and scope, with the same operations;
* `StoredFact.Sound`: what holds of every fact that is stored.

## Main results

* `index_recordFact_iff`: a fact is recorded as in the map by kind and scope exactly when its
  scope is not confusable with that of another fact of its kind.
-/

namespace LlmRelay.Facts

open Ecma

/-! ## Facts -/

/-- What was learned: the conditions first, then the measurements. -/
inductive FactKind where
  | notServable | subscriptionRequired | allowanceExhausted | credentialInvalid | rateLimited
  | contextLimit | maxOutput | rateLimitRpm | rateLimitRpd | rateLimitTpm | rateLimitTpd
  deriving DecidableEq

def FactKind.name : FactKind → String
  | notServable => "not-servable"
  | subscriptionRequired => "subscription-required"
  | allowanceExhausted => "allowance-exhausted"
  | credentialInvalid => "credential-invalid"
  | rateLimited => "rate-limited"
  | contextLimit => "context-limit"
  | maxOutput => "max-output"
  | rateLimitRpm => "rate-limit-rpm"
  | rateLimitRpd => "rate-limit-rpd"
  | rateLimitTpm => "rate-limit-tpm"
  | rateLimitTpd => "rate-limit-tpd"

def FACT_KINDS : List FactKind :=
  [.notServable, .subscriptionRequired, .allowanceExhausted, .credentialInvalid, .rateLimited,
    .contextLimit, .maxOutput, .rateLimitRpm, .rateLimitRpd, .rateLimitTpm, .rateLimitTpd]

/-- How long a fact holds whose expiry was not stated. -/
def FACT_TTL_MS : FactKind → Number
  | .notServable => .fin (6 * 60 * 60 * 1000)
  | .subscriptionRequired => .fin (24 * 60 * 60 * 1000)
  | .allowanceExhausted => .fin (60 * 60 * 1000)
  | .credentialInvalid => .fin (15 * 60 * 1000)
  | .rateLimited => .fin (2 * 60 * 1000)
  | _ => .fin (30 * 24 * 60 * 60 * 1000)

/-- Does a success disprove the fact? -/
def CONDITIONS : FactKind → Bool
  | .notServable | .subscriptionRequired | .allowanceExhausted | .credentialInvalid
  | .rateLimited => true
  | _ => false

/-- Does the fact cool a target? -/
def COOLING : FactKind → Bool
  | .allowanceExhausted | .credentialInvalid | .rateLimited => true
  | _ => false

/-- How a stated expiry was found. -/
inductive FactResetBasis where
  | retryAfter | reviewedField | statedBody | reviewedFixed
  deriving DecidableEq

def FactResetBasis.name : FactResetBasis → String
  | retryAfter => "retry-after"
  | reviewedField => "reviewed-field"
  | statedBody => "stated-body"
  | reviewedFixed => "reviewed-fixed"

def UNTIL_BASES : List FactResetBasis :=
  [.retryAfter, .reviewedField, .statedBody, .reviewedFixed]

inductive CostClass where
  | free | paid | unknown
  deriving DecidableEq

def CostClass.name : CostClass → String
  | free => "free"
  | paid => "paid"
  | unknown => "unknown"

def COST_CLASSES : List CostClass :=
  [.free, .paid, .unknown]

def CostClass.ofName? : Option Json → Option CostClass :=
  LlmRelay.ofName? name COST_CLASSES

/-- The classes as a value. -/
def CostClass.listToJson (classes : List CostClass) : Json :=
  .arr (classes.map fun c => Json.ofString c.name)

/-- The cost filter of a value; absent, for every class, where the value is not a list of classes
or is empty. -/
def normalizeCostClasses (raw : Option Json) : Option (List CostClass) :=
  (Json.array? raw).bind fun items =>
    if items = [] then none
    else if items.all fun c => (CostClass.ofName? (some c)).isSome then
      some (items.filterMap fun c => CostClass.ofName? (some c))
    else none

structure StoredFact where
  kind : FactKind
  scope : FactScope
  at_ : Number
  until_ : Option Number
  value : Option Number
  untilBasis : Option FactResetBasis
  costClasses : Option (List CostClass)
  deriving DecidableEq

/-- The key of a fact. -/
def keyOf (kind : FactKind) (scope : FactScope) : Text :=
  text kind.name ++ 0x3A :: keyOfScope scope

/-- What a fact is about. -/
def StoredFact.subject (fact : StoredFact) : FactKind × FactScope :=
  (fact.kind, fact.scope)

/-- The facts, filed under their keys. -/
abbrev FactStore :=
  Table StoredFact.subject fun subject => keyOf subject.1 subject.2

/-- The facts by kind and scope. -/
abbrev FactMap :=
  OrderedMap (FactKind × FactScope) StoredFact

/-! ## Operations -/

/-- When a fact expires. -/
def expiryOf (fact : StoredFact) : Number :=
  fact.until_.getD (fact.at_.add (FACT_TTL_MS fact.kind))

/-- Has the fact expired? -/
def expired (now : Number) (fact : StoredFact) : Bool :=
  (expiryOf fact).le now

/-- Does the fact apply to the target? -/
def covers (fact : StoredFact) (provider : Text) (credentialId model : Option Text) : Bool :=
  match fact.scope with
  | .attempt p id m => credentialId = some id && model = some m && p = provider
  | .group p id members =>
    model.any (fun m => members.contains m) && p = provider
      && (id.isNone || credentialId.isSome && id = credentialId)
  | .deployment p m => model = some m && p = provider
  | .credential p id => credentialId = some id && p = provider
  | .provider p => p = provider
  | .model m => model = some m

structure RecordOptions where
  now : Number
  retryAfterMs : Option Number
  untilBasis : Option FactResetBasis
  value : Option Number
  costClasses : Option (List CostClass)

/-- The fact that is recorded about a scope. -/
def recordedFact (kind : FactKind) (scope : FactScope) (opts : RecordOptions) : StoredFact :=
  let stated := opts.retryAfterMs.filter fun ms => ms.isFinite && Number.lt 0 ms
  { kind
    scope := normalizeScope scope
    at_ := opts.now
    until_ := stated.map opts.now.add
    -- a basis explains a stated expiry
    untilBasis := if stated.isSome then opts.untilBasis else none
    value := opts.value.filter Number.isFinite
    costClasses := normalizeCostClasses (opts.costClasses.map CostClass.listToJson) }

/-- A fact of a scope that does not pass the check, or at a time that is not finite, is not
recorded. -/
def recordable (scope : FactScope) (opts : RecordOptions) : Bool :=
  isValidScope scope.toJson && opts.now.isFinite

def recordFact (store : FactStore) (kind : FactKind) (scope : FactScope) (opts : RecordOptions) :
    FactStore :=
  if recordable scope opts then store.put (recordedFact kind scope opts) else store

/-- Does the cost filter of the fact admit the class? -/
def costFilterAdmits (fact : StoredFact) (costClass : Option CostClass) : Bool :=
  fact.costClasses.all fun classes => costClass.any fun c => classes.contains c

/-- A fact as it is reported. -/
structure ReportedFact where
  kind : FactKind
  scope : FactScope
  until_ : Number
  untilBasis : Option FactResetBasis
  value : Option Number
  deriving DecidableEq

/-- The unexpired facts about a target, the most specific first. -/
def factsFor (facts : List StoredFact) (provider : Text) (credentialId model : Option Text)
    (now : Number) (costClass : Option CostClass) : List ReportedFact :=
  let hits := facts.filter fun fact =>
    now.lt (expiryOf fact) && covers fact provider credentialId model
      && costFilterAdmits fact costClass
  (hits.map fun fact => ⟨fact.kind, fact.scope, expiryOf fact, fact.untilBasis, fact.value⟩).mergeSort
    fun a b => SCOPE_PRECEDENCE.idxOf a.scope.kind ≤ SCOPE_PRECEDENCE.idxOf b.scope.kind

/-- Does a success of the target disprove the fact? -/
def disproved (provider : Text) (credentialId model : Option Text) (costClass : Option CostClass)
    (fact : StoredFact) : Bool :=
  CONDITIONS fact.kind && covers fact provider credentialId model
    && costFilterAdmits fact costClass

/-- A success retracts conditions of the target; the kinds of its credential's facts are
reported. -/
def clearFacts (store : FactStore) (provider : Text) (credentialId model : Option Text)
    (costClass : Option CostClass) : List FactKind × FactStore :=
  let cleared := disproved provider credentialId model costClass
  (((store.rows.values.filter cleared).filter fun fact => fact.scope.kind = .credential).map
      StoredFact.kind,
    store.removeWhere cleared)

/-- Which facts an operator addresses. -/
structure CooldownFactClearSelector where
  provider : Text
  model : Option Text
  credentialId : Option Text

/-- Does the whole scope fit inside the selection? -/
def matchesClearSelector (scope : FactScope) (selector : CooldownFactClearSelector) : Bool :=
  match scope with
  | .attempt p id m =>
    p = selector.provider && selector.model.all (fun model => m = model)
      && selector.credentialId.all (fun credentialId => id = credentialId)
  | .group p id members =>
    p = selector.provider
      && selector.model.all (fun model => members.all fun member => member = model)
      && selector.credentialId.all (fun credentialId => id = some credentialId)
  | .deployment p m =>
    p = selector.provider && selector.credentialId.isNone
      && selector.model.all (fun model => m = model)
  | .credential p id =>
    p = selector.provider && selector.model.isNone
      && selector.credentialId.all (fun credentialId => id = credentialId)
  | .provider p => p = selector.provider && selector.model.isNone && selector.credentialId.isNone
  | .model _ => false

/-- A fact an operator cleared. -/
structure ClearedCooldownFact where
  kind : FactKind
  scope : FactScope
  deriving DecidableEq

/-- Is the fact active, addressed and of those that `wanted` names? -/
def retracted (selector : CooldownFactClearSelector) (now : Number) (wanted : StoredFact → Bool)
    (fact : StoredFact) : Bool :=
  wanted fact && !expired now fact && matchesClearSelector fact.scope selector

/-- Retracts active facts, and reports them in the order of the store. -/
def clearMatchingActiveFacts (store : FactStore) (selector : CooldownFactClearSelector)
    (now : Number) (wanted : StoredFact → Bool) : List ClearedCooldownFact × FactStore :=
  let cleared := retracted selector now wanted
  ((store.rows.values.filter cleared).map fun fact => ⟨fact.kind, fact.scope⟩,
    store.removeWhere cleared)

/-- What an operator retracts. -/
inductive ClearMode where
  | cooldown | credentialInvalid | paidAllowance
  deriving DecidableEq

/-- The facts of `clearCooldownFacts`, `clearCredentialInvalidFacts` and
`clearPaidAllowanceFacts`. -/
def ClearMode.wanted : ClearMode → StoredFact → Bool
  | cooldown, fact => COOLING fact.kind
  | credentialInvalid, fact => fact.kind = .credentialInvalid
  | paidAllowance, fact =>
    fact.kind = .allowanceExhausted && fact.costClasses.any fun classes =>
      classes.all fun c => c = .paid

def clearCooldownFacts (store : FactStore) (selector : CooldownFactClearSelector) (now : Number) :=
  clearMatchingActiveFacts store selector now ClearMode.cooldown.wanted

def clearCredentialInvalidFacts (store : FactStore) (selector : CooldownFactClearSelector)
    (now : Number) :=
  clearMatchingActiveFacts store selector now ClearMode.credentialInvalid.wanted

def clearPaidAllowanceFacts (store : FactStore) (selector : CooldownFactClearSelector)
    (now : Number) :=
  clearMatchingActiveFacts store selector now ClearMode.paidAllowance.wanted

/-- The clearing of each mode. -/
def ClearMode.clear :
    ClearMode → FactStore → CooldownFactClearSelector → Number → List ClearedCooldownFact × FactStore
  | cooldown => clearCooldownFacts
  | credentialInvalid => clearCredentialInvalidFacts
  | paidAllowance => clearPaidAllowanceFacts

theorem ClearMode.clear_eq (mode : ClearMode) (store : FactStore)
    (selector : CooldownFactClearSelector) (now : Number) :
    mode.clear store selector now
      = clearMatchingActiveFacts store selector now mode.wanted := by
  cases mode <;> rfl

/-- Drops what has expired, before the store is written. -/
def prune (store : FactStore) (now : Number) : FactStore :=
  store.removeWhere (expired now)

/-! ## Keys -/

theorem FactKind.name_injective : Function.Injective FactKind.name := by
  intro k k' h
  cases k <;> cases k' <;> first | rfl | exact absurd h (by decide)

theorem FactKind.colon_not_mem (kind : FactKind) : (0x3A : CodeUnit) ∉ text kind.name := by
  cases kind <;> decide

theorem keyOf_eq_iff {k k' : FactKind} {s s' : FactScope} :
    keyOf k s = keyOf k' s' ↔ k = k' ∧ keyOfScope s = keyOfScope s' := by
  constructor
  · intro h
    obtain ⟨hname, hscope⟩ := append_sep_inj k.colon_not_mem k'.colon_not_mem h
    exact ⟨FactKind.name_injective (text_injective hname), hscope⟩
  · rintro ⟨rfl, h⟩
    rw [keyOf, keyOf, h]

/-! ## Sound facts -/

/-- What holds of every fact that is stored. -/
structure StoredFact.Sound (fact : StoredFact) : Prop where
  valid : fact.scope.IsValid
  normal : fact.scope.IsNormal
  at_ : fact.at_.isFinite = true
  until_ : ∀ x, fact.until_ = some x → x.isFinite = true
  value : ∀ x, fact.value = some x → x.isFinite = true
  untilBasis : fact.untilBasis.isSome = true → fact.until_.isSome = true
  costClasses : ∀ classes, fact.costClasses = some classes → classes ≠ []

/-- Every fact of the store is sound. -/
def Sound (store : FactStore) : Prop :=
  ∀ fact ∈ store.rows.values, fact.Sound

theorem normalizeCostClasses_listToJson {classes : List CostClass} (h : classes ≠ []) :
    normalizeCostClasses (some (CostClass.listToJson classes)) = some classes := by
  have hname : ∀ c : CostClass, CostClass.ofName? (some (Json.ofString c.name)) = some c := by
    intro c
    cases c <;> decide
  simp [normalizeCostClasses, CostClass.listToJson, h, hname]

theorem ne_nil_of_normalizeCostClasses {raw : Option Json} {classes : List CostClass}
    (h : normalizeCostClasses raw = some classes) : classes ≠ [] := by
  obtain ⟨items, hitems, h⟩ := Option.bind_eq_some_iff.mp h
  split at h
  · cases h
  · rename_i hne
    split at h
    · rename_i hall
      cases h
      obtain ⟨c, hc⟩ := List.exists_mem_of_ne_nil items hne
      obtain ⟨cls, hcls⟩ := Option.isSome_iff_exists.mp (List.all_eq_true.mp hall c hc)
      exact List.ne_nil_of_mem (List.mem_filterMap.mpr ⟨c, hc, hcls⟩)
    · cases h

theorem sound_recordedFact {kind : FactKind} {scope : FactScope} {opts : RecordOptions}
    (h : recordable scope opts = true) : (recordedFact kind scope opts).Sound := by
  obtain ⟨hvalid, hnow⟩ := Bool.and_eq_true_iff.mp h
  refine ⟨(isValidScope_toJson.mp hvalid).normalize, isNormal_normalizeScope scope, hnow, ?_, ?_, ?_,
    ?_⟩
  · intro x hx
    obtain ⟨ms, hms, rfl⟩ := Option.map_eq_some_iff.mp hx
    have hfinite := (Bool.and_eq_true_iff.mp (Option.filter_eq_some_iff.mp hms).2).1
    exact Number.isFinite_add hnow hfinite
  · intro x hx
    exact (Option.filter_eq_some_iff.mp hx).2
  · intro hbasis
    unfold recordedFact at hbasis ⊢
    dsimp only at hbasis ⊢
    rw [Option.isSome_map]
    split at hbasis
    · assumption
    · cases hbasis
  · intro classes hclasses
    exact ne_nil_of_normalizeCostClasses hclasses

variable {store : FactStore}

theorem Sound.recordFact (h : Sound store) (kind : FactKind)
    (scope : FactScope) (opts : RecordOptions) : Sound (recordFact store kind scope opts) := by
  unfold Facts.recordFact
  split
  · intro fact hfact
    rcases Table.mem_values_put hfact with rfl | hold
    · exact sound_recordedFact ‹_›
    · exact h fact hold
  · exact h

theorem Sound.removeWhere (h : Sound store) (p : StoredFact → Bool) :
    Sound (store.removeWhere p) := by
  intro fact hfact
  rw [Table.values_removeWhere] at hfact
  exact h fact (List.mem_of_mem_filter hfact)

theorem Sound.prune (h : Sound store) (now : Number) : Sound (prune store now) :=
  h.removeWhere _

/-! ## Recording by kind and scope -/

/-- No fact of the kind has a scope confusable with the one that is recorded. -/
def Separate (store : FactStore) (kind : FactKind) (scope : FactScope) : Prop :=
  ∀ fact ∈ store.rows.values, fact.kind = kind → ¬ Confusable fact.scope (normalizeScope scope)

/-- Records a fact under its kind and scope. -/
def FactMap.recordFact (facts : FactMap) (kind : FactKind) (scope : FactScope)
    (opts : RecordOptions) : FactMap :=
  if recordable scope opts then
    let fact := recordedFact kind scope opts
    facts.set fact.subject fact
  else facts

/-- **A fact is recorded as in the map by kind and scope** exactly when its scope is not
confusable with that of another fact of its kind. -/
theorem index_recordFact_iff (h : Sound store) (kind : FactKind)
    (scope : FactScope) (opts : RecordOptions) :
    (recordFact store kind scope opts).index = FactMap.recordFact store.index kind scope opts ↔
      (recordable scope opts = true → Separate store kind scope) := by
  unfold recordFact FactMap.recordFact
  split
  swap
  · rename_i hnot
    exact iff_of_true rfl fun hyes => absurd hyes hnot
  rename_i hrecordable
  have hsound : (recordedFact kind scope opts).Sound := sound_recordedFact hrecordable
  rw [Table.index_put_iff, imp_iff_right hrecordable]
  refine forall₂_congr fun fact hfact => ?_
  have hkey := keyOfScope_eq_iff (h fact hfact).valid hsound.valid (h fact hfact).normal
    hsound.normal
  change keyOf fact.kind fact.scope = keyOf kind (normalizeScope scope) →
      (fact.kind, fact.scope) = (kind, normalizeScope scope) ↔ _
  change keyOfScope fact.scope = keyOfScope (normalizeScope scope) ↔ _ at hkey
  rw [keyOf_eq_iff, hkey, Prod.mk.injEq]
  constructor
  · intro hsame hkind hconfusable
    exact hconfusable.ne (hsame ⟨hkind, .inr hconfusable⟩).2
  · rintro hseparate ⟨hkind, heq | hconfusable⟩
    · exact ⟨hkind, heq⟩
    · exact absurd hconfusable (hseparate hkind)

end LlmRelay.Facts
