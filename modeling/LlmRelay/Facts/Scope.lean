import LlmRelay.Breaker.Persistence
import Mathlib.Data.List.Dedup
import Mathlib.Data.List.Sort

/-!
# Scopes of learned facts

A learned fact applies to a scope: one attempt, a group of models, a deployment, a
credential, a provider, or a model (`target-facts.ts`). The store files it under a text
that joins the parts of the scope with slashes and commas.

## Main definitions

* `FactScope`, `FactScope.toJson`: the scopes, as values;
* `isValidScope`: the check of a value that should be a scope;
* `normalizeScope`: the members of a group in order, without repetitions;
* `keyOfScope`, `keyOf`: the text a scope, and a fact, is filed under;
* `Confusable`: scopes that differ in where a separator stands.

## Main results

* `keyOfScope_eq_iff`: scopes that pass the check have one key exactly when they are equal
  or confusable.
-/

namespace LlmRelay.Facts

open Ecma

/-! ## Scopes -/

/-- Where a fact applies. -/
inductive FactScope where
  | attempt (provider credentialId model : Text)
  | group (provider : Text) (credentialId : Option Text) (members : List Text)
  | deployment (provider model : Text)
  | credential (provider credentialId : Text)
  | provider (provider : Text)
  | model (model : Text)
  deriving DecidableEq

/-- The kinds of scopes. -/
inductive ScopeKind where
  | attempt | group | deployment | credential | provider | model
  deriving DecidableEq

def ScopeKind.name : ScopeKind → String
  | attempt => "attempt"
  | group => "group"
  | deployment => "deployment"
  | credential => "credential"
  | provider => "provider"
  | model => "model"

def FactScope.kind : FactScope → ScopeKind
  | attempt .. => .attempt
  | group .. => .group
  | deployment .. => .deployment
  | credential .. => .credential
  | provider .. => .provider
  | model .. => .model

/-- The kinds, the most specific first. -/
def SCOPE_PRECEDENCE : List ScopeKind :=
  [.attempt, .group, .deployment, .credential, .provider, .model]

def ScopeKind.ofName? : Option Json → Option ScopeKind :=
  LlmRelay.ofName? name SCOPE_PRECEDENCE

/-- The scope as a value. -/
def FactScope.toJson : FactScope → Json
  | .attempt p id m =>
    .ofProperties [("kind", some (Json.ofString ScopeKind.attempt.name)), ("provider", some (.str p)),
      ("credentialId", some (.str id)), ("model", some (.str m))]
  | .group p id members =>
    .ofProperties [("kind", some (Json.ofString ScopeKind.group.name)), ("provider", some (.str p)),
      ("credentialId", id.map .str), ("members", some (.arr (members.map .str)))]
  | .deployment p m =>
    .ofProperties [("kind", some (Json.ofString ScopeKind.deployment.name)), ("provider", some (.str p)),
      ("model", some (.str m))]
  | .credential p id =>
    .ofProperties [("kind", some (Json.ofString ScopeKind.credential.name)), ("provider", some (.str p)),
      ("credentialId", some (.str id))]
  | .provider p =>
    .ofProperties [("kind", some (Json.ofString ScopeKind.provider.name)), ("provider", some (.str p))]
  | .model m =>
    .ofProperties [("kind", some (Json.ofString ScopeKind.model.name)), ("model", some (.str m))]

/-! ## Credential ids -/

/-- The separator of a credential id. -/
def hash : CodeUnit := 0x23

/-- A code unit of `[A-Za-z0-9_.-]`. -/
def isLabelUnit (c : CodeUnit) : Bool :=
  (decide (0x41 ≤ c) && decide (c ≤ 0x5A)) || (decide (0x61 ≤ c) && decide (c ≤ 0x7A))
    || (decide (0x30 ≤ c) && decide (c ≤ 0x39)) || c == 0x5F || c == 0x2E || c == 0x2D

/-- The provider and the label of a credential id, around its only `#`. -/
def parseCredentialId (value : Text) : Option (Text × Text) :=
  let provider := value.takeWhile (· ≠ hash)
  match value.dropWhile (· ≠ hash) with
  | [] => none
  | _ :: label =>
    if provider = [] || label.contains hash then none
    else if decide (1 ≤ label.length) && decide (label.length ≤ 32) && label.all isLabelUnit then
      some (provider, label)
    else none

/-- Is the value the id of a credential of the provider? -/
def credentialBelongsTo (provider : Text) (credentialId : Option Json) : Bool :=
  ((Json.string? credentialId).bind parseCredentialId).any fun parts => parts.1 = provider

/-! ## Checking -/

/-- `hasExactKeys`: a record with these properties and no other. -/
def hasExactKeys (value : Json) (keys : List String) : Bool :=
  match value with
  | .obj fields =>
    fields.length = keys.length && keys.all fun key => (value.get? (text key)).isSome
  | _ => false

/-- The check of a value that should be a scope. -/
def isValidScope (value : Json) : Bool :=
  let provider := Json.string? (value.get? (text "provider"))
  let credentialId := value.get? (text "credentialId")
  match ScopeKind.ofName? (value.get? (text "kind")) with
  | some .attempt =>
    hasExactKeys value ["kind", "provider", "credentialId", "model"]
      && isName (value.get? (text "provider"))
      && isName (value.get? (text "model"))
      && provider.any fun provider => credentialBelongsTo provider credentialId
  | some .group =>
    hasExactKeys value (if credentialId.isNone then ["kind", "provider", "members"]
      else ["kind", "provider", "credentialId", "members"])
      && isName (value.get? (text "provider"))
      && (Json.array? (value.get? (text "members"))).any (fun members =>
        members ≠ [] && members.all fun member => isName (some member))
      && (credentialId.isNone
        || provider.any fun provider => credentialBelongsTo provider credentialId)
  | some .deployment =>
    hasExactKeys value ["kind", "provider", "model"]
      && isName (value.get? (text "provider"))
      && isName (value.get? (text "model"))
  | some .credential =>
    hasExactKeys value ["kind", "provider", "credentialId"]
      && isName (value.get? (text "provider"))
      && provider.any fun provider => credentialBelongsTo provider credentialId
  | some .provider =>
    hasExactKeys value ["kind", "provider"] && isName (value.get? (text "provider"))
  | some .model =>
    hasExactKeys value ["kind", "model"] && isName (value.get? (text "model"))
  | none => false

/-! ## Reading -/

/-- The scope of a value that passes the check. -/
def FactScope.ofJson? (value : Json) : Option FactScope :=
  let provider := Json.string? (value.get? (text "provider"))
  let credentialId := Json.string? (value.get? (text "credentialId"))
  let model := Json.string? (value.get? (text "model"))
  match ScopeKind.ofName? (value.get? (text "kind")) with
  | some .attempt => do some (.attempt (← provider) (← credentialId) (← model))
  | some .group => do
    let members ← Json.array? (value.get? (text "members"))
    some (.group (← provider) credentialId (members.filterMap fun m => Json.string? (some m)))
  | some .deployment => do some (.deployment (← provider) (← model))
  | some .credential => do some (.credential (← provider) (← credentialId))
  | some .provider => do some (.provider (← provider))
  | some .model => do some (.model (← model))
  | none => none

/-! ## Normal forms -/

/-- `[...new Set(members)].sort()`: by code units, without repetitions. -/
def canonicalMembers (members : List Text) : List Text :=
  members.dedup.insertionSort (· ≤ ·)

def normalizeScope : FactScope → FactScope
  | .group provider credentialId members => .group provider credentialId (canonicalMembers members)
  | scope => scope

/-- A slash. -/
def slash : CodeUnit := 0x2F

/-- A comma. -/
def comma : CodeUnit := 0x2C

/-- The key of a scope. -/
def keyOfScope : FactScope → Text
  | .attempt _ credentialId model => text "a:" ++ credentialId ++ slash :: model
  | .group provider credentialId members =>
    -- an id that is empty counts as none
    match credentialId.filter (· ≠ []) with
    | some credentialId =>
      text "g:c:" ++ credentialId ++ slash :: Text.join [comma] (canonicalMembers members)
    | none => text "g:p:" ++ provider ++ slash :: Text.join [comma] (canonicalMembers members)
  | .deployment provider model => text "d:" ++ provider ++ slash :: model
  | .credential _ credentialId => text "c:" ++ credentialId
  | .provider provider => text "p:" ++ provider
  | .model model => text "m:" ++ model

/-! ## Valid scopes -/

/-- The id of a credential of the provider. -/
def BelongsTo (provider credentialId : Text) : Prop :=
  ∃ label, parseCredentialId credentialId = some (provider, label)

/-- What the check demands of a scope. -/
def FactScope.IsValid : FactScope → Prop
  | .attempt p id m => p ≠ [] ∧ m ≠ [] ∧ BelongsTo p id
  | .group p id members =>
    p ≠ [] ∧ (members ≠ [] ∧ ∀ m ∈ members, m ≠ []) ∧ ∀ c ∈ id, BelongsTo p c
  | .deployment p m => p ≠ [] ∧ m ≠ []
  | .credential p id => p ≠ [] ∧ BelongsTo p id
  | .provider p => p ≠ []
  | .model m => m ≠ []

theorem credentialBelongsTo_iff {provider credentialId : Text} :
    credentialBelongsTo provider (some (.str credentialId)) = true ↔
      BelongsTo provider credentialId := by
  simp only [credentialBelongsTo, Option.any_eq_true, decide_eq_true_eq]
  constructor
  · rintro ⟨⟨p, label⟩, h, rfl⟩
    exact ⟨label, h⟩
  · rintro ⟨label, h⟩
    exact ⟨_, h, rfl⟩

@[simp] theorem isName_str (t : Text) : isName (some (.str t)) = decide (t ≠ []) := by
  simp [isName, Json.string?]

@[simp] theorem ScopeKind.ofName?_name (kind : ScopeKind) :
    ScopeKind.ofName? (some (Json.ofString kind.name)) = some kind := by
  cases kind <;> decide

theorem hasExactKeys_ofProperties (properties : List (String × Option Json)) (keys : List String) :
    hasExactKeys (.ofProperties properties) keys
      = (decide ((properties.filter fun p => p.2.isSome).length = keys.length)
        && keys.all fun key => ((Json.ofProperties properties).get? (text key)).isSome) := by
  unfold hasExactKeys Json.ofProperties
  dsimp only
  congr 3
  induction properties with
  | nil => rfl
  | cons p properties ih =>
    rcases p with ⟨key, _ | v⟩
    · exact ih
    · exact congrArg (· + 1) ih

/-- **The check of a scope** is what it demands of its parts. -/
theorem isValidScope_toJson {scope : FactScope} :
    isValidScope scope.toJson = true ↔ scope.IsValid := by
  cases scope with
  | attempt p id m =>
    simp [isValidScope, FactScope.toJson, FactScope.IsValid, Json.string?, hasExactKeys_ofProperties,
      credentialBelongsTo_iff, and_assoc]
  | group p id members =>
    cases id <;>
      simp [isValidScope, FactScope.toJson, FactScope.IsValid, Json.string?,
        hasExactKeys_ofProperties, credentialBelongsTo_iff, and_assoc]
  | deployment p m =>
    simp [isValidScope, FactScope.toJson, FactScope.IsValid, hasExactKeys_ofProperties]
  | credential p id =>
    simp [isValidScope, FactScope.toJson, FactScope.IsValid, Json.string?,
      hasExactKeys_ofProperties, credentialBelongsTo_iff]
  | provider p =>
    simp [isValidScope, FactScope.toJson, FactScope.IsValid, hasExactKeys_ofProperties]
  | model m =>
    simp [isValidScope, FactScope.toJson, FactScope.IsValid, hasExactKeys_ofProperties]

variable (scope : FactScope)

/-- A scope is read back. -/
@[simp] theorem FactScope.ofJson?_toJson : FactScope.ofJson? scope.toJson = some scope := by
  cases scope with
  | attempt p id m => simp [ofJson?, toJson, Json.string?]
  | group p id members =>
    cases id <;> simp [ofJson?, toJson, Json.string?]
  | deployment p m => simp [ofJson?, toJson, Json.string?]
  | credential p id => simp [ofJson?, toJson, Json.string?]
  | provider p => simp [ofJson?, toJson, Json.string?]
  | model m => simp [ofJson?, toJson, Json.string?]

theorem isName_iff {v : Option Json} : isName v = true ↔ ∃ t, Json.string? v = some t ∧ t ≠ [] := by
  rw [isName, Option.any_eq_true]
  simp only [decide_not, Bool.not_eq_eq_eq_not, Bool.not_true, decide_eq_false_iff_not]

variable {p id : Text} {members : List Text}

theorem BelongsTo.exists_of_credentialBelongsTo {v : Option Json}
    (h : credentialBelongsTo p v = true) : ∃ id, Json.string? v = some id ∧ BelongsTo p id := by
  simp only [credentialBelongsTo, Option.any_eq_true, Option.bind_eq_some_iff,
    decide_eq_true_eq] at h
  obtain ⟨⟨p', label⟩, ⟨id, hid, hparse⟩, rfl⟩ := h
  exact ⟨id, hid, label, hparse⟩

theorem FactScope.exists_of_isValidScope {value : Json} (h : isValidScope value = true) :
    ∃ scope, FactScope.ofJson? value = some scope ∧ scope.IsValid := by
  unfold isValidScope at h
  split at h <;> rename_i hkind <;>
    try simp only [Bool.and_eq_true, isName_iff, Option.any_eq_true, Bool.or_eq_true] at h
  · obtain ⟨⟨⟨-, p, hp, hpne⟩, m, hm, hmne⟩, p', hp', hbelongs⟩ := h
    cases hp.symm.trans hp'
    obtain ⟨id, hid, hbel⟩ := BelongsTo.exists_of_credentialBelongsTo hbelongs
    exact ⟨.attempt p id m, by simp [ofJson?, hkind, hp, hid, hm], hpne, hmne, hbel⟩
  · obtain ⟨⟨⟨-, p, hp, hpne⟩, members, hmembers, hne, hnames⟩, hbelongs⟩ := h
    have hread : ∀ m ∈ members, ∃ t, Json.string? (some m) = some t ∧ t ≠ [] := fun m hm =>
      isName_iff.mp (List.all_eq_true.mp hnames m hm)
    refine ⟨.group p (Json.string? (value.get? (text "credentialId")))
      (members.filterMap fun m => Json.string? (some m)), by simp [ofJson?, hkind, hp, hmembers],
      hpne, ⟨?_, ?_⟩, ?_⟩
    · cases members with
      | nil => exact absurd rfl (of_decide_eq_true hne)
      | cons m members =>
        obtain ⟨t, ht, -⟩ := hread m List.mem_cons_self
        exact List.ne_nil_of_mem (List.mem_filterMap.mpr ⟨m, List.mem_cons_self, ht⟩)
    · intro t ht
      obtain ⟨m, hm, hmt⟩ := List.mem_filterMap.mp ht
      obtain ⟨t', ht', hne'⟩ := hread m hm
      cases ht'.symm.trans hmt
      exact hne'
    · intro id hid
      rcases hbelongs with hnone | ⟨p', hp', hbelongs⟩
      · rw [Option.isNone_iff_eq_none.mp hnone] at hid
        cases hid
      · cases hp.symm.trans hp'
        obtain ⟨id', hid', hbel⟩ := BelongsTo.exists_of_credentialBelongsTo hbelongs
        cases hid'.symm.trans hid
        exact hbel
  · obtain ⟨⟨-, p, hp, hpne⟩, m, hm, hmne⟩ := h
    exact ⟨.deployment p m, by simp [ofJson?, hkind, hp, hm], hpne, hmne⟩
  · obtain ⟨⟨-, p, hp, hpne⟩, p', hp', hbelongs⟩ := h
    cases hp.symm.trans hp'
    obtain ⟨id, hid, hbel⟩ := BelongsTo.exists_of_credentialBelongsTo hbelongs
    exact ⟨.credential p id, by simp [ofJson?, hkind, hp, hid], hpne, hbel⟩
  · obtain ⟨-, p, hp, hpne⟩ := h
    exact ⟨.provider p, by simp [ofJson?, hkind, hp], hpne⟩
  · obtain ⟨-, m, hm, hmne⟩ := h
    exact ⟨.model m, by simp [ofJson?, hkind, hm], hmne⟩
  · cases h

/-! ## Normal scopes -/

theorem mem_canonicalMembers {m : Text} : m ∈ canonicalMembers members ↔ m ∈ members := by
  rw [canonicalMembers, (List.perm_insertionSort _ _).mem_iff, List.mem_dedup]

theorem canonicalMembers_ne_nil (h : members ≠ []) : canonicalMembers members ≠ [] := by
  obtain ⟨m, hm⟩ := List.exists_mem_of_ne_nil members h
  exact List.ne_nil_of_mem (mem_canonicalMembers.mpr hm)

/-- Members in order stay as they are. -/
@[simp] theorem canonicalMembers_canonicalMembers (members : List Text) :
    canonicalMembers (canonicalMembers members) = canonicalMembers members := by
  have hnodup : (canonicalMembers members).Nodup :=
    (List.perm_insertionSort _ _).nodup_iff.mpr (List.nodup_dedup members)
  have hsorted : (canonicalMembers members).Pairwise (· ≤ ·) :=
    List.pairwise_insertionSort (· ≤ ·) members.dedup
  conv_lhs => rw [canonicalMembers, hnodup.dedup]
  exact hsorted.insertionSort_eq

/-- A scope in normal form. -/
def FactScope.IsNormal (scope : FactScope) : Prop :=
  normalizeScope scope = scope

theorem isNormal_normalizeScope : (normalizeScope scope).IsNormal := by
  cases scope <;> simp [FactScope.IsNormal, normalizeScope]

theorem FactScope.IsValid.normalize {scope : FactScope} (h : scope.IsValid) :
    (normalizeScope scope).IsValid := by
  cases scope with
  | group p id members =>
    obtain ⟨hp, ⟨hne, hmembers⟩, hid⟩ := h
    exact ⟨hp, ⟨canonicalMembers_ne_nil hne,
      fun m hm => hmembers m (mem_canonicalMembers.mp hm)⟩, hid⟩
  | _ => exact h

/-! ## Keys -/

/-- The comma-separated pieces of the members. -/
def commaPieces (members : List Text) : List Text :=
  members.flatMap (List.splitOn comma)

/-- The members of one group, with `mid` and a slash before the first, have the pieces of the
members of the other: then `p` with a slash and the one is `p/mid` with a slash and the other. -/
def ShiftedGroup (p : Text) (members : List Text) (p' : Text) (members' : List Text) : Prop :=
  ∃ mid, p' = p ++ slash :: mid ∧
    commaPieces members = commaPieces (members'.modifyHead ((mid ++ [slash]) ++ ·))

/-- Scopes that differ in where a separator stands: a slash ends the provider of one and belongs
to the provider of the other, or a comma divides members of one and belongs to a member of the
other. -/
def Confusable : FactScope → FactScope → Prop
  | .deployment p m, .deployment p' m' =>
    (∃ mid, p' = p ++ slash :: mid ∧ m = mid ++ slash :: m') ∨
      ∃ mid, p = p' ++ slash :: mid ∧ m' = mid ++ slash :: m
  | .group p none members, .group p' none members' =>
    (p = p' ∧ members ≠ members' ∧ commaPieces members = commaPieces members') ∨
      ShiftedGroup p members p' members' ∨ ShiftedGroup p' members' p members
  | .group _ (some id) members, .group _ (some id') members' =>
    id = id' ∧ members ≠ members' ∧ commaPieces members = commaPieces members'
  | _, _ => False

theorem parseCredentialId_spec {value label : Text} (h : parseCredentialId value = some (p, label)) :
    value = p ++ hash :: label ∧ hash ∉ p ∧ slash ∉ label := by
  unfold parseCredentialId at h
  have hsplit := List.takeWhile_append_dropWhile (p := (· ≠ hash)) (l := value)
  have hhead := List.head?_dropWhile_not (· ≠ hash) value
  have hall := List.all_takeWhile (p := (· ≠ hash)) (l := value)
  generalize value.takeWhile (· ≠ hash) = provider at *
  generalize value.dropWhile (· ≠ hash) = rest at *
  cases rest with
  | nil => cases h
  | cons c rest =>
    have hc : c = hash := by simpa using hhead
    dsimp only at h
    split at h
    · cases h
    · split at h
      · rename_i hlabel
        cases h
        refine ⟨by rw [← hsplit, hc], ?_, ?_⟩
        · intro hmem
          simpa using List.all_eq_true.mp hall _ hmem
        · intro hmem
          simp only [Bool.and_eq_true] at hlabel
          exact absurd (List.all_eq_true.mp hlabel.2 _ hmem) (by decide)
      · cases h

theorem BelongsTo.append_slash_inj {p' id' rest rest' : Text} (h : BelongsTo p id)
    (h' : BelongsTo p' id') (heq : id ++ slash :: rest = id' ++ slash :: rest') :
    id = id' ∧ rest = rest' := by
  obtain ⟨label, hparse⟩ := h
  obtain ⟨label', hparse'⟩ := h'
  obtain ⟨rfl, hp, hlabel⟩ := parseCredentialId_spec hparse
  obtain ⟨rfl, hp', hlabel'⟩ := parseCredentialId_spec hparse'
  rw [List.append_assoc, List.append_assoc] at heq
  obtain ⟨rfl, hafter⟩ := append_sep_inj hp hp' heq
  obtain ⟨rfl, rfl⟩ := append_sep_inj hlabel hlabel' hafter
  exact ⟨rfl, rfl⟩

theorem BelongsTo.provider_eq {p' : Text} (h : BelongsTo p id) (h' : BelongsTo p' id) : p = p' := by
  obtain ⟨label, hparse⟩ := h
  obtain ⟨label', hparse'⟩ := h'
  cases hparse.symm.trans hparse'
  rfl

theorem BelongsTo.ne_nil (h : BelongsTo p id) : id ≠ [] := by
  obtain ⟨label, hparse⟩ := h
  obtain ⟨rfl, -⟩ := parseCredentialId_spec hparse
  exact List.append_ne_nil_of_right_ne_nil _ (List.cons_ne_nil _ _)

theorem join_comma_eq_iff {members' : List Text} (h : members ≠ []) (h' : members' ≠ []) :
    Text.join [comma] members = Text.join [comma] members' ↔
      commaPieces members = commaPieces members' :=
  Text.join_eq_join_iff comma h h'

theorem shiftedGroup_iff {p' : Text} {members' : List Text} (h : members ≠ []) (h' : members' ≠ []) :
    ShiftedGroup p members p' members' ↔
      ∃ mid, p' = p ++ slash :: mid ∧
        Text.join [comma] members = mid ++ slash :: Text.join [comma] members' := by
  have hjoin : ∀ mid : Text, mid ++ slash :: Text.join [comma] members'
      = Text.join [comma] (members'.modifyHead ((mid ++ [slash]) ++ ·)) := by
    intro mid
    rw [← Text.append_join _ _ h', List.append_assoc]
    rfl
  have hne : ∀ mid : Text, members'.modifyHead ((mid ++ [slash]) ++ ·) ≠ [] := by
    intro mid
    cases members' with
    | nil => exact absurd rfl h'
    | cons m members' => exact List.cons_ne_nil _ _
  constructor
  · rintro ⟨mid, hp, hpieces⟩
    exact ⟨mid, hp, (hjoin mid).symm ▸ (join_comma_eq_iff h (hne mid)).mpr hpieces⟩
  · rintro ⟨mid, hp, heq⟩
    exact ⟨mid, hp, (join_comma_eq_iff h (hne mid)).mp (hjoin mid ▸ heq)⟩

/-- The letter that starts the keys of a kind of scope. -/
def ScopeKind.letter : ScopeKind → CodeUnit
  | attempt => 0x61
  | group => 0x67
  | deployment => 0x64
  | credential => 0x63
  | provider => 0x70
  | model => 0x6D

theorem ScopeKind.letter_injective : Function.Injective ScopeKind.letter := by
  intro k k' h
  cases k <;> cases k' <;> first | rfl | exact absurd h (by decide)

theorem head?_keyOfScope : (keyOfScope scope).head? = some scope.kind.letter := by
  cases scope with
  | group p id members =>
    unfold keyOfScope
    dsimp only
    split <;> rfl
  | _ => rfl

theorem keyOfScope_group_some (hid : BelongsTo p id)
    (hnormal : (FactScope.group p (some id) members).IsNormal) :
    keyOfScope (.group p (some id) members)
      = text "g:c:" ++ (id ++ slash :: Text.join [comma] members) := by
  have hmembers : canonicalMembers members = members := by
    simpa [FactScope.IsNormal, normalizeScope] using hnormal
  have hfilter : (some id).filter (· ≠ []) = some id := by simp [hid.ne_nil]
  unfold keyOfScope
  dsimp only
  rw [hfilter, hmembers]
  simp

theorem keyOfScope_group_none (hnormal : (FactScope.group p none members).IsNormal) :
    keyOfScope (.group p none members)
      = text "g:p:" ++ (p ++ slash :: Text.join [comma] members) := by
  have hmembers : canonicalMembers members = members := by
    simpa [FactScope.IsNormal, normalizeScope] using hnormal
  simp [keyOfScope, hmembers]

variable {s s' : FactScope}

theorem Confusable.kind_eq (h : Confusable s s') : s.kind = s'.kind := by
  unfold Confusable at h
  split at h
  · rfl
  · rfl
  · rfl
  · exact h.elim

theorem ne_append_slash (p mid : Text) : p ≠ p ++ slash :: mid := by
  intro h
  have hlength := congrArg List.length h
  rw [List.length_append, List.length_cons] at hlength
  omega

/-- Confusable scopes differ. -/
theorem Confusable.ne (h : Confusable s s') : s ≠ s' := by
  rintro rfl
  cases s with
  | deployment p m =>
    rcases h with ⟨mid, hp, -⟩ | ⟨mid, hp, -⟩ <;> exact ne_append_slash _ _ hp
  | group p id members =>
    cases id with
    | none =>
      rcases h with ⟨-, hne, -⟩ | ⟨mid, hp, -⟩ | ⟨mid, hp, -⟩
      · exact hne rfl
      · exact ne_append_slash _ _ hp
      · exact ne_append_slash _ _ hp
    | some id => exact h.2.1 rfl
  | _ => exact h

section Groups

variable {p p' : Text} {members members' : List Text}

theorem keyOfScope_eq_iff_of_group_none (hne : members ≠ []) (hne' : members' ≠ [])
    (hn : (FactScope.group p none members).IsNormal)
    (hn' : (FactScope.group p' none members').IsNormal) :
    keyOfScope (.group p none members) = keyOfScope (.group p' none members') ↔
      FactScope.group p none members = .group p' none members' ∨
        Confusable (.group p none members) (.group p' none members') := by
  rw [keyOfScope_group_none hn, keyOfScope_group_none hn', List.append_cancel_left_eq,
    append_sep_eq_iff, Confusable, shiftedGroup_iff hne hne', shiftedGroup_iff hne' hne,
    ← join_comma_eq_iff hne hne']
  constructor
  · rintro (⟨rfl, hjoin⟩ | h | h)
    · by_cases hmembers : members = members'
      · exact .inl (by rw [hmembers])
      · exact .inr (.inl ⟨rfl, hmembers, hjoin⟩)
    · exact .inr (.inr (.inl h))
    · exact .inr (.inr (.inr h))
  · rintro (h | ⟨hp, -, hjoin⟩ | h | h)
    · cases h
      exact .inl ⟨rfl, rfl⟩
    · exact .inl ⟨hp, hjoin⟩
    · exact .inr (.inl h)
    · exact .inr (.inr h)

theorem keyOfScope_eq_iff_of_group_some {id id' : Text} (hid : BelongsTo p id)
    (hid' : BelongsTo p' id') (hne : members ≠ []) (hne' : members' ≠ [])
    (hn : (FactScope.group p (some id) members).IsNormal)
    (hn' : (FactScope.group p' (some id') members').IsNormal) :
    keyOfScope (.group p (some id) members) = keyOfScope (.group p' (some id') members') ↔
      FactScope.group p (some id) members = .group p' (some id') members' ∨
        Confusable (.group p (some id) members) (.group p' (some id') members') := by
  rw [keyOfScope_group_some hid hn, keyOfScope_group_some hid' hn', List.append_cancel_left_eq,
    Confusable, ← join_comma_eq_iff hne hne']
  constructor
  · intro h
    obtain ⟨rfl, hjoin⟩ := hid.append_slash_inj hid' h
    cases hid.provider_eq hid'
    by_cases hmembers : members = members'
    · exact .inl (by rw [hmembers])
    · exact .inr ⟨rfl, hmembers, hjoin⟩
  · rintro (h | ⟨rfl, -, hjoin⟩)
    · cases h
      rfl
    · rw [hjoin]

end Groups

/-- **Valid scopes in normal form have one key** exactly when they are equal or confusable. -/
theorem keyOfScope_eq_iff (hs : s.IsValid) (hs' : s'.IsValid)
    (hn : s.IsNormal) (hn' : s'.IsNormal) :
    keyOfScope s = keyOfScope s' ↔ s = s' ∨ Confusable s s' := by
  by_cases hkind : s.kind = s'.kind
  swap
  · constructor
    · intro h
      have hletter := congrArg List.head? h
      rw [head?_keyOfScope, head?_keyOfScope] at hletter
      exact absurd (ScopeKind.letter_injective (Option.some.inj hletter)) hkind
    · rintro (rfl | h)
      · exact absurd rfl hkind
      · exact absurd h.kind_eq hkind
  -- from here on the scopes are of one kind
  cases s with
  | attempt p id m =>
    cases s' <;> try cases hkind
    rename_i p' id' m'
    obtain ⟨-, -, hid⟩ := hs
    obtain ⟨-, -, hid'⟩ := hs'
    constructor
    · intro h
      obtain ⟨rfl, rfl⟩ := hid.append_slash_inj hid' (by simpa [keyOfScope] using h)
      rw [hid.provider_eq hid']
      exact .inl rfl
    · rintro (h | h)
      · rw [h]
      · exact h.elim
  | group p id members =>
    cases s' <;> try cases hkind
    rename_i p' id' members'
    obtain ⟨-, ⟨hne, -⟩, hid⟩ := hs
    obtain ⟨-, ⟨hne', -⟩, hid'⟩ := hs'
    rcases id with _ | id <;> rcases id' with _ | id'
    · exact keyOfScope_eq_iff_of_group_none hne hne' hn hn'
    · rw [keyOfScope_group_some (hid' id' rfl) hn']
      constructor
      · intro h
        have hthird : some (0x70 : CodeUnit) = some 0x63 := congrArg (·[2]?) h
        exact absurd hthird (by decide)
      · rintro (h | h)
        · cases h
        · exact h.elim
    · rw [keyOfScope_group_some (hid id rfl) hn]
      constructor
      · intro h
        have hthird : some (0x63 : CodeUnit) = some 0x70 := congrArg (·[2]?) h
        exact absurd hthird (by decide)
      · rintro (h | h)
        · cases h
        · exact h.elim
    · exact keyOfScope_eq_iff_of_group_some (hid id rfl) (hid' id' rfl) hne hne' hn hn'
  | deployment p m =>
    cases s' <;> try cases hkind
    rename_i p' m'
    rw [keyOfScope, keyOfScope, List.append_assoc, List.append_assoc,
      List.append_cancel_left_eq, append_sep_eq_iff, Confusable, FactScope.deployment.injEq]
  | credential p id =>
    cases s' <;> try cases hkind
    rename_i p' id'
    constructor
    · intro h
      cases List.append_cancel_left h
      rw [hs.2.provider_eq hs'.2]
      exact .inl rfl
    · rintro (h | h)
      · rw [h]
      · exact h.elim
  | provider p =>
    cases s' <;> try cases hkind
    simp [keyOfScope, Confusable]
  | model m =>
    cases s' <;> try cases hkind
    simp [keyOfScope, Confusable]

end LlmRelay.Facts
