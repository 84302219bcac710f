import LlmRelay.Ecma.OrderedMap
import LlmRelay.Ecma.Text
import Mathlib.Data.List.Dedup

/-!
# Reloading the configuration

A running daemon takes over a freshly loaded configuration without a restart
(`config-reload.ts`). The fields are listed by hand: those that need a restart refuse the
candidate as a whole, the others are copied into the live configuration one by one.

An object is the partial map of its own properties. The values of a field are taken up to
`isDeepStrictEqual`, which is their equality here.

## Main definitions

* `Config`: a configuration, field by field;
* `configReloadRestartPaths`, `configReloadChangedPaths`, `applyConfigReload`: the code;
* `Location`: a place in a configuration, with its path and whether it is reloadable.

## Main results

* `mem_configReloadChangedPaths_iff`: the paths reported for two configurations that agree on
  what needs a restart;
* `applyConfigReload_exact`: a candidate is refused or taken over whole.
-/

namespace LlmRelay.Reload

open Ecma

/-! ## Configurations -/

/-- The fields of `Config` that are compared as one value. -/
inductive ConfigKey where
  | host | port | mode | reshaper | reshaperCandidates | reshaperPool | walkBudgetMs
  | maxBodyBytes | log | leaveMeAlone | sourcePath | sourceMtimeMs | warnings
  deriving DecidableEq

/-- The fields of `Config.repair`. -/
inductive RepairKey where
  | maxAttempts | destructiveTools
  deriving DecidableEq

/-- The fields of `ProviderConfig` besides `credentials`. -/
inductive ProviderKey where
  | base | kind | authEnv | credentialMode | maxConcurrent | authHeader | timeoutMs
  | stallTimeoutMs | firstByteTimeoutMs | tierType | limits | compat | wire | signupUrl
  deriving DecidableEq

/-- The fields of `ProviderCredentialConfig`. -/
inductive CredentialKey where
  | label | authEnv | enabled | models | limits
  deriving DecidableEq

/-- The fields of `Routing`. -/
inductive RoutingKey where
  | default_ | tiers | pools | poolPolicies | poolDegraded | subagents | offload
  | benchmarkSort | sticky | quota | latency | hedge | probation | pacing | crawl | laneProbe
  | dispatchWalk | mcp | ladder | ladders | cliLane
  deriving DecidableEq

def ConfigKey.name : ConfigKey → Text
  | .host => text "host"
  | .port => text "port"
  | .mode => text "mode"
  | .reshaper => text "reshaper"
  | .reshaperCandidates => text "reshaperCandidates"
  | .reshaperPool => text "reshaperPool"
  | .walkBudgetMs => text "walkBudgetMs"
  | .maxBodyBytes => text "maxBodyBytes"
  | .log => text "log"
  | .leaveMeAlone => text "leaveMeAlone"
  | .sourcePath => text "sourcePath"
  | .sourceMtimeMs => text "sourceMtimeMs"
  | .warnings => text "warnings"

def RepairKey.name : RepairKey → Text
  | .maxAttempts => text "maxAttempts"
  | .destructiveTools => text "destructiveTools"

def ProviderKey.name : ProviderKey → Text
  | .base => text "base"
  | .kind => text "kind"
  | .authEnv => text "authEnv"
  | .credentialMode => text "credentialMode"
  | .maxConcurrent => text "maxConcurrent"
  | .authHeader => text "authHeader"
  | .timeoutMs => text "timeoutMs"
  | .stallTimeoutMs => text "stallTimeoutMs"
  | .firstByteTimeoutMs => text "firstByteTimeoutMs"
  | .tierType => text "tierType"
  | .limits => text "limits"
  | .compat => text "compat"
  | .wire => text "wire"
  | .signupUrl => text "signupUrl"

def CredentialKey.name : CredentialKey → Text
  | .label => text "label"
  | .authEnv => text "authEnv"
  | .enabled => text "enabled"
  | .models => text "models"
  | .limits => text "limits"

def RoutingKey.name : RoutingKey → Text
  | .default_ => text "default"
  | .tiers => text "tiers"
  | .pools => text "pools"
  | .poolPolicies => text "poolPolicies"
  | .poolDegraded => text "poolDegraded"
  | .subagents => text "subagents"
  | .offload => text "offload"
  | .benchmarkSort => text "benchmarkSort"
  | .sticky => text "sticky"
  | .quota => text "quota"
  | .latency => text "latency"
  | .hedge => text "hedge"
  | .probation => text "probation"
  | .pacing => text "pacing"
  | .crawl => text "crawl"
  | .laneProbe => text "laneProbe"
  | .dispatchWalk => text "dispatchWalk"
  | .mcp => text "mcp"
  | .ladder => text "ladder"
  | .ladders => text "ladders"
  | .cliLane => text "cliLane"

/-- The own properties of an object; `none` is a property that is absent. -/
abbrev Properties (κ α : Type*) := κ → Option α

/-- One credential slot of a provider. -/
abbrev ProviderCredentialConfig (α : Type*) := Properties CredentialKey α

structure ProviderConfig (α : Type*) where
  property : Properties ProviderKey α
  credentials : Option (List (ProviderCredentialConfig α))

structure Config (α : Type*) where
  property : Properties ConfigKey α
  repair : Properties RepairKey α
  providers : OrderedMap Text (ProviderConfig α)
  routing : Properties RoutingKey α

/-- Deep equality of two configurations: the order of the providers is no part of it. -/
structure Config.DeepEquals {α : Type*} (a b : Config α) : Prop where
  property : ∀ key, a.property key = b.property key
  repair : ∀ key, a.repair key = b.repair key
  providers : ∀ name, a.providers.get? name = b.providers.get? name
  routing : ∀ key, a.routing key = b.routing key

/-! ## The field lists -/

def PROVIDER_RELOADABLE_FIELDS : List ProviderKey :=
  [.timeoutMs, .stallTimeoutMs, .firstByteTimeoutMs, .maxConcurrent, .limits]

def PROVIDER_RESTART_FIELDS : List ProviderKey :=
  [.base, .kind, .authEnv, .credentialMode, .authHeader, .tierType, .compat, .wire, .signupUrl]

def ROUTING_RELOADABLE_FIELDS : List RoutingKey :=
  [.default_, .tiers, .pools, .poolPolicies, .poolDegraded, .subagents, .offload,
    .benchmarkSort, .quota, .latency, .probation, .pacing, .crawl, .laneProbe, .ladder,
    .ladders, .cliLane]

def ROUTING_RESTART_FIELDS : List RoutingKey :=
  [.sticky, .hedge, .dispatchWalk, .mcp]

theorem provider_fields_complete (key : ProviderKey) :
    key ∈ PROVIDER_RELOADABLE_FIELDS ∨ key ∈ PROVIDER_RESTART_FIELDS := by
  cases key <;> simp [PROVIDER_RELOADABLE_FIELDS, PROVIDER_RESTART_FIELDS]

theorem routing_fields_complete (key : RoutingKey) :
    key ∈ ROUTING_RELOADABLE_FIELDS ∨ key ∈ ROUTING_RESTART_FIELDS := by
  cases key <;> simp [ROUTING_RELOADABLE_FIELDS, ROUTING_RESTART_FIELDS]

/-! ## Comparing -/

section Compare

variable {α : Type*} [DecidableEq α]

def sortedUnique (paths : List Text) : List Text :=
  -- which of two equal paths `dedup` keeps does not matter: the list is sorted next
  paths.dedup.mergeSort fun a b => decide (a ≤ b)

def providerNames (cfg : Config α) : List Text :=
  cfg.providers.keys.mergeSort fun a b => decide (a ≤ b)

/-- What identifies a credential: everything but its limits. -/
def credentialIdentity (credential : ProviderCredentialConfig α) :
    ProviderCredentialConfig α :=
  Function.update credential .limits none

instance : DecidableEq (ProviderCredentialConfig α) := fun a b =>
  decidable_of_iff
    (a .label = b .label ∧ a .authEnv = b .authEnv ∧ a .enabled = b .enabled
      ∧ a .models = b .models ∧ a .limits = b .limits)
    ⟨fun ⟨h₁, h₂, h₃, h₄, h₅⟩ => funext fun key => by cases key <;> assumption,
      fun h => h ▸ ⟨rfl, rfl, rfl, rfl, rfl⟩⟩

def credentialIdentityList (provider : ProviderConfig α) :
    Option (List (ProviderCredentialConfig α)) :=
  provider.credentials.map (·.map credentialIdentity)

def noteIfChanged {β : Type*} [DecidableEq β] (paths : List Text) (path : Text)
    (before after : β) : List Text :=
  if before = after then paths else paths ++ [path]

def providerPath (name field : Text) : Text :=
  text "providers." ++ name ++ text "." ++ field

def credentialLimitsPath (name : Text) (index : Nat) : Text :=
  text "providers." ++ name ++ text ".credentials[" ++ text (toString index) ++ text "].limits"

def routingPath (field : Text) : Text :=
  text "routing." ++ field

/-- One round of the loop over the providers: what needs a restart. -/
def noteProviderRestart (live candidate : Config α) (paths : List Text) (name : Text) :
    List Text :=
  match live.providers.get? name, candidate.providers.get? name with
  | some before, some after =>
    noteIfChanged
      (PROVIDER_RESTART_FIELDS.foldl (fun paths field =>
        noteIfChanged paths (providerPath name field.name) (before.property field)
          (after.property field)) paths)
      (providerPath name (text "credentials"))
      (credentialIdentityList before) (credentialIdentityList after)
  | _, _ => paths

/-- Paths whose candidate values cannot be applied without a restart. -/
def configReloadRestartPaths (live candidate : Config α) : List Text :=
  let paths := noteIfChanged [] (text "host") (live.property .host) (candidate.property .host)
  let paths := noteIfChanged paths (text "port") (live.property .port) (candidate.property .port)
  let paths := noteIfChanged paths (text "log") (live.property .log) (candidate.property .log)
  let paths := noteIfChanged paths (text "repair.destructiveTools")
    (live.repair .destructiveTools) (candidate.repair .destructiveTools)
  let paths := noteIfChanged paths (text "sourcePath") (live.property .sourcePath)
    (candidate.property .sourcePath)
  let paths :=
    if providerNames live = providerNames candidate then
      (providerNames live).foldl (noteProviderRestart live candidate) paths
    else
      paths ++ [text "providers"]
  let paths := ROUTING_RESTART_FIELDS.foldl (fun paths field =>
    noteIfChanged paths (routingPath field.name) (live.routing field)
      (candidate.routing field)) paths
  sortedUnique paths

/-- One round of the loop over the providers: what can be applied. -/
def noteProviderChanged (live candidate : Config α) (paths : List Text) (name : Text) :
    List Text :=
  match live.providers.get? name, candidate.providers.get? name with
  | some before, some after =>
    let paths := PROVIDER_RELOADABLE_FIELDS.foldl (fun paths field =>
      noteIfChanged paths (providerPath name field.name) (before.property field)
        (after.property field)) paths
    match before.credentials, after.credentials with
    | some current, some next =>
      if credentialIdentityList before = credentialIdentityList after then
        (List.range current.length).foldl (fun paths index =>
          noteIfChanged paths (credentialLimitsPath name index)
            (current[index]?.bind (· .limits)) (next[index]?.bind (· .limits))) paths
      else
        paths
    | _, _ => paths
  | _, _ => paths

/-- Reloadable paths that changed, excluding load metadata. -/
def configReloadChangedPaths (live candidate : Config α) : List Text :=
  let paths := noteIfChanged [] (text "mode") (live.property .mode) (candidate.property .mode)
  let paths := noteIfChanged paths (text "reshaper") (live.property .reshaper)
    (candidate.property .reshaper)
  let paths := noteIfChanged paths (text "reshaperCandidates")
    (live.property .reshaperCandidates) (candidate.property .reshaperCandidates)
  let paths := noteIfChanged paths (text "reshaperPool") (live.property .reshaperPool)
    (candidate.property .reshaperPool)
  let paths := noteIfChanged paths (text "repair.maxAttempts")
    (live.repair .maxAttempts) (candidate.repair .maxAttempts)
  let paths := noteIfChanged paths (text "walkBudgetMs") (live.property .walkBudgetMs)
    (candidate.property .walkBudgetMs)
  let paths := noteIfChanged paths (text "maxBodyBytes") (live.property .maxBodyBytes)
    (candidate.property .maxBodyBytes)
  let paths := noteIfChanged paths (text "leaveMeAlone") (live.property .leaveMeAlone)
    (candidate.property .leaveMeAlone)
  let paths :=
    if providerNames live = providerNames candidate then
      (providerNames live).foldl (noteProviderChanged live candidate) paths
    else
      paths
  let paths := ROUTING_RELOADABLE_FIELDS.foldl (fun paths field =>
    noteIfChanged paths (routingPath field.name) (live.routing field)
      (candidate.routing field)) paths
  sortedUnique paths

end Compare

/-! ## Applying -/

section Apply

variable {α : Type*} [DecidableEq α]

def replaceProperty {κ : Type*} [DecidableEq κ] (target : Properties κ α) (key : κ)
    (value : Option α) : Properties κ α :=
  Function.update target key value

/-- The loop over a list of fields that copies them from `source`. -/
def replaceProperties {κ : Type*} [DecidableEq κ] (fields : List κ)
    (target source : Properties κ α) : Properties κ α :=
  fields.foldl (fun target field => replaceProperty target field (source field)) target

/-- The loop over the credential slots. A slot that one side lacks is skipped. -/
def replaceLimits : List (ProviderCredentialConfig α) → List (ProviderCredentialConfig α) →
    List (ProviderCredentialConfig α)
  | current :: live, next :: candidate =>
    replaceProperty current .limits (next .limits) :: replaceLimits live candidate
  | live, _ => live

def applyProviderPolicy (live candidate : ProviderConfig α) : ProviderConfig α where
  property := replaceProperties PROVIDER_RELOADABLE_FIELDS live.property candidate.property
  credentials :=
    match live.credentials, candidate.credentials with
    | some current, some next => some (replaceLimits current next)
    | current, _ => current

/-- One round of the loop over the providers. The candidate has the provider: the names have
been compared. -/
def applyProvider (candidate : Config α) (providers : OrderedMap Text (ProviderConfig α))
    (name : Text) : OrderedMap Text (ProviderConfig α) :=
  match providers.get? name, candidate.providers.get? name with
  | some current, some next => providers.set name (applyProviderPolicy current next)
  | _, _ => providers

inductive ConfigReloadApplyResult where
  | applied (changed : List Text)
  | refused (requiresRestart : List Text)
  deriving DecidableEq

/-- `applyConfigReload`, with the live configuration it leaves behind. -/
def applyConfigReload (live candidate : Config α) : ConfigReloadApplyResult × Config α :=
  let requiresRestart := configReloadRestartPaths live candidate
  if requiresRestart.length > 0 then
    (.refused requiresRestart, live)
  else
    let changed := configReloadChangedPaths live candidate
    let live : Config α :=
      { live with
        property := replaceProperties
          [.mode, .reshaper, .reshaperCandidates, .reshaperPool, .walkBudgetMs, .maxBodyBytes,
            .leaveMeAlone] live.property candidate.property
        repair := replaceProperty live.repair .maxAttempts (candidate.repair .maxAttempts) }
    let live : Config α :=
      { live with
        providers := (providerNames live).foldl (applyProvider candidate) live.providers }
    let live : Config α :=
      { live with
        routing := replaceProperties ROUTING_RELOADABLE_FIELDS live.routing candidate.routing }
    -- `replaceSourceMtime` deletes the property and defines it again
    let live : Config α :=
      { live with
        property := replaceProperty
          (replaceProperty live.property .warnings (candidate.property .warnings))
          .sourceMtimeMs (candidate.property .sourceMtimeMs) }
    (.applied changed, live)

end Apply

/-! ## Places in a configuration -/

/-- A place where two configurations may differ. -/
inductive Location where
  | config (key : ConfigKey)
  | repair (key : RepairKey)
  | provider (name : Text) (key : ProviderKey)
  | credential (name : Text) (index : Nat) (key : CredentialKey)
  | routing (key : RoutingKey)
  deriving DecidableEq

namespace Location

/-- How the place is reported. -/
def path : Location → Text
  | config key => key.name
  | repair key => text "repair." ++ key.name
  | provider name key => providerPath name key.name
  | credential name index key =>
    text "providers." ++ name ++ text ".credentials[" ++ text (toString index) ++ text "]."
      ++ key.name
  | routing key => routingPath key.name

/-- Whether a new value can be taken over without a restart. Load metadata is taken over too,
but it is no setting and is not reported. -/
def Reloadable : Location → Prop
  | config key =>
    key ∈ [ConfigKey.mode, .reshaper, .reshaperCandidates, .reshaperPool, .walkBudgetMs,
      .maxBodyBytes, .leaveMeAlone]
  | repair key => key = .maxAttempts
  | provider _ key => key ∈ PROVIDER_RELOADABLE_FIELDS
  | credential _ _ key => key = .limits
  | routing key => key ∈ ROUTING_RELOADABLE_FIELDS

variable {α : Type*}

/-- The value at the place. -/
def read (cfg : Config α) : Location → Option α
  | config key => cfg.property key
  | repair key => cfg.repair key
  | provider name key => (cfg.providers.get? name).bind fun provider => provider.property key
  | credential name index key =>
    (cfg.providers.get? name).bind fun provider => provider.credentials.bind fun slots =>
      slots[index]?.bind fun credential => credential key
  | routing key => cfg.routing key

end Location

end LlmRelay.Reload
