import LlmRelay.Ecma.Pruning
import LlmRelay.Ecma.Strings

/-!
# The `routing` block of a configuration

`parseRouting` reads the block (`config/routing-parser.ts`): the specs of the default, of tiers,
pools, subagents and ladders, with the specs of disabled providers dropped, and a final check
that every spec that is left names something.

The ten optional sub-blocks are parsed from the document alone, so their parser is a parameter.

## Main definitions

* `Spec`: a spec, or a nonempty list of specs;
* `Routing`: the parsed block;
* `parsePools`, `parseLadder`, `degradeDisabledRouting`, `assertRoutingResolvable`,
  `parseRouting`: the code. The warnings that it pushes are returned beside the value.
-/

namespace LlmRelay.Config

open Ecma

/-- What a parser returns, or the message of what it throws. -/
abbrev Parsed := Except Text

theorem bind_eq_ok {ε α β : Type} {x : Except ε α} {f : α → Except ε β} {b : β} :
    (x >>= f) = .ok b ↔ ∃ a, x = .ok a ∧ f a = .ok b := by
  cases x with
  | error e =>
    constructor
    · intro h
      cases h
    · rintro ⟨a, ha, -⟩
      cases ha
  | ok a =>
    constructor
    · exact fun h => ⟨a, rfl, h⟩
    · rintro ⟨a', ha, h⟩
      cases ha
      exact h

/-! ## Specs -/

/-- Reserved provider-namespace prefix for `pool/<name>` routing. -/
def POOL_PREFIX : Text := text "pool"

/-- Reserved model name for auto-dispatch. -/
def AUTO_MODEL : Text := text "auto"

def slash : CodeUnit := 0x2F

structure SplitSpec where
  provider : Text
  model : Option Text

/-- `splitSpec`: the provider stands before the first slash. -/
def splitSpec (spec : Text) : SplitSpec :=
  match spec.indexOf [slash] with
  | none => { provider := spec, model := none }
  | some i => { provider := spec.take i, model := some (spec.drop (i + 1)) }

/-- `string | string[]` as the parser builds it. -/
inductive Spec where
  | single (spec : Text)
  | list (specs : List Text) (nonempty : specs ≠ [])
  deriving DecidableEq

namespace Spec

def specs : Spec → List Text
  | .single spec => [spec]
  | .list specs _ => specs

end Spec

/-- `v.filter((s) => typeof s === "string" && s.length > 0)`. -/
def specStrings (items : List Json) : List Text :=
  items.filterMap fun
    | .str s => if s = [] then none else some s
    | _ => none

/-- `Object.entries(value)`; an array has its indices as keys, and what is no object none. -/
def objectEntries : Option Json → List (Text × Json)
  | some (.obj fields) => fields
  | some (.arr items) => items.mapIdx fun i item => (Number.natText i, item)
  | _ => []

/-- The name that sets the prototype of a plain object when it is assigned to. -/
def protoName : Text := text "__proto__"

/-- `map[k] = v` on a plain object: a prototype is no property. -/
def assign {α : Type} (map : OrderedMap Text α) (k : Text) (v : α) : OrderedMap Text α :=
  if k = protoName then map else map.set k v

/-! ## The parsed block -/

inductive EffortLevel where
  | low | medium | high | xhigh
  deriving DecidableEq

def EffortLevel.ofText? (t : Text) : Option EffortLevel :=
  if t = text "low" then some .low
  else if t = text "medium" then some .medium
  else if t = text "high" then some .high
  else if t = text "xhigh" then some .xhigh
  else none

/-- A fixed prefix followed by discovered models; `include` is always `"free"`. -/
structure PoolPolicy where
  preferred : List Text
  exclude : Option (List Text)
  effort : Option EffortLevel
  deriving DecidableEq

inductive RungKind where
  | cli | relay
  deriving DecidableEq

/-- The environment of a spawned command: a variable is set, or unset. -/
abbrev SpawnEnv := OrderedMap Text (Option Text)

structure LadderRung where
  id : Text
  kind : RungKind
  enabled : Bool
  quota : Option Text := none
  note : Option Text := none
  command : Option Text := none
  args : Option (List Text) := none
  env : Option SpawnEnv := none
  maxConcurrent : Option Number := none
  spec : Option Text := none
  deriving DecidableEq

structure CliLaneTemplate where
  command : Text
  args : List Text
  env : Option SpawnEnv
  deriving DecidableEq

inductive OffloadScope where
  | subagents | all
  deriving DecidableEq

structure OffloadRule where
  enabled : Bool
  scope : OffloadScope
  freeOnly : Option Bool
  deriving DecidableEq

inductive OffloadConfig where
  | switch (enabled : Bool)
  | rules (byClient : OrderedMap Text OffloadRule)
  deriving DecidableEq

/-- The parsed block; `β` is what the optional sub-blocks parse to. -/
structure Routing (β : Type) where
  default_ : Spec
  tiers : OrderedMap Text Spec
  benchmarkSort : Bool
  offload : OffloadConfig
  blocks : β
  pools : Option (OrderedMap Text (List Text))
  /-- What the object of the pools inherits, if its prototype was set. -/
  poolsPrototype : Option (List Text)
  poolPolicies : Option (OrderedMap Text PoolPolicy)
  subagents : Option (OrderedMap Text Spec)
  ladder : Option (List LadderRung)
  ladders : Option (OrderedMap Text (List LadderRung))
  cliLane : Option CliLaneTemplate

/-- What the parser reads of a provider. -/
structure ProviderConfig where
  kind : Text

/-- The providers that are enabled, by name. -/
abbrev Providers := OrderedMap Text ProviderConfig

/-! ## Top-level fields -/

def assertNoReservedProviderNames (providers : Providers) : Parsed Unit := do
  if providers.has POOL_PREFIX then
    throw (text "config.providers.\"" ++ POOL_PREFIX
      ++ text "\" is reserved — it would shadow \"pool/<name>\" routing")
  if providers.has AUTO_MODEL then
    throw (text "config.providers.\"" ++ AUTO_MODEL ++ text "\" is reserved — it would shadow \""
      ++ AUTO_MODEL ++ text "\" routing")

/-- `parseDefault`; the override of the command line takes precedence. -/
def parseDefault (dfltRaw : Option Json) (overrideDefault : Option Text) : Parsed Spec :=
  match (overrideDefault.map Json.str).or dfltRaw with
  | some (.arr items) =>
    if h : specStrings items = [] then
      .error (text "config.routing.default array must contain at least one valid spec string")
    else
      .ok (.list (specStrings items) h)
  | some (.str (c :: s)) => .ok (.single (c :: s))
  | _ => .error (text "config.routing.default (\"provider/model\") is required")

/-- `parseTiers`: what is empty is left out. -/
def parseTiers (raw : Option Json) : OrderedMap Text Spec :=
  (objectEntries raw).foldl (fun tiers (k, v) =>
    match v with
    | .arr items =>
      if h : specStrings items = [] then tiers
      else assign tiers k (.list (specStrings items) h)
    | .str (c :: s) => assign tiers k (.single (c :: s))
    | _ => tiers) .empty

def parseSubagents (raw : Option Json) : OrderedMap Text Spec :=
  (objectEntries raw).foldl (fun subagents (k, v) =>
    match v with
    | .str (c :: s) => assign subagents k (.single (c :: s))
    | _ => subagents) .empty

/-! ## Pools -/

/-- Every element is a string that satisfies the test. -/
def stringsWhere (test : Text → Bool) (items : List Json) : Option (List Text) :=
  items.mapM fun
    | .str s => if test s then some s else none
    | _ => none

/-- `/^\S+\/\S+$/.test(s) && !s.startsWith("pool/")`. -/
def isExcludable (s : Text) : Bool :=
  s.all (fun c => !isWhitespace c) && (s.drop 1).dropLast.contains slash
    && !s.startsWith (POOL_PREFIX ++ [slash])

/-- `policy.exclude`, with an absent list as the empty one. -/
def parseExclude (k : Text) : Option Json → Parsed (List Text)
  | none => .ok []
  | some v =>
    match (Json.array? (some v)).bind (stringsWhere isExcludable) with
    | some exclude => .ok exclude
    | none =>
      .error (text "config.routing.pools." ++ k
        ++ text ".exclude must be an array of \"provider/model\" specs")

def parsePoolEffort (k : Text) : Option Json → Parsed (Option EffortLevel)
  | none => .ok none
  | some v =>
    match (Json.string? (some v)).bind EffortLevel.ofText? with
    | some effort => .ok (some effort)
    | none =>
      .error (text "config.routing.pools." ++ k
        ++ text ".effort must be low, medium, high, or xhigh")

/-- `parsePoolPolicy`: the object form of a pool. -/
def parsePoolPolicy (k : Text) (policy : Json) : Parsed (List Text × PoolPolicy) := do
  let preferred ←
    match (Json.array? (policy.get? (text "preferred"))).bind
        (stringsWhere fun s => decide (s ≠ [])) with
    | some preferred => pure preferred
    | none =>
      throw (text "config.routing.pools." ++ k
        ++ text ".preferred must be an array of non-empty \"provider/model\" specs")
  if policy.get? (text "include") ≠ some (.str (text "free")) then
    throw (text "config.routing.pools." ++ k ++ text ".include must be \"free\"")
  let exclude ← parseExclude k (policy.get? (text "exclude"))
  let effort ← parsePoolEffort k (policy.get? (text "effort"))
  let declared := preferred.filter fun spec => decide (spec ∉ exclude)
  pure (declared,
    { preferred := declared
      exclude := if exclude = [] then none else some exclude
      effort := effort })

/-- The members that an entry of `routing.pools` declares, with the policy of the object form. -/
def declaredPool (k : Text) : Json → Parsed (List Text × Option PoolPolicy)
  | .arr items => .ok (specStrings items, none)
  | .obj fields => (parsePoolPolicy k (.obj fields)).map fun parsed => (parsed.1, some parsed.2)
  | _ =>
    .error (text "config.routing.pools." ++ k
      ++ text " must be an array of specs or \x7b\"preferred\":[...],\"include\":\"free\"\x7d")

/-- The warning about a member that is dropped. -/
def poolWarning (k s : Text) : Text :=
  text "routing.pools." ++ k ++ text ": dropped \"" ++ s ++ text "\" — provider \""
    ++ (splitSpec s).provider ++ text "\" is disabled"

/-- Whether a pool keeps a member. -/
def keepsMember (disabledProviders : List Text) (s : Text) : Bool :=
  decide ((splitSpec s).provider ∉ disabledProviders)

/-- A pool with its members, its policy and the warnings about it. -/
structure PoolEntry where
  members : List Text
  poolPolicy : Option PoolPolicy
  warnings : List Text

def parsePoolEntry (k : Text) (v : Json) (disabledProviders : List Text) : Parsed PoolEntry := do
  let (declared, poolPolicy) ← declaredPool k v
  let arr := declared.filter (keepsMember disabledProviders)
  let dropped := declared.filter fun s => !keepsMember disabledProviders s
  if arr = [] ∧ poolPolicy = none then
    throw (text "config.routing.pools." ++ k
      ++ text " must contain at least one valid spec string")
  match arr.find? fun s => s.startsWith (POOL_PREFIX ++ [slash]) with
  | some nested =>
    throw (text "config.routing.pools." ++ k ++ text " member \"" ++ nested
      ++ text "\" — a pool cannot reference another pool")
  | none =>
    pure
      { members := arr
        poolPolicy := poolPolicy.map fun policy => { policy with preferred := arr }
        warnings := dropped.map (poolWarning k) }

structure Pools where
  pools : OrderedMap Text (List Text)
  /-- The members of a pool that sets the prototype. -/
  prototype : Option (List Text)
  poolPolicies : OrderedMap Text PoolPolicy
  warnings : List Text

namespace Pools

def empty : Pools :=
  { pools := .empty, prototype := none, poolPolicies := .empty, warnings := [] }

/-- One round of the loop of `parsePools`. -/
def add (pools : Pools) (k : Text) (entry : PoolEntry) : Pools where
  pools := assign pools.pools k entry.members
  prototype := if k = protoName then some entry.members else pools.prototype
  poolPolicies :=
    match entry.poolPolicy with
    | some policy => assign pools.poolPolicies k policy
    | none => pools.poolPolicies
  warnings := pools.warnings ++ entry.warnings

end Pools

def parsePools (raw : Option Json) (disabledProviders : List Text) : Parsed Pools :=
  (objectEntries raw).foldlM (fun pools (k, v) => do
    return pools.add k (← parsePoolEntry k v disabledProviders)) .empty

/-! ## Offloading -/

def parseOffloadRule (client : Text) (value : Json) : Parsed OffloadRule := do
  let where_ := text "config.routing.offload." ++ client
  if client = [] then
    throw (text "config.routing.offload client name must not be empty")
  match value with
  | .bool enabled => pure { enabled := enabled, scope := .subagents, freeOnly := none }
  | .obj fields =>
    let rule := Json.obj fields
    let enabled ←
      match rule.get? (text "enabled") with
      | some (.bool enabled) => pure enabled
      | _ => throw (where_ ++ text ".enabled must be true or false")
    let scope ←
      match rule.get? (text "scope") with
      | none => pure OffloadScope.subagents
      | some (.str t) =>
        if t = text "subagents" then pure .subagents
        else if t = text "all" then pure .all
        else throw (where_ ++ text ".scope must be \"subagents\" or \"all\"")
      | some _ => throw (where_ ++ text ".scope must be \"subagents\" or \"all\"")
    let freeOnly ←
      match rule.get? (text "freeOnly") with
      | none => pure none
      | some (.bool freeOnly) => pure (some freeOnly)
      | some _ => throw (where_ ++ text ".freeOnly must be true or false")
    pure { enabled := enabled, scope := scope, freeOnly := freeOnly }
  | _ => throw (where_ ++ text " must be a boolean or \x7b\"enabled\":bool,\"scope\":...\x7d")

/-- `parseOffload`: absent is off. -/
def parseOffload : Option Json → Parsed OffloadConfig
  | none => .ok (.switch false)
  | some (.bool enabled) => .ok (.switch enabled)
  | some (.obj fields) => do
      return .rules (← fields.foldlM (fun rules (client, value) => do
        return rules.set client (← parseOffloadRule client value)) .empty)
  | some _ =>
    .error (text "config.routing.offload must be a boolean or an object keyed by client")

/-! ## Ladders -/

def LADDER_TASK_TOKEN : Text := text "\x7btask\x7d"

def LADDER_SPEC_TOKEN : Text := text "\x7bspec\x7d"

def LADDER_CONTEXT_TOKEN : Text := text "\x7bcontextWindow\x7d"

/-- ASCII control characters are never valid in environment variable names. -/
def hasAsciiControl (value : Text) : Bool :=
  value.any fun code => decide (code ≤ 0x1F) || (decide (0x7F ≤ code) && decide (code ≤ 0x9F))

def validEnvName (name : Text) : Bool :=
  decide (name ≠ []) && !name.includes (text "=") && !name.any isWhitespace
    && !hasAsciiControl name

/-- `parseSpawnEnv`; an empty object counts as absent. -/
def parseSpawnEnv (where_ : Text) : Option Json → Parsed (Option SpawnEnv)
  | none => .ok none
  | some (.obj fields) => do
      let env : SpawnEnv ← fields.foldlM (fun env (name, value) => do
        if !validEnvName name then
          throw (where_ ++ text ".env has an invalid variable name " ++ Json.quote name)
        match value with
        | .str s => pure (env.set name (some s))
        | .null => pure (env.set name none)
        | _ =>
          throw (where_ ++ text ".env." ++ name
            ++ text " must be a string (set) or null (unset)")) OrderedMap.empty
      return if env.keys = [] then none else some env
  | some _ =>
    .error (where_
      ++ text ".env must be an object mapping variable names to a string (set) or null (unset)")

/-- `e.command`, a string that is not empty. -/
def nonEmptyString (message : Text) : Option Json → Parsed Text
  | some (.str (c :: s)) => .ok (c :: s)
  | _ => .error message

/-- `e.args`, an array of strings. -/
def stringArray (message : Text) (raw : Option Json) : Parsed (List Text) :=
  match (Json.array? raw).bind (stringsWhere fun _ => true) with
  | some args => .ok args
  | none => .error message

/-- `parseCliLane`; `null` counts as absent. -/
def parseCliLane (root : Text) : Option Json → Parsed (Option CliLaneTemplate)
  | none | some .null => .ok none
  | some (.obj fields) => do
      let e := Json.obj fields
      let command ← nonEmptyString (root ++ text ".command must be a non-empty string")
        (e.get? (text "command"))
      let args ← stringArray (root ++ text ".args must be an array of strings")
        (e.get? (text "args"))
      if !args.any (·.includes LADDER_SPEC_TOKEN) then
        throw (root ++ text ".args must contain \"" ++ LADDER_SPEC_TOKEN
          ++ text "\" in one argument — otherwise every transposed rung invokes " ++ command
          ++ text " with the same model and the ladder only appears to fail over")
      if !args.any (·.includes LADDER_TASK_TOKEN) then
        throw (root ++ text ".args must contain \"" ++ LADDER_TASK_TOKEN
          ++ text "\" in one argument — otherwise the task is never passed to " ++ command)
      let env ← parseSpawnEnv root (e.get? (text "env"))
      -- task text is never substituted into an environment, so it is refused by name
      let offending := (env.getD .empty).entries.find? fun entry =>
        (entry.2.getD []).includes LADDER_TASK_TOKEN
      match offending with
      | some (name, _) =>
        throw (root ++ text ".env." ++ name ++ text " must not contain \"" ++ LADDER_TASK_TOKEN
          ++ text "\" — task text is never placed in a spawned process's environment "
          ++ text "(use args for the task; \"" ++ LADDER_CONTEXT_TOKEN
          ++ text "\" is available here)")
      | none => pure (some { command := command, args := args, env := env })
  | some _ => .error (root ++ text " must be an object")

/-- `applyCliMaxConcurrent`. -/
def parseMaxConcurrent (where_ id : Text) : Option Json → Parsed (Option Number)
  | none => .ok none
  | some (.num (.fin q)) =>
    if q.isInt ∧ 0 < q then .ok (some (.fin q))
    else .error (where_ ++ text ".maxConcurrent must be a positive integer (rung \"" ++ id
      ++ text "\")")
  | some _ =>
    .error (where_ ++ text ".maxConcurrent must be a positive integer (rung \"" ++ id
      ++ text "\")")

/-- `ignoreRungCapability`: a legacy key that warns. -/
def ignoreRungCapability (where_ id : Text) : Option Json → Parsed (List Text)
  | none => .ok []
  | some v =>
    match Json.string? (some v) with
    | some t =>
      if (EffortLevel.ofText? t).isSome then
        .ok [where_ ++ text ".capability \"" ++ t
          ++ text "\" has no effect — lane capability is derived from synced capability data"]
      else
        .error (where_ ++ text ".capability must be one of low, medium, high, xhigh (rung \""
          ++ id ++ text "\")")
    | none =>
      .error (where_ ++ text ".capability must be one of low, medium, high, xhigh (rung \""
        ++ id ++ text "\")")

/-- A string that is kept where it is not empty. -/
def optionalString (raw : Option Json) : Option Text :=
  (Json.string? raw).filter fun s => decide (s ≠ [])

/-- One entry of a ladder, with its warnings; `seen` are the ids of earlier rungs. -/
def parseRung (root : Text) (i : Nat) (seen : List Text) (entry : Json) :
    Parsed (LadderRung × List Text) := do
  let where_ := root ++ text "[" ++ Number.natText i ++ text "]"
  match entry with
  | .obj _ | .arr _ => pure ()
  | _ => throw (where_ ++ text " must be an object")
  let id ← nonEmptyString (where_ ++ text ".id must be a non-empty string")
    (entry.get? (text "id"))
  if id ∈ seen then
    throw (where_ ++ text ".id \"" ++ id ++ text "\" is already used by an earlier rung")
  let kind ←
    if entry.get? (text "kind") = some (.str (text "cli")) then pure RungKind.cli
    else if entry.get? (text "kind") = some (.str (text "relay")) then pure RungKind.relay
    else
      throw (where_ ++ text ".kind must be \"cli\" or \"relay\" (got "
        ++ ((entry.get? (text "kind")).map Json.stringify).getD (text "undefined") ++ text ")")
  let rung : LadderRung :=
    { id := id
      kind := kind
      enabled := decide (entry.get? (text "enabled") ≠ some (.bool false))
      quota := optionalString (entry.get? (text "quota"))
      note := optionalString (entry.get? (text "note")) }
  let warnings ← ignoreRungCapability where_ id (entry.get? (text "capability"))
  match kind with
  | .cli =>
    let command ← nonEmptyString
      (where_ ++ text ".command must be a non-empty string for a \"cli\" rung")
      (entry.get? (text "command"))
    let args ← stringArray
      (where_ ++ text ".args must be an array of strings for a \"cli\" rung")
      (entry.get? (text "args"))
    if !args.any (·.includes LADDER_TASK_TOKEN) then
      throw (where_ ++ text ".args must contain \"" ++ LADDER_TASK_TOKEN
        ++ text "\" in one argument — otherwise the task is never passed to " ++ command)
    let env ← parseSpawnEnv where_ (entry.get? (text "env"))
    let maxConcurrent ← parseMaxConcurrent where_ id (entry.get? (text "maxConcurrent"))
    pure ({ rung with
      command := some command
      args := some args
      env := env
      maxConcurrent := maxConcurrent }, warnings)
  | .relay =>
    let spec ← nonEmptyString
      (where_ ++ text ".spec must be a non-empty string for a \"relay\" rung")
      (entry.get? (text "spec"))
    pure ({ rung with spec := some spec }, warnings)

/-- The loop of `parseLadder`, from the entry of index `i` on. -/
def parseRungs (root : Text) (i : Nat) (seen : List Text) :
    List Json → Parsed (List LadderRung × List Text)
  | [] => .ok ([], [])
  | entry :: rest => do
      let (rung, warnings) ← parseRung root i seen entry
      let (rungs, more) ← parseRungs root (i + 1) (seen ++ [rung.id]) rest
      return (rung :: rungs, warnings ++ more)

/-- `parseLadder`; `null` counts as absent. -/
def parseLadder (root : Text) : Option Json → Parsed (List LadderRung × List Text)
  | none | some .null => .ok ([], [])
  | some (.arr items) => parseRungs root 0 [] items
  | some _ => .error (root ++ text " must be an array of rungs")

/-- `parseLadders`: a named ladder must have a rung. -/
def parseLadders : Option Json → Parsed (OrderedMap Text (List LadderRung) × List Text)
  | none => .ok (.empty, [])
  | some (.obj fields) =>
    fields.foldlM (fun (ladders, warnings) (tier, rawLadder) => do
      let (parsed, more) ← parseLadder (text "config.routing.ladders." ++ tier) (some rawLadder)
      if parsed = [] then
        throw (text "config.routing.ladders." ++ tier ++ text " must contain at least one rung")
      return (assign ladders tier parsed, warnings ++ more)) (OrderedMap.empty, [])
  | some _ =>
    .error (text "config.routing.ladders must be an object of named ladder arrays")

/-! ## Disabled providers -/

/-- The warning about a spec that is dropped. -/
def specWarning (where_ s : Text) : Text :=
  text "config." ++ where_ ++ text ": dropped \"" ++ s ++ text "\" — provider \""
    ++ (splitSpec s).provider ++ text "\" is disabled. That routing now falls through to "
    ++ text "routing.default, which for a passthrough default means primary quota."

/-- Whether a spec is kept outside a pool. -/
def keepsSpec (disabled : List Text) (s : Text) : Bool :=
  decide ((splitSpec s).provider = POOL_PREFIX) || keepsMember disabled s

/-- `dropDisabledSpecs`: what is left of a spec, and the warnings. -/
def dropDisabledSpecs (spec : Spec) (disabled : List Text) (where_ : Text) :
    Option Spec × List Text :=
  if disabled = [] then
    (some spec, [])
  else
    let kept := spec.specs.filter (keepsSpec disabled)
    let warnings :=
      (spec.specs.filter fun s => !keepsSpec disabled s).map (specWarning where_)
    if h : kept = [] then
      (none, warnings)
    else
      match spec with
      | .single s => (some (.single s), warnings)
      | .list _ _ => (some (.list kept h), warnings)

/-- The rungs that `dropDisabledRungs` keeps. -/
def keepsRung (disabledProviders : List Text) (rung : LadderRung) : Bool :=
  match rung.kind, rung.spec with
  | .relay, some spec => (dropDisabledSpecs (.single spec) disabledProviders []).1.isSome
  | _, _ => true

/-- `dropDisabledRungs`: the kept rungs, and the warnings. -/
def dropDisabledRungs (rungs : List LadderRung) (disabledProviders : List Text)
    (prefix_ : Text) : List LadderRung × List Text :=
  (rungs.filter (keepsRung disabledProviders),
    rungs.flatMap fun rung =>
      match rung.kind, rung.spec with
      | .relay, some spec =>
        (dropDisabledSpecs (.single spec) disabledProviders
          (prefix_ ++ text "[" ++ rung.id ++ text "].spec")).2
      | _, _ => [])

/-- `pruneDisabledSpecEntries`, on tiers and on subagents. -/
def pruneDisabledSpecEntries (map : OrderedMap Text Spec) (disabledProviders : List Text)
    (prefix_ : Text) : OrderedMap Text Spec × List Text :=
  (map.prune fun tier spec =>
      (dropDisabledSpecs spec disabledProviders (prefix_ ++ text "." ++ tier)).1,
    map.entries.flatMap fun (tier, spec) =>
      (dropDisabledSpecs spec disabledProviders (prefix_ ++ text "." ++ tier)).2)

/-- A named ladder that loses every rung is deleted. -/
def pruneLadders (ladders : OrderedMap Text (List LadderRung)) (disabledProviders : List Text) :
    OrderedMap Text (List LadderRung) × List Text :=
  (ladders.prune fun tier tierLadder =>
      let kept := (dropDisabledRungs tierLadder disabledProviders
        (text "routing.ladders." ++ tier)).1
      if kept = [] then none else some kept,
    ladders.entries.flatMap fun (tier, tierLadder) =>
      (dropDisabledRungs tierLadder disabledProviders (text "routing.ladders." ++ tier)).2)

/-- A default that is a list loses its disabled specs; a single one has nothing to fall back to. -/
def degradeDefault (spec : Spec) (disabledProviders : List Text) : Spec × List Text :=
  match spec with
  | .single s => (.single s, [])
  | .list specs nonempty =>
    let dropped := dropDisabledSpecs (.list specs nonempty) disabledProviders
      (text "routing.default")
    (dropped.1.getD (.list specs nonempty), dropped.2)

/-- `degradeDisabledRouting`: the degraded block, and the warnings. -/
def degradeDisabledRouting {β : Type} (routing : Routing β) (disabledProviders : List Text) :
    Routing β × List Text :=
  let tiers := pruneDisabledSpecEntries routing.tiers disabledProviders (text "routing.tiers")
  let subagents := pruneDisabledSpecEntries (routing.subagents.getD .empty) disabledProviders
    (text "routing.subagents")
  let dflt := degradeDefault routing.default_ disabledProviders
  let ladder := dropDisabledRungs (routing.ladder.getD []) disabledProviders
    (text "routing.ladder")
  let ladders := pruneLadders (routing.ladders.getD .empty) disabledProviders
  ({ routing with
      tiers := tiers.1
      subagents := routing.subagents.map fun _ => subagents.1
      default_ := dflt.1
      ladder := if ladder.1 = [] then none else some ladder.1
      ladders := if ladders.1.keys = [] then none else some ladders.1 },
    tiers.2 ++ subagents.2 ++ dflt.2 ++ ladder.2 ++ ladders.2)

/-! ## The final check -/

/-- The names that an object inherits from `Object.prototype`. -/
def inheritedNames : List Text :=
  [text "constructor", text "__defineGetter__", text "__defineSetter__", text "hasOwnProperty",
    text "__lookupGetter__", text "__lookupSetter__", text "isPrototypeOf",
    text "propertyIsEnumerable", text "toString", text "valueOf", text "__proto__",
    text "toLocaleString"]

/-- The names that an array inherits from `Array.prototype`. -/
def arrayNames : List Text :=
  [text "at", text "concat", text "copyWithin", text "entries", text "every", text "fill",
    text "filter", text "find", text "findIndex", text "findLast", text "findLastIndex",
    text "flat", text "flatMap", text "forEach", text "includes", text "indexOf", text "join",
    text "keys", text "lastIndexOf", text "map", text "pop", text "push", text "reduce",
    text "reduceRight", text "reverse", text "shift", text "slice", text "some", text "sort",
    text "splice", text "toReversed", text "toSorted", text "toSpliced", text "unshift",
    text "values", text "with"]

/-- `members[name]` is truthy, beside what every object inherits. -/
def arrayHas (members : List Text) (name : Text) : Bool :=
  (name == text "length" && !members.isEmpty) || arrayNames.contains name
    || ((arrayIndex? name).bind (members[·]?)).isSome

/-- The object of the pools: its own properties, and a prototype that was set. -/
structure PoolTable where
  own : OrderedMap Text (List Text)
  prototype : Option (List Text)

def PoolTable.empty : PoolTable := { own := .empty, prototype := none }

def Routing.poolTable {β : Type} (routing : Routing β) : PoolTable where
  own := routing.pools.getD .empty
  prototype := routing.poolsPrototype

/-- What the object of the pools has without that it was declared. -/
def inheritsPool (prototype : Option (List Text)) (model : Text) : Bool :=
  decide (model ∈ inheritedNames) || prototype.any (arrayHas · model)

/-- `pools[model]` is truthy: a list of members, or what is inherited. -/
def namesPool (pools : PoolTable) (model : Text) : Bool :=
  pools.own.has model || inheritsPool pools.prototype model

/-- One round of the loop of `assertSpecResolvable`. -/
def assertOneResolvable (providers : Providers) (pools : PoolTable) (where_ : Text)
    (disabled : List Text) (s : Text) : Parsed Unit :=
  let provider := (splitSpec s).provider
  let model := ((splitSpec s).model).getD []
  if provider = POOL_PREFIX then
    if model = [] ∨ namesPool pools model = false then
      .error (text "config." ++ where_ ++ text " \"" ++ s ++ text "\" names unknown pool \""
        ++ model ++ text "\" (available: "
        ++ (if pools.own.keys = [] then text "none" else Text.join (text ", ") pools.own.keys)
        ++ text ")")
    else
      .ok ()
  else
    match providers.get? provider with
    | none =>
      -- what is inherited is truthy, and has no `kind`
      if provider ∈ inheritedNames then
        .ok ()
      else if provider ∈ disabled then
        .error (text "config." ++ where_ ++ text " \"" ++ s ++ text "\" names provider \""
          ++ provider ++ text "\", which is DISABLED because its base references an unset "
          ++ text "$\x7bENV\x7d (see the warning above). Set the variable, or point " ++ where_
          ++ text " somewhere else.")
      else
        .error (text "config." ++ where_ ++ text " \"" ++ s
          ++ text "\" names unknown provider \"" ++ provider ++ text "\"")
    | some p =>
      if p.kind = text "openai" ∧ model = [] then
        .error (text "config." ++ where_ ++ text " \"" ++ s
          ++ text "\" needs a model id for openai provider \"" ++ provider ++ text "\"")
      else
        .ok ()

def assertSpecResolvable (specs : List Text) (providers : Providers) (pools : PoolTable)
    (where_ : Text) (disabled : List Text) : Parsed Unit :=
  specs.forM (assertOneResolvable providers pools where_ disabled)

def assertRungsResolvable (rungs : List LadderRung) (providers : Providers) (pools : PoolTable)
    (prefix_ : Text) : Parsed Unit :=
  rungs.forM fun rung =>
    match rung.kind, rung.spec with
    | .relay, some spec =>
      assertSpecResolvable [spec] providers pools
        (prefix_ ++ text "[" ++ rung.id ++ text "].spec") []
    | _, _ => .ok ()

/-- Only the default can still trip over a disabled provider. -/
def assertRoutingResolvable {β : Type} (routing : Routing β) (providers : Providers)
    (disabledProviders : List Text) : Parsed Unit := do
  let pools := routing.poolTable
  assertSpecResolvable routing.default_.specs providers pools (text "routing.default")
    disabledProviders
  routing.tiers.entries.forM fun (tier, spec) =>
    assertSpecResolvable spec.specs providers pools (text "routing.tiers." ++ tier) []
  pools.own.entries.forM fun (pool, specs) =>
    assertSpecResolvable specs providers .empty (text "routing.pools." ++ pool) []
  (routing.subagents.getD .empty).entries.forM fun (tier, spec) =>
    assertSpecResolvable spec.specs providers pools (text "routing.subagents." ++ tier) []
  assertRungsResolvable (routing.ladder.getD []) providers pools (text "routing.ladder")
  (routing.ladders.getD .empty).entries.forM fun (tier, tierLadder) =>
    assertRungsResolvable tierLadder providers pools (text "routing.ladders." ++ tier)

/-! ## The parser -/

/-- A map that is set only where it has an entry. -/
def unlessEmpty {α : Type} (map : OrderedMap Text α) : Option (OrderedMap Text α) :=
  if map.keys = [] then none else some map

/-- The block before it is degraded, and the warnings so far. -/
def parseBlock {β : Type} (parseOptionalBlocks : Json → Parsed (β × List Text)) (raw : Json)
    (providers : Providers) (overrideDefault : Option Text) (disabledProviders : List Text) :
    Parsed (Routing β × List Text) := do
  assertNoReservedProviderNames providers
  let dflt ← parseDefault (raw.get? (text "default")) overrideDefault
  let tiers := parseTiers (raw.get? (text "tiers"))
  let pools ← parsePools (raw.get? (text "pools")) disabledProviders
  let subagents := parseSubagents (raw.get? (text "subagents"))
  let benchmarkSort :=
    match raw.get? (text "benchmarkSort") with
    | some (.bool b) => b
    | _ => true
  let offload ← parseOffload (raw.get? (text "offload"))
  let (blocks, blockWarnings) ← parseOptionalBlocks raw
  let (ladder, ladderWarnings) ← parseLadder (text "config.routing.ladder")
    (raw.get? (text "ladder"))
  let (ladders, laddersWarnings) ← parseLadders (raw.get? (text "ladders"))
  let cliLane ← parseCliLane (text "config.routing.cliLane") (raw.get? (text "cliLane"))
  pure
    ({ default_ := dflt
       tiers := tiers
       benchmarkSort := benchmarkSort
       offload := offload
       blocks := blocks
       pools := unlessEmpty pools.pools
       poolsPrototype := pools.prototype
       poolPolicies := unlessEmpty pools.poolPolicies
       subagents := unlessEmpty subagents
       ladder := if ladder = [] then none else some ladder
       ladders := unlessEmpty ladders
       cliLane := cliLane },
      pools.warnings ++ blockWarnings ++ ladderWarnings ++ laddersWarnings)

/-- `parseRouting`, with the warnings that it pushes. -/
def parseRouting {β : Type} (parseOptionalBlocks : Json → Parsed (β × List Text)) (raw : Json)
    (providers : Providers) (overrideDefault : Option Text) (disabledProviders : List Text) :
    Parsed (Routing β × List Text) := do
  let (routing, warnings) ←
    parseBlock parseOptionalBlocks raw providers overrideDefault disabledProviders
  let (degraded, dropped) := degradeDisabledRouting routing disabledProviders
  assertRoutingResolvable degraded providers disabledProviders
  pure (degraded, warnings ++ dropped)

end LlmRelay.Config
