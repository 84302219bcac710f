import LlmRelay.Dispatch.LaneArgs

/-!
# Rendered lanes

`buildDispatch` renders every rung of a ladder as a lane that a host can run (`dispatch.ts`): a
`cli` rung with its own command, and a `relay` rung that the host cannot address with the
operator's template. The task text is put into the arguments, what the lane rejects is removed,
and on Windows the whole may run through a launcher.

What a rung has besides (its quota, note, capability and statistics) does not reach the
invocation and is left out.

## Main definitions

* `Invocation`, `DispatchLane`: a command to run, and a lane;
* `transposeToCli`, `wrapForWindowsConsoleSafety`: the template, and the launcher;
* `toLane`, `buildDispatch`: the code.
-/

namespace LlmRelay.Dispatch

open Ecma Config

inductive Platform where
  | win32 | other
  deriving DecidableEq

/-- Whether the calling host's traffic reaches the relay. -/
inductive HostRoutingState where
  | routed | bypassed | unknown
  deriving DecidableEq

inductive LaneState where
  | ready | exhausted | disabled | notServable
  deriving DecidableEq

structure Invocation where
  command : Text
  args : List Text
  env : Option SpawnEnv

/-- A published window; `tokens` is the number as it is printed. -/
structure ContextWindow where
  tokens : Text
  source : Text
  unknownMembers : Nat

structure DispatchLane where
  id : Text
  kind : RungKind
  position : Nat
  state : LaneState
  invoke : Option Invocation := none
  notServable : Option Text := none
  droppedArgs : Option (List Text) := none
  spec : Option Text := none
  requiresDirective : Option Bool := none
  transposed : Bool := false
  contextWindow : Option ContextWindow := none
  unreachable : Option Text := none

/-- What is read of the configuration and of the state of the process. -/
structure DispatchSetting where
  cliLane : Option CliLaneTemplate
  /-- `cooldownUntil(cfg, rung, now) !== null`. -/
  coolingDown : LadderRung → Bool
  reachableWithoutRelay : Text → Bool
  /-- `offloadRule(cfg, client).enabled`. -/
  offloadEnabled : Bool
  /-- The window that is published for a spec. -/
  specContextWindow : Text → Option ContextWindow
  now : Int

/-- The options, once `normalizeOptions` has read them. -/
structure DispatchOptions where
  task : Option Text
  manifest : Option LaneManifest
  host : Option HostRoutingState
  entrypoint : Option Text
  /-- `requester === "mcp"`. -/
  requestedByMcp : Bool
  /-- A spec to run as a lane of its own, if it resolves. -/
  model : Option Text

/-! ## Texts -/

def MAX_ECHOED_ID : Nat := 120

def stripControlCharacters (value : Text) : Text :=
  value.map fun code =>
    if code ≤ 0x1F ∨ (0x7F ≤ code ∧ code ≤ 0x9F) then 0xFFFD else code

def describeId (id : Text) : Text :=
  let clean := stripControlCharacters id
  if MAX_ECHOED_ID < clean.length then clean.take MAX_ECHOED_ID ++ text "…" else clean

def mcpPassThroughReason (spec : Text) : Text :=
  text "the MCP server cannot run " ++ quoted (describeId spec)
    ++ text ": it forwards the caller's own Anthropic credential, "
    ++ text "which only the calling host holds, so the host must reach it with its own subagent"

def canAddressAsSubagent (host : Option HostRoutingState) : Bool :=
  decide (host = some .routed ∨ host = none)

def mustTransposeEveryRung (host : Option HostRoutingState) : Bool :=
  decide (host = some .unknown)

def unreachableReason (host : Option HostRoutingState) (who : Text) : Text :=
  if mustTransposeEveryRung host then
    who ++ text " is not running inside a Claude Code session, "
      ++ text "so it has no subagent mechanism to reach"
  else
    who ++ text " does not route its traffic through this relay, so a subagent cannot reach"

/-! ## Commands -/

/-- `/^agy$/i` names an editor on Windows, and `agy.exe` the command. -/
def normalizeCliCommand (command : Text) (platform : Platform) : Text :=
  if platform = .win32 ∧ lowerCase command = text "agy" then command ++ text ".exe" else command

/-- The task in the place of every `{task}`; without one the placeholder stays. -/
def fillTask (task : Option Text) (a : Text) : Text :=
  match task with
  | none => a
  | some task => Text.replaceAll a LADDER_TASK_TOKEN task

/-- The spec and the window, which are configuration. -/
def fillShared (spec : Text) (contextWindow : Option Text) (value : Text) : Text :=
  let withSpec := Text.replaceAll value LADDER_SPEC_TOKEN spec
  match contextWindow with
  | none => withSpec
  | some tokens => Text.replaceAll withSpec LADDER_CONTEXT_TOKEN tokens

/-- The variables of the template; one that needs an unknown window is left out. -/
def fillEnv (spec : Text) (contextWindow : Option Text) (env : SpawnEnv) : SpawnEnv :=
  env.filterMapValues fun
    | none => some none
    | some value =>
      if contextWindow = none ∧ value.includes LADDER_CONTEXT_TOKEN = true then none
      else some (some (fillShared spec contextWindow value))

def transposeToCli (spec : Text) (lane : CliLaneTemplate) (task : Option Text)
    (platform : Platform) (contextWindow : Option Text) : Invocation where
  command := normalizeCliCommand lane.command platform
  args := lane.args.map fun a => fillTask task (fillShared spec contextWindow a)
  env := lane.env.bind fun env =>
    let filled := fillEnv spec contextWindow env
    if filled.keys = [] then none else some filled

/-- `/^(pwsh|powershell)(\.exe)?$/i`. -/
def isPowerShell (command : Text) : Bool :=
  [text "pwsh", text "pwsh.exe", text "powershell", text "powershell.exe"].contains
    (lowerCase command)

/-- Whether the arguments run the launcher already. -/
def isAlreadyLaneLaunched (command : Text) (args : List Text) : Bool :=
  isPowerShell command
    && match args.dropWhile fun a => a ≠ text "-File" && a ≠ text "/File" with
      | _ :: target :: _ => lowerCase (baseName target) == text "lane-launch.ps1"
      | _ => false

/-- What stands before an invocation that runs through the launcher. -/
def launcherArgs (launcherPath command : Text) : List Text :=
  [text "-NoProfile", text "-ExecutionPolicy", text "Bypass", text "-File", launcherPath, command]

def wrapForWindowsConsoleSafety (invoke : Invocation) (launcherPath : Option Text)
    (platform : Platform) : Invocation :=
  match platform, launcherPath with
  | .win32, some launcherPath =>
    if isAlreadyLaneLaunched invoke.command invoke.args then invoke
    else
      { invoke with
        command := text "pwsh"
        args := launcherArgs launcherPath invoke.command ++ invoke.args }
  | _, _ => invoke

/-! ## Lanes -/

/-- `if (rung.kind === "cli" && rung.command && rung.args)`. -/
def cliCommand (rung : LadderRung) : Option (Text × List Text) :=
  match rung.kind, rung.command, rung.args with
  | .cli, some (c :: command), some args => some (c :: command, args)
  | _, _, _ => none

/-- `rung.kind === "relay" && rung.spec`. -/
def relaySpec (rung : LadderRung) : Option Text :=
  match rung.kind, rung.spec with
  | .relay, some (c :: spec) => some (c :: spec)
  | _, _ => none

/-- The part of a lane that a `cli` rung fills in. -/
def addCliInvocation (lane : DispatchLane) (rung : LadderRung) (setting : DispatchSetting)
    (opts : DispatchOptions) (platform : Platform) : DispatchLane :=
  match cliCommand rung with
  | none => lane
  | some (command, args) =>
    let filled := args.map (fillTask opts.task)
    let dropped := unsupportedRungArgs command args opts.manifest setting.now
    let lane := { lane with
      invoke := some
        { command := normalizeCliCommand command platform
          args := if dropped = [] then filled else stripArgs filled (dropped.map (·.arg))
          env := rung.env }
      droppedArgs := if dropped = [] then none else some (dropped.map (·.reason)) }
    match notServableReason command args opts.manifest setting.now with
    -- a command that is known to fail is withheld
    | some reason =>
      { lane with notServable := some reason, state := .notServable, invoke := none }
    | none => lane

/-- The part of a lane that a `relay` rung fills in. -/
def addRelayInvocation (lane : DispatchLane) (rung : LadderRung) (setting : DispatchSetting)
    (opts : DispatchOptions) (platform : Platform) : DispatchLane :=
  match relaySpec rung with
  | none => lane
  | some spec =>
    let lane := { lane with spec := some spec }
    if opts.requestedByMcp && setting.reachableWithoutRelay spec then
      { lane with unreachable := some (mcpPassThroughReason spec) }
    else if canAddressAsSubagent opts.host then
      { lane with requiresDirective := some (!setting.offloadEnabled) }
    else if mustTransposeEveryRung opts.host || !setting.reachableWithoutRelay spec then
      match setting.cliLane with
      | some template =>
        let window := setting.specContextWindow spec
        { lane with
          invoke := some (transposeToCli spec template opts.task platform
            (window.map (·.tokens)))
          transposed := true
          contextWindow := window }
      | none =>
        let who :=
          match opts.entrypoint with
          | some entrypoint => text "this host (" ++ entrypoint ++ text ")"
          | none => text "this host"
        { lane with
          unreachable := some (unreachableReason opts.host who ++ text " " ++ quoted spec
            ++ text " — configure routing.cliLane to reach it by shelling out") }
    else lane

def toLane (rung : LadderRung) (position : Nat) (setting : DispatchSetting)
    (opts : DispatchOptions) (platform : Platform) (launcherPath : Option Text) : DispatchLane :=
  let lane : DispatchLane :=
    { id := rung.id
      kind := rung.kind
      position := position
      state :=
        if rung.enabled = false then .disabled
        else if setting.coolingDown rung then .exhausted
        else .ready }
  let lane := addCliInvocation lane rung setting opts platform
  let lane := addRelayInvocation lane rung setting opts platform
  -- the launcher comes last, around whatever the invocation became
  { lane with
    invoke := lane.invoke.map (wrapForWindowsConsoleSafety · launcherPath platform) }

/-- The task of the caller; a blank one counts as absent. -/
def normalizeTask (task : Option Text) : Option Text :=
  task.filter fun task => decide (Text.trim task ≠ [])

/-- The rung of a spec that the caller names. -/
def modelRung (spec : Text) : LadderRung :=
  { id := text "model:" ++ spec, kind := .relay, enabled := true, spec := some spec }

/-- The rungs of the selected ladder, and the one of a spec that the caller names. -/
def viewRungs (rungs : List LadderRung) (opts : DispatchOptions) : List LadderRung :=
  rungs ++ (opts.model.map modelRung).toList

/-- The lanes of the view that `buildDispatch` returns. -/
def buildDispatch (setting : DispatchSetting) (rungs : List LadderRung)
    (rawOpts : DispatchOptions) (platform : Platform) (launcherPath : Option Text) :
    List DispatchLane :=
  let opts := { rawOpts with task := normalizeTask rawOpts.task }
  (viewRungs rungs opts).mapIdx fun i rung =>
    toLane rung (i + 1) setting opts platform launcherPath

end LlmRelay.Dispatch
