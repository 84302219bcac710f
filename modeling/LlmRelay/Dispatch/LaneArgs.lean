import LlmRelay.Config.RoutingParser
import LlmRelay.Ecma.Placeholders

/-!
# The arguments of a lane

A `cli` rung names a command and its arguments. What the command's own tool is known to serve
is in a manifest (`lane-manifest.ts`), and the arguments that the tool rejects are removed from
a rendered lane (`dispatch.ts`).

## Main definitions

* `LaneManifest`, `verifyModel`, `unsupportedArgValues`: the evidence;
* `rungModel`, `rungArgValues`, `unsupportedRungArgs`: what a rung passes, and what of it is
  rejected;
* `stripArgs`: the arguments without what is rejected.
-/

namespace LlmRelay.Dispatch

open Ecma Config

/-! ## Names of commands -/

def backslash : CodeUnit := 0x5C

def equalsSign : CodeUnit := 0x3D

/-- `toLowerCase`, as far as the names of commands see it. -/
def lowerCase (t : Text) : Text :=
  t.map fun c => if 0x41 ≤ c ∧ c ≤ 0x5A then c + 0x20 else c

/-- `path.split(/[\\/]/).pop()`. -/
def baseName (path : Text) : Text :=
  (path.reverse.takeWhile fun c => c ≠ slash && c ≠ backslash).reverse

/-- `name.replace(/\.(exe|cmd|bat)$/, "")`. -/
def withoutExecutableSuffix (name : Text) : Text :=
  if name.endsWith (text ".exe") || name.endsWith (text ".cmd") || name.endsWith (text ".bat") then
    name.take (name.length - 4)
  else name

def laneOfCommand (command : Text) : Option Text :=
  let base := withoutExecutableSuffix (lowerCase (baseName command))
  if base = text "agy" then some (text "agy")
  else if base = text "codex" then some (text "codex")
  else none

/-- The harness that the command is, or else one of its arguments. -/
def laneOfRung (command : Text) (args : List Text) : Option Text :=
  (laneOfCommand command).or (args.findSome? laneOfCommand)

/-! ## The manifest -/

structure LaneModel where
  id : Text
  supports : Option (OrderedMap Text (List Text))

/-- What a tool reported; `probedMs` is `Date.parse(entry.probedAt)`. -/
structure LaneEntry where
  via : Text
  probedAt : Text
  probedMs : Option Int
  models : List LaneModel
  rejectedArgs : Option (OrderedMap Text (List Text))

abbrev LaneManifest := OrderedMap Text LaneEntry

def LANE_ROSTER_TTL_MS : Int := 7 * 24 * 60 * 60 * 1000

def rosterIsStale (entry : LaneEntry) (now : Int) : Bool :=
  match entry.probedMs with
  | none => true
  | some probed => decide (LANE_ROSTER_TTL_MS < now - probed)

inductive ModelVerdict where
  | unknown (reason : Text)
  | servable
  | notServable (reason : Text)

def quoted (t : Text) : Text := text "\"" ++ t ++ text "\""

def verifyModel (manifest : Option LaneManifest) (command model : Text) (args : List Text)
    (now : Int) : ModelVerdict :=
  match laneOfRung command args with
  | none => .unknown (text "command is not a lane this relay can probe")
  | some lane =>
    match manifest.bind (·.get? lane) with
    | none => .unknown (text "lane " ++ quoted lane ++ text " has never been probed")
    | some entry =>
      if entry.models.isEmpty then
        .unknown (text "lane " ++ quoted lane ++ text " probed but returned no roster")
      else if entry.models.any (·.id == model) then .servable
      else if rosterIsStale entry now then
        .unknown (text "lane " ++ quoted lane ++ text "'s roster is stale (probed "
          ++ entry.probedAt
          ++ text ") — treated as unprobed; run `llm-relay lanes --probe`")
      else
        .notServable (quoted model ++ text " is not in " ++ lane
          ++ text "'s roster (probed " ++ entry.probedAt ++ text " via `" ++ entry.via
          ++ text "`)")

/-- Why the tool is known to reject a value of an argument. -/
def unsupportedArgValues (manifest : Option LaneManifest) (command model arg value : Text)
    (args : List Text) (now : Int) : Option Text := do
  let lane ← laneOfRung command args
  let entry ← manifest.bind (·.get? lane)
  let rejected := entry.rejectedArgs.bind (·.get? model)
  if (rejected.getD []).contains arg then
    return lane ++ text " rejects " ++ quoted arg ++ text " for " ++ quoted model
      ++ text " (observed)"
  if rosterIsStale entry now then none
  let row ← entry.models.find? (·.id == model)
  let stated ← row.supports.bind (·.get? arg)
  if stated.contains value then none
  return lane ++ text " states " ++ quoted model ++ text " supports " ++ arg ++ text ": "
    ++ Text.join (text ",") stated ++ text " (not " ++ quoted value ++ text ")"

/-! ## What a rung passes -/

/-- A text before its first `=`. -/
def beforeEquals (a : Text) : Text :=
  a.takeWhile (· ≠ equalsSign)

/-- The value of `--model`. -/
def rungModel (args : List Text) : Option Text :=
  match args.dropWhile (· ≠ text "--model") with
  | _ :: model :: _ => some model
  | _ =>
    (args.find? (·.startsWith (text "--model="))).map
      (·.drop (text "--model=").length)

structure ArgValue where
  arg : Text
  value : Text

/-- The arguments with their values, in the forms `--flag value` and `key=value`. -/
def rungArgValues : List Text → List ArgValue
  | [] => []
  | a :: rest =>
    if a.startsWith (text "--") && !a.contains equalsSign then
      match rest with
      | [] => []
      | v :: _ =>
        if v.startsWith (text "--") then rungArgValues rest
        else { arg := a, value := v } :: rungArgValues rest
    else if a.contains equalsSign && !a.startsWith (text "--") then
      if beforeEquals a = [] then rungArgValues rest
      else
        { arg := beforeEquals a, value := a.drop ((beforeEquals a).length + 1) }
          :: rungArgValues rest
    else rungArgValues rest

/-- An argument that is dropped, with the reason. -/
structure DroppedArg where
  arg : Text
  reason : Text

def unsupportedRungArgs (command : Text) (args : List Text) (manifest : Option LaneManifest)
    (now : Int) : List DroppedArg :=
  match rungModel args with
  | none | some [] => []
  | some model =>
    (rungArgValues args).filterMap fun { arg, value } =>
      if arg = text "--model" then none
      else
        (unsupportedArgValues manifest command model arg value args now).map
          fun reason => { arg := arg, reason := reason }

/-- Why the rung's model is not served. -/
def notServableReason (command : Text) (args : List Text) (manifest : Option LaneManifest)
    (now : Int) : Option Text :=
  match rungModel args with
  | none | some [] => none
  | some model =>
    match verifyModel manifest command model args now with
    | .notServable reason => some reason
    | _ => none

/-! ## Removing arguments -/

def configFlag : Text := text "--config"

/-- A token `key=value` with a dropped key. -/
def isDroppedPair (drop : List Text) (a : Text) : Bool :=
  a.contains equalsSign && decide (beforeEquals a ≠ []) && drop.contains (beforeEquals a)

/-- The loop of `stripArgs`; with `skip` the next argument is the value of a dropped flag. -/
def stripFrom (drop : List Text) : Bool → List Text → List Text → List Text
  | _, out, [] => out
  | true, out, _ :: rest => stripFrom drop false out rest
  | false, out, a :: rest =>
    if drop.contains a then stripFrom drop true out rest
    else if isDroppedPair drop a then
      -- `--config key=value`: the preceding flag goes with it
      stripFrom drop false (if out.getLast? = some configFlag then out.dropLast else out) rest
    else stripFrom drop false (out ++ [a]) rest

/-- The arguments without the pairs `--flag value` and the tokens `key=value` that are dropped. -/
def stripArgs (args drop : List Text) : List Text :=
  stripFrom drop false [] args

end LlmRelay.Dispatch
