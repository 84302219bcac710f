import LlmRelay.Dialects.Markers
import LlmRelay.Ecma.Json
import LlmRelay.Ecma.Regex

/-!
# Recovering tool calls from text

The parsers of the tool-call dialects (`tool-dialects.ts`). Each parser scans the
text with its expression, and answers the calls it is willing to commit and
every name it recognised; the destructive check runs over the names.

## Main definitions

* `invokeRegex`, `deepSeekRegex`, `kimiRegex`, `toolCallRegex`, `functionRegex`:
  the framing of the dialects;
* `fromInvokeForm`, `fromDeepSeekForm`, `fromKimiTokenForm`, `fromTaggedJsonForms`:
  the parsers;
* `stripEnvelopes`: the prose that survives;
* `recoverToolCalls`: the outcome of a text.
-/

namespace LlmRelay

open Ecma

/-! ## Coercion -/

/-- The declared parameter types of the tools, by name. -/
abbrev ToolSchemas := Text → Option Json

/-- The declared type of a schema, or the first of several. -/
def schemaType (schema : Option Json) : Option Text :=
  match schema.bind (·.get? (text "type")) with
  | some (.arr (first :: _)) => Json.string? (some first)
  | t => Json.string? t

/-- Coerces a stringly-typed parameter to its declared type. -/
def coerce (raw : Text) (schema : Option Json) : Json :=
  let s := raw.trim
  let t := schemaType schema
  if t = some (text "number") ∨ t = some (text "integer") then
    if (Number.ofText s).isFinite then .num (Number.ofText s) else .str raw
  else if t = some (text "boolean") then
    if s = text "true" then .bool true else if s = text "false" then .bool false else .str raw
  else if t = some (text "object") ∨ t = some (text "array") then
    (Json.parse s).getD (.str raw)
  else .str raw

/-- `input[key] = value` on an object literal, where `__proto__` is no own
property. -/
def assignProperty (fields : List (Text × Json)) (key : Text) (v : Json) : List (Text × Json) :=
  if key = text "__proto__" then fields else setProperty fields key v

/-! ## Calls -/

/-- A recovered call. -/
structure DialectToolCall where
  name : Text
  input : Json

/-- What one parser found: the calls it commits, and every name it recognised. -/
structure DialectScan where
  calls : List DialectToolCall
  names : List Text

/-- The object a payload denotes. -/
def objectPayload? (payload : Text) : Option Json :=
  Json.record? (Json.parse payload.trim)

/-- The first of some keys whose value is neither missing nor null. -/
def firstPresent (v : Json) : List Text → Option Json
  | [] => none
  | key :: keys =>
    match v.get? key with
    | none | some .null => firstPresent v keys
    | some w => some w

/-- The name a JSON payload states. -/
def payloadName? (raw : Text) : Option Text :=
  ((Json.record? (Json.parse raw.trim)).bind fun j => Json.string? (j.get? (text "name"))).filter
    fun name => name != []

/-- `{"name": "x", "arguments": {...}}`: the payload shared by several dialects. -/
def fromJsonPayload (raw : Text) : Option DialectToolCall :=
  match Json.record? (Json.parse raw.trim) with
  | none => none
  | some j =>
    match Json.string? (j.get? (text "name")) with
    | none => none
    | some name =>
      if name = [] then none
      else
        let args := (firstPresent j [text "arguments", text "parameters", text "input"]).getD
          (.obj [])
        match args with
        | .str s => (Json.record? (Json.parse s)).map fun input => ⟨name, input⟩
        | .obj fields => some ⟨name, .obj fields⟩
        | _ => none

/-! ## The framing of the dialects -/

namespace DialectRegex

open Regex

/-- `｜DSML｜`, optional. -/
def dsml : Regex :=
  opt (lit (text "｜DSML｜"))

/-- `[^"]+` as a group. -/
def quoted : Regex :=
  group (plus (· != 0x22))

/-- `<(?:｜DSML｜)?TAG\s+name="([^"]+)"\s*>([\s\S]*?)<\/(?:｜DSML｜)?TAG>`. -/
def named (tag : Text) : Regex :=
  .seq (lit (text "<")) <| .seq dsml <| .seq (lit tag) <| .seq (plus isWhitespace) <|
    .seq (lit (text "name=\"")) <| .seq quoted <| .seq (lit (text "\"")) <| .seq spaces <|
    .seq (lit (text ">")) <| .seq (group lazyAny) <| .seq (lit (text "</")) <| .seq dsml <|
    lit (tag ++ text ">")

/-- An invoke block. -/
def invoke : Regex :=
  named (text "invoke")

/-- A parameter of an invoke block. -/
def param : Regex :=
  named (text "parameter")

/-- `<｜tool▁sep｜>([^\n<]+)\n+(?:```(?:json)?\n)?([\s\S]*?)(?:\n?```)?\s*<｜tool▁call▁end｜>`. -/
def deepSeek : Regex :=
  let newline := lit (text "\n")
  let fence := lit (text "```")
  .seq (lit (text "<｜tool▁sep｜>")) <| .seq (group (plus fun c => c != lf && c != 0x3C)) <|
    .seq (plus (· == lf)) <| .seq (opt (.seq fence (.seq (opt (lit (text "json"))) newline))) <|
    .seq (group lazyAny) <| .seq (opt (.seq (opt newline) fence)) <| .seq spaces <|
    lit (text "<｜tool▁call▁end｜>")

/-- A call of the ASCII token family: an id token and a payload. -/
def kimi : Regex :=
  .seq (lit (text "<|tool_call_begin|>")) <| .seq spaces <| .seq (group lazyAny) <| .seq spaces <|
    .seq (lit (text "<|tool_call_argument_begin|>")) <| .seq spaces <| .seq (group lazyAny) <|
    .seq spaces <| lit (text "<|tool_call_end|>")

/-- `functions\.([A-Za-z0-9_.-]+):\d+`. -/
def kimiName : Regex :=
  let isNameUnit (c : CodeUnit) : Bool :=
    isDigit c || (decide (0x41 ≤ c) && decide (c ≤ 0x5A)) || (decide (0x61 ≤ c) && decide (c ≤ 0x7A))
      || c == 0x5F || c == 0x2E || c == 0x2D
  .seq (lit (text "functions.")) <| .seq (group (plus isNameUnit)) <| .seq (lit (text ":")) <|
    plus isDigit

/-- `<tool_call>([\s\S]*?)<\/tool_call>`. -/
def toolCall : Regex :=
  .seq (lit (text "<tool_call>")) <| .seq (group lazyAny) <| lit (text "</tool_call>")

/-- `<function=([^>]+)>([\s\S]*?)<\/function>`. -/
def function : Regex :=
  .seq (lit (text "<function=")) <| .seq (group (plus (· != 0x3E))) <| .seq (lit (text ">")) <|
    .seq (group lazyAny) <| lit (text "</function>")

/-- `OPEN[\s\S]*?CLOSE`. -/
def between (start : Regex) (close : Regex) : Regex :=
  .seq start (.seq lazyAny close)

end DialectRegex

/-! ## The parsers -/

/-- The arguments of an invoke block, added to `input`. -/
def invokeInput (schema : Option Json) (input : List (Text × Json)) :
    List Regex.Match → List (Text × Json)
  | [] => input
  | p :: rest =>
    let key := p.get 0
    if key = [] then invokeInput schema input rest
    else
      let declared := (schema.bind (·.get? (text "properties"))).bind (·.get? key)
      invokeInput schema (assignProperty input key (coerce (p.get 1) declared)) rest

/-- The loop of `fromInvokeForm`. -/
def invokeScan (schemas : ToolSchemas) (found : DialectScan) : List Regex.Match → DialectScan
  | [] => found
  | m :: rest =>
    let name := m.get 0
    if name = [] then invokeScan schemas found rest
    else
      let input := invokeInput (schemas name) [] (DialectRegex.param.matchAll (m.get 1))
      invokeScan schemas ⟨found.calls ++ [⟨name, .obj input⟩], found.names ++ [name]⟩ rest

/-- `<invoke name="x"><parameter name="p">v</parameter></invoke>`, with or without
DSML markers. -/
def fromInvokeForm (t : Text) (schemas : ToolSchemas) : DialectScan :=
  invokeScan schemas ⟨[], []⟩ (DialectRegex.invoke.matchAll t)

/-- The loop of `fromDeepSeekForm`. -/
def deepSeekScan (found : DialectScan) : List Regex.Match → DialectScan
  | [] => found
  | m :: rest =>
    if m.get 0 = [] then deepSeekScan found rest
    else
      let name := (m.get 0).trim
      let names := found.names ++ [name]
      match objectPayload? (m.get 1) with
      | some input => deepSeekScan ⟨found.calls ++ [⟨name, input⟩], names⟩ rest
      -- the whole contribution is discarded, and the scan stops here
      | none => ⟨[], names⟩

/-- The native DeepSeek form. -/
def fromDeepSeekForm (t : Text) : DialectScan :=
  deepSeekScan ⟨[], []⟩ (DialectRegex.deepSeek.matchAll t)

/-- The function name in an id token. -/
def kimiName? (idToken : Text) : Option Text :=
  (DialectRegex.kimiName.fullMatch idToken.trim).map (·.get 0)

/-- The loop of `fromKimiTokenForm`. -/
def kimiScan (found : DialectScan) : List Regex.Match → DialectScan
  | [] => found
  | m :: rest =>
    if m.get 0 = [] then kimiScan found rest
    else
      match kimiName? (m.get 0) with
      | none => ⟨[], found.names⟩
      | some name =>
        let names := found.names ++ [name]
        match objectPayload? (m.get 1) with
        | some input => kimiScan ⟨found.calls ++ [⟨name, input⟩], names⟩ rest
        | none => ⟨[], names⟩

/-- The ASCII token blocks. -/
def fromKimiTokenForm (t : Text) : DialectScan :=
  kimiScan ⟨[], []⟩ (DialectRegex.kimi.matchAll t)

/-- The first loop of `fromTaggedJsonForms`. -/
def toolCallScan (found : DialectScan) : List Regex.Match → DialectScan
  | [] => found
  | m :: rest =>
    match fromJsonPayload (m.get 0) with
    | some c => toolCallScan ⟨found.calls ++ [c], found.names ++ [c.name]⟩ rest
    | none => toolCallScan found rest

/-- The second loop of `fromTaggedJsonForms`. -/
def functionScan (found : DialectScan) : List Regex.Match → DialectScan
  | [] => found
  | m :: rest =>
    if m.get 0 = [] then functionScan found rest
    else
      let name := (m.get 0).trim
      let names := found.names ++ [name]
      match Json.parse (m.get 1).trim with
      | none => functionScan ⟨found.calls, names⟩ rest
      | some (.obj fields) => functionScan ⟨found.calls ++ [⟨name, .obj fields⟩], names⟩ rest
      | some (.arr items) => functionScan ⟨found.calls ++ [⟨name, .arr items⟩], names⟩ rest
      | some _ => functionScan ⟨found.calls ++ [⟨name, .obj []⟩], names⟩ rest

/-- `<tool_call>{json}</tool_call>` and `<function=NAME>{json}</function>`. -/
def fromTaggedJsonForms (t : Text) : DialectScan :=
  functionScan (toolCallScan ⟨[], []⟩ (DialectRegex.toolCall.matchAll t))
    (DialectRegex.function.matchAll t)

/-! ## The outcome -/

/-- The expressions `stripEnvelopes` removes, in order. -/
def envelopeRegexes : List Regex :=
  let lit (s : String) : Regex := .lit (text s)
  let orStop (r : Regex) : Regex := .alt r .stop
  let dsmlTag (start tag : String) : Regex := .seq (lit start) (.seq DialectRegex.dsml (lit tag))
  let invokeOpen : Regex :=
    .seq (lit "<") <| .seq DialectRegex.dsml <| .seq (lit "invoke") <|
      .seq (Regex.plus isWhitespace) <| .seq (lit "name=\"") <| .seq (.rep true (· != 0x22)) <|
      .seq (lit "\"") <| .seq Regex.spaces (lit ">")
  [ DialectRegex.between (dsmlTag "<" "function_calls>") (dsmlTag "</" "function_calls>"),
    DialectRegex.between (lit "<｜DSML｜tool_calls>") (orStop (lit "</｜DSML｜tool_calls>")),
    DialectRegex.between invokeOpen (dsmlTag "</" "invoke>"),
    DialectRegex.between (lit "<｜tool▁calls▁begin｜>") (orStop (lit "<｜tool▁calls▁end｜>")),
    DialectRegex.between (lit "<|tool_calls_section_begin|>") (orStop (lit "<|tool_calls_section_end|>")),
    DialectRegex.between (lit "<|tool_call_begin|>") (orStop (lit "<|tool_call_end|>")),
    DialectRegex.between (lit "<tool_call>") (lit "</tool_call>"),
    DialectRegex.between (.seq (lit "<function=") (.seq (Regex.plus (· != 0x3E)) (lit ">")))
      (lit "</function>"),
    .seq (lit "<") (.seq (Regex.opt (lit "/")) (lit "think>")) ]

/-- The prose without everything the envelopes occupied. -/
def stripEnvelopes (t : Text) : Text :=
  (envelopeRegexes.foldl (fun t r => r.removeAll t) t).trim

/-- What the relay makes of a text. -/
inductive DialectOutcome where
  | none
  | parsed (calls : List DialectToolCall) (prose : Text) (dialect : Text)
  | detected (dialect : Text)
  | refusedDestructive (dialect : Text) (refused : List Text)

/-- The outcome is the refusal. -/
def DialectOutcome.isRefusal : DialectOutcome → Bool
  | refusedDestructive _ _ => true
  | _ => false

/-- The four scans of a text. -/
def dialectScans (t : Text) (schemas : ToolSchemas) : List DialectScan :=
  [fromInvokeForm t schemas, fromDeepSeekForm t, fromKimiTokenForm t, fromTaggedJsonForms t]

/-- Recovers the tool calls a host failed to parse. -/
def recoverToolCalls (t : Text) (schemas : ToolSchemas) (isDestructive : Text → Bool) :
    DialectOutcome :=
  match detectDialect t with
  | .none => .none
  | some dialect =>
    let scans := dialectScans t schemas
    let refused := ((scans.flatMap (·.names)).filter fun n => n != [] && isDestructive n).eraseDups
    if refused ≠ [] then .refusedDestructive dialect refused
    else
      let calls := (scans.flatMap (·.calls)).filter fun c => c.name != []
      if calls.isEmpty then .detected dialect
      else .parsed calls (stripEnvelopes t) dialect

end LlmRelay
