import LlmRelay.Streams.SseEvents

/-!
# Assistant messages and their streams

The Anthropic message shape the proxy works on (`anthropic.ts`) and its
serialization as an SSE stream (`emitSse.ts`).

## Main definitions

* `AssistantMessage`: the message; content blocks are JSON values;
* `blockEvents`: the events of one content block;
* `emitSse`, `emitSseTail`: the whole stream, and its trailing blocks only.
-/

namespace LlmRelay

open Ecma

/-- An assistant message. An absent field means that the source stated none. -/
structure AssistantMessage where
  id : Option Text
  model : Option Text
  content : List Json
  stopReason : Json
  stopSequence : Option Json
  usage : Option Json

/-- A generated event: its type, and its other fields. -/
structure Emission where
  type : Text
  data : List (Text × Json)

/-- The text of an emission. -/
def Emission.encode (e : Emission) : Text :=
  sseEvent e.type e.data

/-- `block.type === "tool_use"`. -/
def isToolUseBlock (block : Json) : Bool :=
  Json.string? (block.get? (text "type")) == some (text "tool_use")

/-- The field when it is a number. -/
def numberField (v : Option Json) (key : Text) : List (Text × Json) :=
  match Json.number? (v.bind (·.get? key)) with
  | some x => [(key, .num x)]
  | none => []

/-- The `usage` of `message_start`: only what the backend reported. -/
def startUsage (msg : AssistantMessage) : List (Text × Json) :=
  numberField msg.usage (text "input_tokens")
    ++ numberField msg.usage (text "cache_creation_input_tokens")
    ++ numberField msg.usage (text "cache_read_input_tokens")
    ++ if Json.truthy msg.usage then [(text "output_tokens", .num 0)] else []

/-- `value ?? fallback`. -/
def orElse (value : Option Json) (fallback : Json) : Json :=
  match value with
  | none | some .null => fallback
  | some v => v

/-- The payload of `message_delta`. -/
def endDelta (msg : AssistantMessage) : List (Text × Json) :=
  (text "delta", .obj
      [(text "stop_reason", orElse (some msg.stopReason) (.str (text "end_turn"))),
        (text "stop_sequence", orElse msg.stopSequence .null)])
    :: match numberField msg.usage (text "output_tokens") with
      | [] => []
      | usage => [(text "usage", .obj usage)]

/-- A property of an object literal; an undefined value is left out of the text. -/
def definedField (key : Text) (v : Option Json) : List (Text × Json) :=
  (v.map fun w => (key, w)).toList

/-- A natural number as a JSON value. -/
def natJson (n : Nat) : Json :=
  .num (.fin n)

/-- The events of a content block: a tool call states its whole input in one
fragment, and an opaque block is echoed on its start event. -/
def blockEvents (block : Json) (index : Nat) : List Emission :=
  let indexField := (text "index", natJson index)
  let start (content : Json) : Emission :=
    ⟨text "content_block_start", [indexField, (text "content_block", content)]⟩
  let delta (fields : List (Text × Json)) : Emission :=
    ⟨text "content_block_delta", [indexField, (text "delta", .obj fields)]⟩
  let stop : Emission := ⟨text "content_block_stop", [indexField]⟩
  if isToolUseBlock block then
    let json := (orElse (block.get? (text "input")) (.obj [])).stringify
    [ start (.obj ([(text "type", .str (text "tool_use"))]
        ++ definedField (text "id") (block.get? (text "id"))
        ++ definedField (text "name") (block.get? (text "name"))
        ++ [(text "input", .obj [])])),
      delta [(text "type", .str (text "input_json_delta")), (text "partial_json", .str json)],
      stop ]
  else if Json.string? (block.get? (text "type")) = some (text "text") then
    [ start (.obj [(text "type", .str (text "text")), (text "text", .str [])]),
      delta ((text "type", .str (text "text_delta"))
        :: definedField (text "text") (block.get? (text "text"))),
      stop ]
  else [start block, stop]

/-- The blocks from `startIndex` on, each at its own index. -/
def blocksFrom (startIndex : Number) (blocks : List Json) : List Emission :=
  blocks.zipIdx.flatMap fun p =>
    if Number.lt (.fin p.2) startIndex then [] else blockEvents p.1 p.2

/-- The end of a message. -/
def terminators (msg : AssistantMessage) : List Emission :=
  [⟨text "message_delta", endDelta msg⟩, ⟨text "message_stop", []⟩]

/-- The stream of a whole message; `syntheticId` stands in for a missing id. -/
def emitSse (syntheticId : Text) (msg : AssistantMessage) : List Emission :=
  ⟨text "message_start",
      [(text "message", .obj
        [(text "id", .str (msg.id.getD syntheticId)), (text "type", .str (text "message")),
          (text "role", .str (text "assistant")), (text "model", .str (msg.model.getD [])),
          (text "content", .arr []), (text "stop_reason", .null), (text "stop_sequence", .null),
          (text "usage", .obj (startUsage msg))])]⟩
    :: blocksFrom 0 msg.content ++ terminators msg

/-- The trailing blocks and the end of a message. -/
def emitSseTail (msg : AssistantMessage) (startIndex : Number) : List Emission :=
  blocksFrom startIndex msg.content ++ terminators msg

/-- The text of a list of emissions. -/
def encodeAll (es : List Emission) : Text :=
  es.flatMap Emission.encode

end LlmRelay
