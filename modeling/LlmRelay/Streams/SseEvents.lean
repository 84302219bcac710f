import LlmRelay.Ecma.Json
import LlmRelay.Streams.SseFrames

/-!
# Parsed SSE events

How the stream wrappers read one frame, and how they write one (`sse-frames.ts`,
`openai-dialect.ts`, `dialect-stream.ts`).

## Main definitions

* `SseEvent`, `parseSseEvent`: the Anthropic-shaped parse;
* `ChatEvent`, `parseChatEvent`: the parse of the OpenAI chat wrapper;
* `sseEvent`, `encodeEvent`: the texts of generated events.
-/

namespace LlmRelay

open Ecma

/-- An event as the Anthropic-shaped wrappers read it; a body that is no JSON has
no data. -/
structure SseEvent where
  type : Text
  data : Option Json
  deriving DecidableEq

/-- The Anthropic-shaped parse: the last `event:` line wins, and a blank block is
declined. -/
def parseSseEvent (block : Text) : Option SseEvent :=
  if block.trim = [] then none
  else
    let fields := sseEventFields block
    let type := (fields.eventLines.getLast?.map Text.trim).getD []
    if fields.dataLines = [] then some ⟨type, none⟩
    else some ⟨type, Json.parse (Text.join [lf] (fields.dataLines.map Text.trim))⟩

/-- `ev.data?.[key]`. -/
def SseEvent.get? (ev : SseEvent) (key : Text) : Option Json :=
  ev.data.bind (·.get? key)

/-- The text of a text delta. -/
def SseEvent.textDelta? (ev : SseEvent) : Option Text :=
  match ev.get? (text "delta") with
  | none => none
  | some delta =>
    if Json.string? (delta.get? (text "type")) = some (text "text_delta") then
      Json.string? (delta.get? (text "text"))
    else none

/-- The name and the data of an event: the first `event:` line, and the `data:`
lines without one leading space each. -/
def eventNameAndData (event : Text) : Text × Text :=
  let fields := sseEventFields event
  let stripSpace (line : Text) : Text := if line.head? = some space then line.tail else line
  ((fields.eventLines.head?.map Text.trim).getD [],
    (Text.join [lf] (fields.dataLines.map stripSpace)).trim)

/-- The data of an event of the chat wrapper. -/
inductive ChatData where
  | none
  | done
  | record (value : Json)
  deriving DecidableEq

/-- An event as the chat wrapper reads it. -/
structure ChatEvent where
  raw : Text
  eventName : Text
  data : ChatData
  deriving DecidableEq

/-- The parse of the chat wrapper. -/
def parseChatEvent (raw : Text) : ChatEvent :=
  let eventName := (eventNameAndData raw).1
  let data := (eventNameAndData raw).2
  if data = [] then ⟨raw, eventName, .none⟩
  else if data = text "[DONE]" then ⟨raw, eventName, .done⟩
  else
    match Json.record? (Json.parse data) with
    | some parsed => ⟨raw, eventName, .record parsed⟩
    | none => ⟨raw, eventName, .none⟩

/-! ## Generated events -/

/-- ``event: ${type}\ndata: ${JSON.stringify({ type, ...data })}\n\n``. -/
def sseEvent (type : Text) (data : List (Text × Json)) : Text :=
  text "event: " ++ type ++ text "\ndata: "
    ++ (Json.obj ((text "type", .str type) :: data)).stringify ++ text "\n\n"

/-- The text of a generated chat event. -/
def encodeEvent (eventName : Text) (data : Option Json) : Text :=
  let start := if eventName = [] then [] else text "event: " ++ eventName ++ text "\n"
  start ++ text "data: " ++ ((data.map Json.stringify).getD (text "[DONE]")) ++ text "\n\n"

end LlmRelay
