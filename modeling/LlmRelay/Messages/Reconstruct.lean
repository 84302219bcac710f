import LlmRelay.Messages.Emit

/-!
# Messages read back from a stream

`reconstructFromSse` (`sse.ts`) folds the events of an SSE stream into an assistant message, as the
tool-call validator inspects it.

## Main definitions

* `iterateDataPayloads`: the `data:` payloads of the frames;
* `BlockAccumulator`, `Reconstruction`: a block that is being read, and the whole message;
* `foldEvent`: one event; it fails where the source throws a `TypeError`;
* `reconstructFromSse`: the message.
-/

namespace LlmRelay

open Ecma

/-! ## Payloads -/

/-- The pieces of `raw.split(/\r?\n\r?\n/)`; `piece` is the one that is being read, and the next
code units are skipped as long as they belong to a separator. -/
def splitFramesFrom : Nat → Text → Text → List Text
  | _, piece, [] => [piece]
  | 0, piece, c :: t =>
    match separator? (c :: t) with
    | some (separator, _) => piece :: splitFramesFrom (separator.length - 1) [] t
    | none => splitFramesFrom 0 (piece ++ [c]) t
  | skip + 1, piece, _ :: t => splitFramesFrom skip piece t

/-- `raw.split(/\r?\n\r?\n/)`. -/
def splitFrames (raw : Text) : List Text :=
  splitFramesFrom 0 [] raw

/-- The `data:` lines of a frame, joined. -/
def dataPayload? (frame : Text) : Option Text :=
  let dataLines := (frame.splitLines.filter fun line => Text.startsWith line (text "data:")).map
    fun line => Text.trimStart (line.drop 5)
  if dataLines = [] then none else some (Text.join [lf] dataLines)

/-- Each `data:` payload of a stream. -/
def iterateDataPayloads (raw : Text) : List Text :=
  (splitFrames raw).filterMap dataPayload?

/-! ## Objects -/

/-- `in` is defined for objects and arrays; it throws for any other value. -/
def allowsIn : Json → Bool
  | .obj _ | .arr _ => true
  | _ => false

/-- The own properties that a spread copies. -/
def spreadFields : Option Json → List (Text × Json)
  | some (.obj fields) => fields
  | some (.arr items) => items.zipIdx.map fun p => (Number.natText p.2, p.1)
  | some (.str s) => s.zipIdx.map fun p => (Number.natText p.2, .str [p.1])
  | _ => []

/-- `{ ...fields, ...more }`. -/
def spreadInto (fields more : List (Text × Json)) : List (Text × Json) :=
  more.foldl (fun acc p => setProperty acc p.1 p.2) fields

/-! ## Blocks -/

/-- A block that is being read. -/
structure BlockAccumulator where
  type : Text
  text : Text
  partialJson : Text
  thinking : Text
  signature : Text
  id : Option Text
  name : Option Text
  seedInput : Option Json
  /-- The whole payload of the start event. -/
  seed : Json

/-- The block that a start event opens. -/
def BlockAccumulator.ofSeed (cb : Json) : BlockAccumulator where
  type := (Json.string? (cb.get? (Ecma.text "type"))).getD (Ecma.text "unknown")
  text := []
  partialJson := []
  thinking := (Json.string? (cb.get? (Ecma.text "thinking"))).getD []
  signature := (Json.string? (cb.get? (Ecma.text "signature"))).getD []
  id := Json.string? (cb.get? (Ecma.text "id"))
  name := Json.string? (cb.get? (Ecma.text "name"))
  seedInput := cb.get? (Ecma.text "input")
  seed := cb

/-- A delta of the block; any other kind of delta is dropped. -/
def BlockAccumulator.addDelta (acc : BlockAccumulator) (delta : Json) : BlockAccumulator :=
  let type := Json.string? (delta.get? (Ecma.text "type"))
  let field (key : Text) : Text := (Json.string? (delta.get? key)).getD []
  if type = some (Ecma.text "text_delta") then
    { acc with text := acc.text ++ field (Ecma.text "text") }
  else if type = some (Ecma.text "input_json_delta") then
    { acc with partialJson := acc.partialJson ++ field (Ecma.text "partial_json") }
  else if type = some (Ecma.text "thinking_delta") then
    { acc with thinking := acc.thinking ++ field (Ecma.text "thinking") }
  else if type = some (Ecma.text "signature_delta") then
    { acc with signature := acc.signature ++ field (Ecma.text "signature") }
  else acc

/-- The input of a tool call; text that is no JSON is kept as it is. -/
def BlockAccumulator.input (acc : BlockAccumulator) : Json :=
  if acc.partialJson = [] then orElse acc.seedInput (.obj [])
  else (Json.parse acc.partialJson).getD (.str acc.partialJson)

/-- An opaque block: every field of the start event, and what the deltas accumulated. -/
def BlockAccumulator.opaqueFields (acc : BlockAccumulator) : List (Text × Json) :=
  let rest := (spreadFields (some acc.seed)).filter fun p => p.1 ≠ Ecma.text "type"
  let block := spreadInto [(Ecma.text "type", .str acc.type)] rest
  let block := if acc.thinking = [] then block
    else setProperty block (Ecma.text "thinking") (.str acc.thinking)
  if acc.signature = [] then block
  else setProperty block (Ecma.text "signature") (.str acc.signature)

/-- The content block. -/
def finalizeBlock (acc : BlockAccumulator) : Json :=
  if acc.type = text "text" then
    .obj [(text "type", .str (text "text")), (text "text", .str acc.text)]
  else if acc.type = text "tool_use" then
    .obj [(text "type", .str (text "tool_use")), (text "id", .str (acc.id.getD [])),
      (text "name", .str (acc.name.getD [])), (text "input", acc.input)]
  else .obj acc.opaqueFields

/-! ## Messages -/

/-- A message that is being read. -/
structure Reconstruction where
  blocks : OrderedMap Number BlockAccumulator
  stopReason : Json
  stopSequence : Option Json
  usage : Option Json
  id : Option Text
  model : Option Text

/-- Before the first event. -/
def Reconstruction.new : Reconstruction :=
  ⟨.empty, .null, none, none, none, none⟩

/-- A string that is not empty. -/
def nonEmpty? (v : Option Json) : Option Text :=
  (Json.string? v).filter fun s => s != []

/-- `numberOr(evt.index, -1)`. -/
def eventIndex (evt : Json) : Number :=
  ((Json.number? (evt.get? (text "index"))).filter Number.isFinite).getD (.fin (-1))

namespace Reconstruction

/-- `message_start`: the identity of the message, and its usage. -/
def messageStart (r : Reconstruction) (evt : Json) : Reconstruction :=
  let field (key : Text) : Option Json := (evt.get? (text "message")).bind (·.get? key)
  let usage := field (text "usage")
  { r with
    id := (nonEmpty? (field (text "id"))).or r.id
    model := (nonEmpty? (field (text "model"))).or r.model
    usage := if Json.truthy usage then some (.obj (spreadInto [] (spreadFields usage)))
      else r.usage }

/-- `content_block_start`. -/
def contentBlockStart (r : Reconstruction) (evt : Json) : Option Reconstruction :=
  let cb := orElse (evt.get? (text "content_block")) (.obj [])
  if allowsIn cb then some { r with blocks := r.blocks.set (eventIndex evt) (.ofSeed cb) }
  else none

/-- `content_block_delta`: a delta of a block that was not opened is dropped. -/
def contentBlockDelta (r : Reconstruction) (evt : Json) : Reconstruction :=
  let delta := orElse (evt.get? (text "delta")) (.obj [])
  match r.blocks.get? (eventIndex evt) with
  | none => r
  | some acc => { r with blocks := r.blocks.set (eventIndex evt) (acc.addDelta delta) }

/-- `message_delta`: how the message ends, and its final usage. -/
def messageDelta (r : Reconstruction) (evt : Json) : Option Reconstruction :=
  let delta := (evt.get? (text "delta")).filter fun v => Json.truthy (some v)
  let usage := evt.get? (text "usage")
  if delta.all allowsIn then
    some { r with
      stopReason := orElse (delta.bind (·.get? (text "stop_reason"))) r.stopReason
      stopSequence := (delta.bind (·.get? (text "stop_sequence"))).or r.stopSequence
      usage := if Json.truthy usage then
          some (.obj (spreadInto (spreadInto [] (spreadFields r.usage)) (spreadFields usage)))
        else r.usage }
  else none

end Reconstruction

/-- One event; it is none where the source throws. -/
def foldEvent (r : Reconstruction) (evt : Json) : Option Reconstruction :=
  let type := Json.string? (evt.get? (text "type"))
  if type = some (text "message_start") then some (r.messageStart evt)
  else if type = some (text "content_block_start") then r.contentBlockStart evt
  else if type = some (text "content_block_delta") then some (r.contentBlockDelta evt)
  else if type = some (text "message_delta") then r.messageDelta evt
  else some r

/-- The message, its blocks in the order of their indices. -/
def Reconstruction.message (r : Reconstruction) : AssistantMessage where
  id := r.id
  model := r.model
  content := (r.blocks.entries.mergeSort fun a b => Number.le a.1 b.1).map fun p =>
    finalizeBlock p.2
  stopReason := r.stopReason
  stopSequence := r.stopSequence
  usage := r.usage

/-- One payload; one that is no JSON is passed over. -/
def foldPayload (r : Reconstruction) (data : Text) : Option Reconstruction :=
  match Json.parse data with
  | some evt => foldEvent r evt
  | none => some r

/-- The message of a stream. -/
def reconstructFromSse (raw : Text) : Option AssistantMessage :=
  ((iterateDataPayloads raw).foldlM foldPayload .new).map Reconstruction.message

end LlmRelay
