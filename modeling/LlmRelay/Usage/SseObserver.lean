import LlmRelay.Ecma.Lines
import LlmRelay.Streams.ByteStream
import LlmRelay.Usage.Inspection

/-!
# The observer of an event stream

The observer keeps the text that no line break has ended yet, and the frame under construction.
A frame is bounded: where its lines exceed `MAX_SSE_FRAME` bytes it is not inspected, and an
unfinished line that exceeds the bound is discarded up to its line break.

## Main definitions

* `SseState`, `FrameReader`: the frame under construction, with what was observed so far;
* `inspectSseFrame`, `processSseLine`: the end of a frame, and one line;
* `SseObserver`: the observer between two slices of a chunk;
* `SseObserver.drain`, `SseObserver.push`, `SseObserver.finish`: its operations;
* `observeSse`: what is known of the usage when all chunks of a stream have passed.
-/

namespace LlmRelay

open Ecma

def MAX_SSE_FRAME : Nat := 16 * 1024

def MAX_DECODE_SLICE : Nat := 4096

/-- The frame under construction. -/
structure SseState where
  event : Option Text
  data : List Text
  size : Nat
  overflow : Bool
  deriving DecidableEq, Repr

def newSseState : SseState :=
  ⟨none, [], 0, false⟩

/-- The type of an event, or of its data, that carries usage. -/
def carriesUsage (type : Option Text) : Bool :=
  type = some (text "message_start") || type = some (text "message_delta")

/-- The data of an Anthropic event. -/
def inspectAnthropicFrame (event : Option Text) (value : Json) (o : Observation) : Observation :=
  match asRecord (some value) with
  | none => o
  | some root =>
    let o := inspectAnthropicOutput root o
    if carriesUsage event || carriesUsage (Json.string? (root.get? (text "type"))) then
      inspectUsage .anthropicMessages root o
    else o

def inspectSseFrame (protocol : UsageProtocol) (state : SseState) (o : Observation) :
    Observation :=
  if state.overflow ∨ state.data.length = 0 then o
  else
    let data := Text.join (text "\n") state.data
    if data.trim.length = 0 ∨ data.trim = text "[DONE]" then o
    else
      match Json.parse data, protocol with
      | none, _ => taintOutputEstimate o
      | some value, .anthropicMessages => inspectAnthropicFrame state.event value o
      | some value, .openaiChat => inspectJson .openaiChat true value o

/-- The value of a field, without the space that may precede it. -/
def fieldValue (value : Text) : Text :=
  if value.head? = some space then value.tail else value

/-- A line that is not blank, in a frame that is not over its bound. -/
def SseState.addField (state : SseState) (line : Text) : SseState :=
  if line.startsWith (text "event:") then { state with event := some (fieldValue (line.drop 6)) }
  else if line.startsWith (text "data:") then
    { state with data := state.data ++ [fieldValue (line.drop 5)] }
  else state

/-- The frame under construction and what was observed so far. -/
structure FrameReader where
  state : SseState
  observation : Observation
  deriving DecidableEq

namespace FrameReader

def new : FrameReader :=
  ⟨newSseState, .new⟩

/-- The frame exceeds its bound. -/
def exceed (r : FrameReader) (state : SseState) : FrameReader :=
  ⟨{ state with overflow := true }, taintOutputEstimate r.observation⟩

/-- The bytes of the frame with further text in it. -/
def sizeWith (r : FrameReader) (t : Text) : Nat :=
  r.state.size + (encodeUtf8 t).length

end FrameReader

def processSseLine (protocol : UsageProtocol) (r : FrameReader) (line : Line) : FrameReader :=
  if line.content = [] then
    ⟨newSseState, inspectSseFrame protocol r.state r.observation⟩
  else
    let state := { r.state with size := r.sizeWith line.content + line.terminator }
    if MAX_SSE_FRAME < state.size then r.exceed { state with data := [] }
    else if state.overflow then { r with state := state }
    else { r with state := state.addField line.content }

/-- The end of the stream ends the frame too. -/
def endFrames (protocol : UsageProtocol) (r : FrameReader) : FrameReader :=
  ⟨newSseState, inspectSseFrame protocol r.state r.observation⟩

/-! ## The observer -/

/-- The slices in which a chunk is decoded. -/
def decodeSlices (bytes : Chunk) : List Chunk :=
  if h : bytes = [] then []
  else bytes.take MAX_DECODE_SLICE :: decodeSlices (bytes.drop MAX_DECODE_SLICE)
termination_by bytes.length
decreasing_by
  have hpos := List.length_pos_iff.mpr h
  rw [List.length_drop, MAX_DECODE_SLICE]
  omega

/-- The observer between two slices. The validator is absent once it has thrown: the estimate
is tainted then, and what the validator does with later bytes does not matter. -/
structure SseObserver where
  decoder : Utf8Decoder
  utf8Validator : Option Utf8Decoder
  text : Text
  discardUntilBreak : Bool
  frames : FrameReader
  deriving DecidableEq

namespace SseObserver

def new : SseObserver :=
  ⟨.new, some .new, [], false, .new⟩

def taint (s : SseObserver) : SseObserver :=
  { s with frames := { s.frames with observation := taintOutputEstimate s.frames.observation } }

/-- A line whose break was found: the end of a discarded line, or a line of the frame. -/
def takeLine (protocol : UsageProtocol) (s : SseObserver) (line : Line) (rest : Text) :
    SseObserver :=
  if s.discardUntilBreak then
    { s with text := rest, discardUntilBreak := false }
  else
    { s with text := rest, frames := processSseLine protocol s.frames line }

/-- The loop of `drain`, as long as there are line breaks. -/
def takeLines (protocol : UsageProtocol) (final : Bool) (s : SseObserver) : SseObserver :=
  match h : s.text.nextLine? final with
  | none => s
  | some (line, rest) =>
    have : (s.takeLine protocol line rest).text.length < s.text.length := by
      have hlength := Text.nextLine?_length h
      unfold takeLine
      split <;> exact hlength
    takeLines protocol final (s.takeLine protocol line rest)
termination_by s.text.length

/-- The text that waits for its line break exceeds the bound of the frame. -/
def isOversized (s : SseObserver) : Bool :=
  decide (s.text ≠ []) && decide (MAX_SSE_FRAME < s.frames.sizeWith s.text)

/-- The waiting text is not kept: the rest of its line is discarded. -/
def discardLine (s : SseObserver) : SseObserver :=
  { s with
      text := [], discardUntilBreak := true,
      frames := s.frames.exceed s.frames.state }

/-- The end of the stream. -/
def endText (protocol : UsageProtocol) (s : SseObserver) : SseObserver :=
  let s :=
    if s.text = [] then s
    else if s.frames.sizeWith s.text ≤ MAX_SSE_FRAME then
      { s with text := [], frames := processSseLine protocol s.frames ⟨s.text, 0⟩ }
    else
      { s with text := [], frames := s.frames.exceed s.frames.state }
  { s with frames := endFrames protocol s.frames }

/-- The rest of `drain`, where the text holds no line break. -/
def settle (protocol : UsageProtocol) (final : Bool) (s : SseObserver) : SseObserver :=
  if s.discardUntilBreak then
    -- an oversized line may end in a CR whose LF comes with the next chunk
    { s with
        text := if s.text.endsWith [cr] && !final then [cr] else [],
        discardUntilBreak := !final }
  else
    let s := if s.isOversized then s.discardLine else s
    if final then s.endText protocol else s

def drain (protocol : UsageProtocol) (final : Bool) (s : SseObserver) : SseObserver :=
  (s.takeLines protocol final).settle protocol final

/-- The fatal decoder looks at a slice. -/
def validate (s : SseObserver) (slice : Chunk) : SseObserver :=
  match s.utf8Validator.bind (·.fatalDecode slice) with
  | some d => { s with utf8Validator := some d }
  | none => { s.taint with utf8Validator := none }

/-- The text of a slice is added to the text that waits. -/
def receive (s : SseObserver) (slice : Chunk) : SseObserver :=
  { s with
      decoder := (s.decoder.decode slice).1,
      text := s.text ++ (s.decoder.decode slice).2 }

/-- One slice of a chunk. -/
def pushSlice (protocol : UsageProtocol) (s : SseObserver) (slice : Chunk) : SseObserver :=
  ((s.validate slice).receive slice).drain protocol false

def push (protocol : UsageProtocol) (s : SseObserver) (bytes : Chunk) : SseObserver :=
  (decodeSlices bytes).foldl (pushSlice protocol) s

/-- The fatal decoder sees the end of the stream. -/
def validateEnd (s : SseObserver) : SseObserver :=
  if s.utf8Validator.any (·.fatalFlush) then s else s.taint

def finish (protocol : UsageProtocol) (s : SseObserver) : Observation :=
  let s := s.validateEnd
  let s := { s with text := s.text ++ s.decoder.flush }
  flushAllToolArguments
    (flushAllStreamedOutputText (s.drain protocol true).frames.observation)

end SseObserver

/-- What is known of the usage when all chunks of a stream have passed. -/
def observeSse (protocol : UsageProtocol) (chunks : List Chunk) : UsageAccumulator :=
  ((chunks.foldl (SseObserver.push protocol) .new).finish protocol).accumulator

end LlmRelay
