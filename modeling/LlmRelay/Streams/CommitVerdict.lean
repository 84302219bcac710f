import LlmRelay.Dialects.Markers
import LlmRelay.Streams.SseEvents

/-!
# Commit verdicts

What one SSE event of a provisional stream says (`stream-commit.ts`): hold the
stream, commit it, or declare it dead. Beside the verdict, every event may state
why the backend stopped.

## Main definitions

* `StreamCommitProtocol`, `EventVerdict`: the protocols and the verdicts;
* `StopReasonAccumulator`, `observeStopCause`: the backend's own account of how
  the turn ended;
* `anthropicVerdict`, `openAiChatVerdict`, `openAiResponsesVerdict`: the verdicts
  of the protocols;
* `classifyEvent`: the verdict of one frame.
-/

namespace LlmRelay

open Ecma

/-- The client-facing stream protocols. -/
inductive StreamCommitProtocol where
  | anthropicMessages
  | openaiChat
  | openaiResponses
  deriving DecidableEq, Repr

/-- Whose fault a dead stream is. -/
inductive Provenance where
  | upstream
  | local
  deriving DecidableEq, Repr

/-- The stop reasons that explain an unexpected emptiness. -/
inductive StreamStopCause where
  | maxTokens
  | toolUse
  deriving DecidableEq, Repr

/-- What the backend said about why it stopped. -/
structure StreamDeadClassification where
  stopReason : Option StreamStopCause
  reasoningTokens : Option Number
  deriving DecidableEq

/-- The verdict of one event. -/
inductive EventVerdict where
  | hold
  | ready
  | dead (reason : Text) (provenance : Provenance) (errorType : Option Text)
  deriving DecidableEq, Repr

/-- Whether a verdict leaves the probe reading. -/
def EventVerdict.isHold : EventVerdict → Bool
  | hold => true
  | _ => false

/-! ## Stop causes -/

/-- The accumulated statements of the backend. -/
structure StopReasonAccumulator where
  stop : Option StreamStopCause
  reasoningTokens : Option Number
  deriving DecidableEq

namespace StopReasonAccumulator

/-- Nothing was stated yet. -/
def new : StopReasonAccumulator :=
  ⟨none, none⟩

end StopReasonAccumulator

/-- The closed stop-reason vocabulary. -/
def normalizeStopReason (value : Option Json) : Option StreamStopCause :=
  match Json.string? value with
  | none => none
  | some s =>
    if s = text "max_tokens" ∨ s = text "length" then some .maxTokens
    else if s = text "tool_use" ∨ s = text "tool_calls" ∨ s = text "function_call" then
      some .toolUse
    else none

/-- The first of the keys that holds a finite number of at least zero. -/
def numericField (value : Json) : List Text → Option Number
  | [] => none
  | key :: keys =>
    match value.get? key with
    | some (.num raw) =>
      if raw.isFinite && Number.le 0 raw then some raw else numericField value keys
    | _ => numericField value keys

namespace StopReasonAccumulator

/-- The last modelled stop reason wins. -/
def recordStop (cause : StopReasonAccumulator) (value : Option Json) : StopReasonAccumulator :=
  match normalizeStopReason value with
  | some stop => { cause with stop := some stop }
  | none => cause

/-- The reasoning-token count a usage record states. -/
def recordUsage (cause : StopReasonAccumulator) (value : Option Json) : StopReasonAccumulator :=
  match Json.record? value with
  | none => cause
  | some usage =>
    match numericField usage
        [text "reasoning_tokens", text "reasoningTokens", text "reasoning_output_tokens"] with
    | some reasoning => { cause with reasoningTokens := some reasoning }
    | none => cause

/-- The classification, absent when nothing was learned. -/
def snapshot (cause : StopReasonAccumulator) : Option StreamDeadClassification :=
  if cause.stop = none ∧ cause.reasoningTokens = none then none
  else some ⟨cause.stop, cause.reasoningTokens⟩

end StopReasonAccumulator

/-- `s` after a number other than one. -/
def plural (tokens : Number) : Text :=
  if tokens = 1 then [] else text "s"

/-- The stated cause, in words. -/
def describeStreamStopCause (classification : StreamDeadClassification) : Text :=
  let reasoning :=
    match classification.reasoningTokens with
    | none => []
    | some tokens => text " after " ++ tokens.toText ++ text " reasoning token" ++ plural tokens
  match classification.stopReason, classification.reasoningTokens with
  | some .maxTokens, _ => text "the backend stopped at max_tokens" ++ reasoning ++ text " and no text"
  | some .toolUse, _ =>
    text "the backend stopped at a tool call" ++ reasoning
      ++ text " with no text the relay could commit"
  | none, none => text "the backend sent no text and stated no stop reason"
  | none, some tokens =>
    text "the backend produced " ++ tokens.toText ++ text " reasoning token" ++ plural tokens
      ++ text " and no text"

/-! ## Substance -/

/-- A string with something other than white space in it. -/
def nonWhitespace (value : Option Json) : Bool :=
  match value with
  | some (.str s) => s.trim != []
  | _ => false

mutual
/-- A value that carries something. -/
def substantive : Json → Bool
  | .null => false
  | .bool _ => true
  | .num _ => true
  | .str s => s.trim != []
  | .arr items => substantiveItems items
  | .obj fields => substantiveValues fields

/-- Some element carries something. -/
def substantiveItems : List Json → Bool
  | [] => false
  | v :: rest => substantive v || substantiveItems rest

/-- Some property value carries something. -/
def substantiveValues : List (Text × Json) → Bool
  | [] => false
  | (_, v) :: rest => substantive v || substantiveValues rest
end

/-- Some property outside the ignored ones carries something. -/
def substantiveFields (value : Json) (ignored : List Text) : Bool :=
  match value with
  | .obj fields => fields.any fun p => !ignored.contains p.1 && substantive p.2
  | _ => false

/-! ## Errors -/

/-- The record that describes the error. -/
def errorOf (value : Json) : Json :=
  (Json.record? (value.get? (text "error"))).getD value

/-- The message of an error, trimmed and cut to 200 code units. -/
def errorMessage (value : Json) : Text :=
  match Json.string? ((errorOf value).get? (text "message")) with
  | some message => message.trim.take 200
  | none => []

/-- The message of an in-band error of the provider. -/
def boundedError (value : Json) : Text :=
  let message := errorMessage value
  if message = [] then text "in-band error before meaningful content"
  else text "in-band error before meaningful content: " ++ message

/-- The relay wrote this error itself: its wrapper says so, and the code is there. -/
def relayAuthored (value : Json) (refused : Bool) : Bool :=
  refused
    && (Json.string? ((errorOf value).get? (text "type")) == some DIALECT_REFUSED_DESTRUCTIVE_CODE
      || Json.string? ((errorOf value).get? (text "code")) == some DIALECT_REFUSED_DESTRUCTIVE_CODE)

/-- The verdict of an error record. -/
def errorVerdict (value : Json) (refused : Bool) : EventVerdict :=
  if relayAuthored value refused then
    let message := errorMessage value
    .dead
      (if message = [] then
        text "refused a tool call recovered from text because it names a destructive tool"
       else message)
      .local (some DIALECT_REFUSED_DESTRUCTIVE_CODE)
  else
    .dead (boundedError value) .upstream none

/-- The end of a stream that carried nothing. -/
def emptyCompletion : EventVerdict :=
  .dead (text "stream completed without meaningful content") .upstream none

/-- Commit when something is there, hold otherwise. -/
def readyIf (b : Bool) : EventVerdict :=
  if b then .ready else .hold

/-- `typeof value.type === "string" ? value.type : ""`. -/
def typeOf (value : Json) : Text :=
  (Json.string? (value.get? (text "type"))).getD []

/-- `value[key]` is a record. -/
def hasRecord (value : Json) (key : Text) : Bool :=
  (Json.record? (value.get? key)).isSome

/-! ## Anthropic messages -/

/-- The keys of a block or delta that are no payload. -/
def blockSkeleton : List Text :=
  [text "type", text "index"]

/-- The verdict of a `content_block_start`. -/
def anthropicBlockStartVerdict (block : Json) : EventVerdict :=
  let blockType := typeOf block
  if blockType = text "tool_use" then
    readyIf (nonWhitespace (block.get? (text "id")) || nonWhitespace (block.get? (text "name")))
  else if blockType = text "text" then readyIf (nonWhitespace (block.get? (text "text")))
  else if blockType = text "thinking" then readyIf (nonWhitespace (block.get? (text "thinking")))
  else readyIf (substantiveFields block blockSkeleton)

/-- The verdict of a `content_block_delta`. -/
def anthropicBlockDeltaVerdict (delta : Json) : EventVerdict :=
  let deltaType := typeOf delta
  if deltaType = text "text_delta" then readyIf (nonWhitespace (delta.get? (text "text")))
  else if deltaType = text "thinking_delta" then
    readyIf (nonWhitespace (delta.get? (text "thinking")))
  else if deltaType = text "input_json_delta" ∨ deltaType = text "signature_delta" then .hold
  else readyIf (substantiveFields delta blockSkeleton)

/-- The verdict of an Anthropic event. -/
def anthropicVerdict (value : Json) (refused : Bool) : EventVerdict :=
  let type := typeOf value
  let block := Json.record? (value.get? (text "content_block"))
  let delta := Json.record? (value.get? (text "delta"))
  if type = text "error" ∨ hasRecord value (text "error") then errorVerdict value refused
  else if type = text "message_stop" then emptyCompletion
  else if type = text "content_block_start" then
    (block.map anthropicBlockStartVerdict).getD .hold
  else if type = text "content_block_delta" then
    (delta.map anthropicBlockDeltaVerdict).getD .hold
  else if type.startsWith (text "content_block_") then
    -- future content events commit on a substantive payload
    readyIf (block.any (substantiveFields · blockSkeleton)
      || delta.any (substantiveFields · blockSkeleton))
  else .hold

/-! ## OpenAI chat -/

/-- A tool-call delta with an id, a name or arguments. -/
def chatToolCallMeaningful (value : Json) : Bool :=
  value.isRecord
    && (nonWhitespace (value.get? (text "id"))
      || (Json.record? (value.get? (text "function"))).any fun f =>
          nonWhitespace (f.get? (text "name")) || nonWhitespace (f.get? (text "arguments")))

/-- The keys of a chat delta that are read by name. -/
def chatDeltaKeys : List Text :=
  [text "role", text "content", text "refusal", text "reasoning_content", text "reasoning",
    text "tool_calls"]

/-- A chat delta that carries output. -/
def chatDeltaMeaningful (delta : Json) : Bool :=
  nonWhitespace (delta.get? (text "content")) || nonWhitespace (delta.get? (text "refusal"))
    || nonWhitespace (delta.get? (text "reasoning_content"))
    || nonWhitespace (delta.get? (text "reasoning"))
    || (Json.array? (delta.get? (text "tool_calls"))).any (·.any chatToolCallMeaningful)
    || substantiveFields delta chatDeltaKeys

/-- The choices of a chat event from the first one on; `finished` says that an
earlier choice stated a finish reason. -/
def chatChoicesVerdict (finished : Bool) : List Json → EventVerdict
  | [] => if finished then emptyCompletion else .hold
  | choice :: rest =>
    if !choice.isRecord then
      .dead (text "OpenAI stream choice is not an object") .upstream none
    else
      let finished := finished ||
        match choice.get? (text "finish_reason") with
        | none | some .null => false
        | some _ => true
      match Json.record? (choice.get? (text "delta")) with
      | none => chatChoicesVerdict finished rest
      | some delta => if chatDeltaMeaningful delta then .ready else chatChoicesVerdict finished rest

/-- The verdict of an OpenAI chat event. -/
def openAiChatVerdict (value : Json) (refused : Bool) : EventVerdict :=
  if hasRecord value (text "error") ∨ typeOf value = text "error" then errorVerdict value refused
  else
    match Json.array? (value.get? (text "choices")) with
    | none => .dead (text "OpenAI stream event is missing choices") .upstream none
    | some choices => chatChoicesVerdict false choices

/-! ## OpenAI responses -/

mutual
/-- An output item that carries something. -/
def responsesItemMeaningful : Json → Bool
  | .obj fields =>
    let value := Json.obj fields
    let type := typeOf value
    if type = text "function_call" then
      nonWhitespace (value.get? (text "id")) || nonWhitespace (value.get? (text "call_id"))
        || nonWhitespace (value.get? (text "name")) || nonWhitespace (value.get? (text "arguments"))
    else if type = text "output_text" ∨ type = text "refusal" ∨ type = text "reasoning" then
      nonWhitespace (value.get? (text "text")) || nonWhitespace (value.get? (text "refusal"))
        || (value.get? (text "content")).any substantive
    else if type = text "message" ∧ (Json.array? (value.get? (text "content"))).isSome then
      contentMeaningful fields
    else
      substantiveFields value
        [text "type", text "id", text "status", text "role", text "index"]
  | _ => false

/-- The property `content` is an array with a meaningful item. -/
def contentMeaningful : List (Text × Json) → Bool
  | [] => false
  | (key, v) :: rest => if key = text "content" then arrayMeaningful v else contentMeaningful rest

/-- An array with a meaningful item. -/
def arrayMeaningful : Json → Bool
  | .arr items => itemsMeaningful items
  | _ => false

/-- Some item is meaningful. -/
def itemsMeaningful : List Json → Bool
  | [] => false
  | v :: rest => responsesItemMeaningful v || itemsMeaningful rest
end

/-- `value[key]` is a meaningful item. -/
def itemMeaningfulAt (value : Json) (key : Text) : Bool :=
  (value.get? key).any responsesItemMeaningful

/-- The verdict of a `response.completed`. -/
def responseCompletedVerdict (response : Json) : EventVerdict :=
  let status := Json.string? (response.get? (text "status"))
  if status = some (text "failed") ∨ status = some (text "incomplete")
      ∨ status = some (text "cancelled") then
    .dead (text "response completed unsuccessfully before meaningful content") .upstream none
  else if (Json.array? (response.get? (text "output"))).any (·.any responsesItemMeaningful) then
    .ready
  else emptyCompletion

/-- The verdict of an OpenAI responses event. -/
def openAiResponsesVerdict (value : Json) (refused : Bool) : EventVerdict :=
  let type := typeOf value
  let field (key : Text) : Bool := nonWhitespace (value.get? key)
  if type = text "error" ∨ type = text "response.failed" ∨ hasRecord value (text "error") then
    errorVerdict value refused
  else if type = text "response.incomplete" ∨ type = text "response.cancelled" then
    .dead (type ++ text " before meaningful content") .upstream none
  else if type = text "response.output_text.delta" ∨ type = text "response.refusal.delta"
      ∨ type = text "response.reasoning.delta" ∨ type = text "response.reasoning_text.delta" then
    readyIf (field (text "delta") || field (text "text"))
  else if type = text "response.function_call_arguments.delta" then readyIf (field (text "delta"))
  else if type = text "response.output_item.added" ∨ type = text "response.output_item.done" then
    readyIf (itemMeaningfulAt value (text "item"))
  else if type = text "response.content_part.added" ∨ type = text "response.content_part.done" then
    readyIf (itemMeaningfulAt value (text "part"))
  else if type = text "response.completed" then
    responseCompletedVerdict ((Json.record? (value.get? (text "response"))).getD (.obj []))
  else if type.endsWith (text ".delta") then
    readyIf (substantiveFields value
      [text "type", text "sequence_number", text "output_index", text "content_index",
        text "item_id"])
  else if type.endsWith (text ".done") then
    readyIf (field (text "text") || field (text "refusal") || itemMeaningfulAt value (text "item"))
  else .hold

/-! ## One event -/

/-- What a parsed record states about how the turn ended. -/
def observeStopCause (value : Json) (protocol : StreamCommitProtocol)
    (cause : StopReasonAccumulator) : StopReasonAccumulator :=
  let usage := value.get? (text "usage")
  let details (key : Text) (v : Option Json) : Option Json :=
    (Json.record? v).bind (·.get? key)
  match protocol with
  | .anthropicMessages =>
    let cause :=
      if typeOf value = text "message_delta" then
        (cause.recordStop ((Json.record? (value.get? (text "delta"))).bind
          (·.get? (text "stop_reason")))).recordUsage usage
      else cause
    let cause := cause.recordUsage
      ((Json.record? (value.get? (text "message"))).bind (·.get? (text "usage")))
    cause.recordUsage usage
  | .openaiChat =>
    let choices := (Json.array? (value.get? (text "choices"))).getD []
    let cause := choices.foldl (fun cause choice =>
      if choice.isRecord then
        (cause.recordStop (choice.get? (text "finish_reason"))).recordUsage
          (choice.get? (text "usage"))
      else cause) cause
    (cause.recordUsage usage).recordUsage (details (text "completion_tokens_details") usage)
  | .openaiResponses =>
    let cause :=
      match Json.record? (value.get? (text "response")) with
      | none => cause
      | some response =>
        let incomplete := details (text "reason") (response.get? (text "incomplete_details"))
        let usage := response.get? (text "usage")
        ((cause.recordStop incomplete).recordUsage usage).recordUsage
          (details (text "output_tokens_details") usage)
    cause.recordUsage usage

/-- The verdict of one frame, and the cause with what the frame states. -/
def classifyEvent (event : Text) (protocol : StreamCommitProtocol)
    (malformedProvenance : Provenance) (refused : Bool) (cause : StopReasonAccumulator) :
    EventVerdict × StopReasonAccumulator :=
  let eventName := (eventNameAndData event).1
  let data := (eventNameAndData event).2
  if data = [] then
    if eventName = text "error" then
      (.dead (text "in-band error before meaningful content") .upstream none, cause)
    else (.hold, cause)
  else if data = text "[DONE]" then (emptyCompletion, cause)
  else
    match Json.parse data with
    | none =>
      (.dead (text "stream event before meaningful content is not valid JSON")
        malformedProvenance none, cause)
    | some parsed =>
      if !parsed.isRecord then
        (.dead (text "stream event before meaningful content is not an object")
          malformedProvenance none, cause)
      else
        let cause := observeStopCause parsed protocol cause
        if eventName = text "error" ∧ typeOf parsed ≠ text "error"
            ∧ hasRecord parsed (text "error") = false then
          (errorVerdict parsed refused, cause)
        else
          match protocol with
          | .anthropicMessages => (anthropicVerdict parsed refused, cause)
          | .openaiChat => (openAiChatVerdict parsed refused, cause)
          | .openaiResponses => (openAiResponsesVerdict parsed refused, cause)

theorem classifyEvent_verdict (event : Text) (protocol : StreamCommitProtocol)
    (malformedProvenance : Provenance) (refused : Bool) (cause cause' : StopReasonAccumulator) :
    (classifyEvent event protocol malformedProvenance refused cause).1
      = (classifyEvent event protocol malformedProvenance refused cause').1 := by
  simp only [classifyEvent]
  split_ifs
  · rfl
  · rfl
  · rfl
  · cases Json.parse (eventNameAndData event).2 with
    | none => rfl
    | some parsed =>
      simp only
      split_ifs
      · rfl
      · rfl
      · cases protocol <;> rfl

end LlmRelay
