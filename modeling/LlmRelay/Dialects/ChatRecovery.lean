import LlmRelay.Dialects.StreamRecovery
import LlmRelay.Streams.CommitProbe

/-!
# Dialect recovery in a chat stream

`recoverDialectInOpenAiChatStream` (`openai-dialect.ts`) does for native OpenAI
chat streams what the Anthropic wrapper does, once for each choice of the stream.

## Main definitions

* `ChoiceState`, `ChatState`: one choice, and the wrapper between two events;
* `receiveContent`: the text of a choice grows;
* `settleChoice`: the end of a choice;
* `processEvent`: one event of the upstream;
* `recoverDialectInOpenAiChatStream`: the wrapper over a byte stream.
-/

namespace LlmRelay

open Ecma

/-- The declared tools of a request; a tool may have no schema. -/
abbrev ToolSchemaMap := List (Text × Option Json)

/-- The schemas of the tools that have one. -/
def recoverySchemas (schemas : ToolSchemaMap) : ToolSchemas :=
  fun name => (lookupEntry name schemas).join

/-- A recovered native call. -/
structure RecoveredCall where
  id : Text
  name : Text
  input : Json

/-- A recovered completion: the prose that survives, and the calls. -/
structure RecoveredOpenAiChat where
  text : Text
  calls : List RecoveredCall

/-- Validation and repair of a recovered completion; an error is its message. -/
abbrev RecoveredOpenAiChatProcessor := RecoveredOpenAiChat → Except Text RecoveredOpenAiChat

/-- The recovered value of a parsed outcome. -/
def recoveredValue (calls : List DialectToolCall) (prose : Text) (choiceIndex : Number) :
    RecoveredOpenAiChat where
  text := prose
  calls := calls.zipIdx.map fun p =>
    ⟨text "call_recovered_" ++ choiceIndex.toText ++ text "_" ++ Number.natText p.2,
      p.1.name, p.1.input⟩

/-- The calls in the native shape. -/
def nativeToolCalls (calls : List RecoveredCall) : List (List (Text × Json)) :=
  calls.map fun call =>
    [(text "id", .str call.id), (text "type", .str (text "function")),
      (text "function", .obj [(text "name", .str call.name),
        (text "arguments", .str call.input.stringify)])]

/-- What the wrapper writes: a frame as it came, or a generated event; no data is
the `[DONE]` sentinel. -/
inductive ChatPush where
  | raw (frame : Text)
  | event (eventName : Text) (data : Option Json)

/-- The text of a push. -/
def ChatPush.encode : ChatPush → Text
  | raw frame => frame
  | event eventName data => encodeEvent eventName data

/-- One choice of the stream. -/
structure ChoiceState where
  text : Text
  emittedLen : Nat
  capturing : Bool
  envelope : Text
  finished : Bool
  lastChunk : Option Json
  lastChoice : Option Json

/-- A choice before its first event. -/
def choiceState : ChoiceState :=
  ⟨[], 0, false, [], false, none, none⟩

/-- The wrapper between two events. -/
structure ChatState where
  states : OrderedMap Number ChoiceState
  lastEventName : Text
  terminated : Bool
  sawDone : Bool
  refused : Bool
  recovered : List Text
  pushes : List ChatPush

/-- The wrapper before its first event. -/
def ChatState.new : ChatState :=
  ⟨.empty, [], false, false, false, [], []⟩

/-- Writes several times. -/
def ChatState.pushAll (s : ChatState) (ps : List ChatPush) : ChatState :=
  { s with pushes := s.pushes ++ ps }

/-- The state of a choice; a new one is created. -/
def ChatState.stateFor (s : ChatState) (index : Number) : ChoiceState :=
  (s.states.get? index).getD choiceState

/-- Stores the state of a choice. -/
def ChatState.setState (s : ChatState) (index : Number) (c : ChoiceState) : ChatState :=
  { s with states := s.states.set index c }

/-- A refusal is reported as the relay's own. -/
def ChatState.onRefused (s : ChatState) (refusal : Bool) : ChatState :=
  { s with refused := s.refused || refusal }

/-- A recovered dialect is reported. -/
def ChatState.onRecovered (s : ChatState) (dialect : Text) : ChatState :=
  { s with recovered := s.recovered ++ [dialect] }

/-- The name of an event is remembered when it has one. -/
def ChatState.named (s : ChatState) (eventName : Text) : ChatState :=
  { s with lastEventName := if eventName = [] then s.lastEventName else eventName }

/-- The `[DONE]` sentinel is remembered. -/
def ChatState.sentinel (s : ChatState) : ChatState :=
  { s with sawDone := true }

/-- A choice that takes nothing any more. -/
def ChoiceState.finish (c : ChoiceState) : ChoiceState :=
  { c with finished := true }

/-! ## Choices -/

/-- The fields of a record. -/
def recordFields (v : Option Json) : List (Text × Json) :=
  match v with
  | some (.obj fields) => fields
  | _ => []

/-- `{ ...value, [key]: v }`. -/
def withField (value : Json) (key : Text) (v : Json) : Json :=
  .obj (setProperty (recordFields (some value)) key v)

theorem get?_withField (value : Json) (key k : Text) (v : Json) :
    (withField value key v).get? k
      = if key = k then some v else lookupEntry k (recordFields (some value)) :=
  lookupEntry_setProperty _ key k v

theorem get?_eq_lookupEntry (value : Json) (k : Text) :
    value.get? k = lookupEntry k (recordFields (some value)) := by
  cases value <;> rfl

theorem record?_withField (value : Json) (key : Text) (v : Json) :
    Json.record? (some (withField value key v)) = some (withField value key v) := rfl

/-- `{ ...template, choices }`. -/
def withChoices (template : Json) (choices : List Json) : Json :=
  withField template (text "choices") (.arr choices)

/-- The delta of a choice, empty when it is no record. -/
def deltaOf (choice : Json) : Json :=
  (Json.record? (choice.get? (text "delta"))).getD (.obj [])

/-- The choice with other content. -/
def withContent (choice : Json) (content : Text) : Json :=
  withField choice (text "delta") (withField (deltaOf choice) (text "content") (.str content))

/-- `value !== null && value !== undefined`. -/
def isPresent : Option Json → Bool
  | none | some .null => false
  | some _ => true

/-- The choice without content; nothing when nothing else is left of it. -/
def withoutContent (choice : Json) : Option Json :=
  match Json.record? (choice.get? (text "delta")) with
  | none => some choice
  | some delta =>
    let rest := (recordFields (some delta)).filter fun p => p.1 != text "content"
    if rest ≠ [] ∨ isPresent (choice.get? (text "finish_reason")) = true then
      some (withField choice (text "delta") (.obj rest))
    else none

/-- The choice without its finish reason; nothing when its delta is empty. -/
def withoutFinishReason (choice : Json) : Option Json :=
  if recordFields (some (deltaOf choice)) = [] then none
  else some (withField choice (text "finish_reason") .null)

/-- The content of the delta of a choice. -/
def choiceContent (choice : Json) : Option Text :=
  (Json.record? (choice.get? (text "delta"))).bind fun delta =>
    Json.string? (delta.get? (text "content"))

/-! ## Settling -/

/-- An error event of the wrapper. -/
def errorEvent (message code type : Text) : ChatPush :=
  .event [] (some (.obj [(text "error",
    .obj [(text "message", .str message), (text "type", .str type), (text "code", .str code)])]))

/-- The events of a recovered completion. -/
def recoveredEvents (template choice : Json) (recovered : RecoveredOpenAiChat)
    (eventName : Text) : List ChatPush :=
  let chunk (c : Json) : ChatPush := .event eventName (some (withChoices template [c]))
  let opened := withField choice (text "finish_reason") .null
  let calls := (nativeToolCalls recovered.calls).zipIdx.map fun p =>
    Json.obj ((text "index", natJson p.2) :: p.1)
  (if recovered.text = [] then [] else [chunk (withContent opened recovered.text)])
    ++ [chunk (withField opened (text "delta") (.obj [(text "tool_calls", .arr calls)])),
      chunk (withField (withField choice (text "finish_reason") (.str (text "tool_calls")))
        (text "delta") (.obj []))]

/-- The end of the stream with an error event, at most once. -/
def ChatState.fail (s : ChatState) (error : ChatPush) : ChatState :=
  if s.terminated then s
  else { s with terminated := true, pushes := s.pushes ++ [error] }

section Wrapper

variable (schemas : ToolSchemas) (isDestructive : Text → Bool)
  (processRecovered : Option RecoveredOpenAiChatProcessor)

/-- How an outcome of the recovery is written: an error that ends the stream, or
the dialect and the recovered completion. -/
def settleOutcome (index : Number) : DialectOutcome → Except ChatPush (Text × RecoveredOpenAiChat)
  | .refusedDestructive dialect refused =>
    .error (errorEvent
      (text "llm-relay: refused a " ++ dialect
        ++ text " tool call recovered from text because it names a destructive tool: "
        ++ describeRefused refused)
      DIALECT_REFUSED_DESTRUCTIVE_CODE DIALECT_REFUSED_DESTRUCTIVE_CODE)
  | .detected dialect =>
    .error (errorEvent
      (text "llm-relay: backend returned an unparseable " ++ dialect
        ++ text " tool-call envelope as text")
      (text "tool_dialect_unparseable") (text "upstream_error"))
  | .none =>
    .error (errorEvent
      (text "llm-relay: backend returned an unparseable " ++ text "unknown"
        ++ text " tool-call envelope as text")
      (text "tool_dialect_unparseable") (text "upstream_error"))
  | .parsed calls prose dialect =>
    match (processRecovered.getD .ok) (recoveredValue calls prose index) with
    | .ok recovered => .ok (dialect, recovered)
    | .error message =>
      .error (errorEvent (text "llm-relay: " ++ message) (text "tool_call_recovery_failed")
        (text "upstream_error"))

/-- The end of a choice, at most once: held-back text, or the settled envelope. -/
def settleChoice (s : ChatState) (index : Number) (eventName : Text) :
    List ChatPush × ChatState :=
  let c := s.stateFor index
  if c.finished then ([], s)
  else if c.capturing then
    let s := s.setState index c.finish
    let out := recoverToolCalls c.envelope schemas isDestructive
    match settleOutcome processRecovered index out with
    | .error error => ([], (s.onRefused out.isRefusal).fail error)
    | .ok (dialect, recovered) =>
      match c.lastChunk, c.lastChoice with
      | some chunk, some choice =>
        (recoveredEvents chunk choice recovered eventName, s.onRecovered dialect)
      | _, _ => ([], s.onRecovered dialect)
  else
    let tail := c.text.drop c.emittedLen
    let s := s.setState index { c.finish with emittedLen := c.text.length }
    match c.lastChunk, c.lastChoice with
    | some chunk, some choice =>
      if tail = [] then ([], s)
      else ([.event eventName (some (withChoices chunk [withContent choice tail]))], s)
    | _, _ => ([], s)

/-! ## One event -/

/-- The text of a choice grows: the new state, the choice that is forwarded, and
whether it differs from the one received. -/
def receiveContent (c : ChoiceState) (choice : Json) (content : Text) :
    ChoiceState × Option Json × Bool :=
  let previousLength := c.text.length
  let c := { c with text := c.text ++ content }
  if c.capturing then
    ({ c with envelope := c.envelope ++ content }, withoutContent choice, true)
  else
    let scan := scanForMarker c.text
    if scan.hit then
      let start := (markerStart c.text).getD 0
      let safe := (c.text.take start).drop c.emittedLen
      ({ c with emittedLen := start, capturing := true, envelope := c.text.drop start },
        if safe = [] then none else some (withContent choice safe), true)
    else
      let safe := (c.text.take scan.safeLen).drop c.emittedLen
      let unchanged := decide (safe = content) && decide (c.emittedLen = previousLength)
      ({ c with emittedLen := scan.safeLen },
        if safe = [] then none
        else some (if unchanged then choice else withContent choice safe), !unchanged)

/-- A choice of an event reaches its state; a choice that has ended takes nothing
any more. -/
def receiveChoice (c : ChoiceState) (choice : Json) : ChoiceState × Option Json × Bool :=
  if c.finished then (c, none, false)
  else
    match choiceContent choice with
    | some content => receiveContent c choice content
    | none => (c, some choice, false)

/-- The loop over the choices of an event. -/
structure ChoiceLoop where
  state : ChatState
  modified : Bool
  outputChoices : List Json
  generatedAfter : List ChatPush
  returned : Bool

/-- One choice of an event. -/
def processChoice (data : Json) (eventName : Text) (l : ChoiceLoop) (p : Json × Nat) :
    ChoiceLoop :=
  let rawChoice := p.1
  if l.returned then l
  else if !rawChoice.isRecord then { l with outputChoices := l.outputChoices ++ [rawChoice] }
  else
    let index := (Json.number? (rawChoice.get? (text "index"))).getD (.fin p.2)
    let c := { l.state.stateFor index with lastChunk := some data, lastChoice := some rawChoice }
    let received := receiveChoice c rawChoice
    let s := l.state.setState index received.1
    let modified := l.modified || received.2.2
    if received.1.capturing
        && decide (STREAM_PREFLIGHT_LIMIT < (encodeUtf8 received.1.envelope).length) then
      { l with
        state := s.fail (errorEvent
          (text "llm-relay: tool-call envelope exceeded the commit probe limit")
          (text "tool_dialect_unparseable") (text "upstream_error"))
        returned := true }
    else if isPresent (rawChoice.get? (text "finish_reason")) && !received.1.finished then
      let settled := settleChoice schemas isDestructive processRecovered s index eventName
      if settled.2.terminated then { l with state := settled.2, returned := true }
      else
        -- the finish reason moves to the generated events, when there are any
        let output := if settled.1.isEmpty then received.2.1 else received.2.1.bind withoutFinishReason
        { l with
          state := settled.2, modified := true,
          outputChoices := l.outputChoices ++ output.toList,
          generatedAfter := l.generatedAfter ++ settled.1 }
    else
      { l with
        state := s, modified := modified, outputChoices := l.outputChoices ++ received.2.1.toList }

/-- Settles choices in order until the stream is ended by an error. -/
def settleAll (s : ChatState) (eventName : Text) : List Number → ChatState
  | [] => s
  | index :: rest =>
    let settled := settleChoice schemas isDestructive processRecovered s index eventName
    let s := settled.2.pushAll settled.1
    if s.terminated then s else settleAll s eventName rest

/-- One event of the upstream. -/
def processEvent (s : ChatState) (raw : Text) : ChatState :=
  if s.terminated then s
  else
    let event := parseChatEvent raw
    let s := s.named event.eventName
    match event.data with
    | .none => s.pushAll [.raw raw]
    | .done =>
      let s := settleAll schemas isDestructive processRecovered s.sentinel event.eventName
        s.states.keys
      if s.terminated then s else s.pushAll [.raw raw]
    | .record data =>
      let choices := (Json.array? (data.get? (text "choices"))).getD []
      if hasRecord data (text "error") = true ∨ choices = [] then s.pushAll [.raw raw]
      else
        let l := choices.zipIdx.foldl
          (processChoice schemas isDestructive processRecovered data event.eventName)
          ⟨s, false, [], [], false⟩
        if l.returned then l.state
        else
          let output : List ChatPush :=
            if !l.modified then [.raw raw]
            else if l.outputChoices = [] then []
            else [.event event.eventName (some (withChoices data l.outputChoices))]
          l.state.pushAll (output ++ l.generatedAfter)

/-- The end of the stream: whatever is still open is settled. -/
def finishChat (s : ChatState) : ChatState :=
  let opened := s.states.keys.filter fun index =>
    (s.stateFor index).capturing && !(s.stateFor index).finished
  let s := settleAll schemas isDestructive processRecovered s s.lastEventName s.states.keys
  if !s.terminated && opened != [] && !s.sawDone then s.pushAll [.event [] none] else s

end Wrapper

/-- What the client of the wrapper gets: the upstream itself, the stream of the
wrapper, or that stream with an error at its end. -/
inductive ChatStream where
  | passthrough (upstream : ByteStream)
  | closed (s : ChatState)
  | errored (s : ChatState)

/-- The wrapper over a byte stream; a request without tools is passed through. -/
def recoverDialectInOpenAiChatStream (upstream : ByteStream) (schemas : ToolSchemaMap)
    (isDestructive : Text → Bool) (processRecovered : Option RecoveredOpenAiChatProcessor) :
    ChatStream :=
  if schemas.isEmpty then .passthrough upstream
  else
    let step := processEvent (recoverySchemas schemas) isDestructive processRecovered
    let fed := feedChunks (fun s frame => step s frame.raw) .new upstream.chunks
    match upstream.ending with
    | .failed => if fed.state.terminated then .closed fed.state else .errored fed.state
    | .done =>
      let remainder := (fed.frames.takeRemainder fed.decoder.flush).1
      let s := if remainder = [] then fed.state else step fed.state remainder
      .closed (if s.terminated then s
        else finishChat (recoverySchemas schemas) isDestructive processRecovered s)

end LlmRelay
