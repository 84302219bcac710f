import LlmRelay.Breaker.Persistence
import LlmRelay.Messages.ToolCallIds
import LlmRelay.Transition.Outcomes

/-!
# Anthropic requests as OpenAI requests

The request mapper of the proxy (`openai-request.ts`): the turns of an Anthropic request
become the messages of an OpenAI chat request, turn by turn, and what cannot be
represented is refused.

## Main definitions

* `Message`, `OpenAiRequest`: the outbound request;
* `Stop`: a refusal, or a search for an id that did not end;
* `assistantMessage`, `userMessages`: the messages of one turn;
* `anthropicRequestToOpenAi`: the whole request.
-/

namespace LlmRelay

open Ecma

/-! ## Outbound requests -/

/-- A call of a tool; `signed` is the sentinel of `THOUGHT_SIGNATURE_SENTINEL`. -/
structure ToolCall where
  id : Text
  name : Text
  arguments : Text
  signed : Bool
  deriving DecidableEq

/-- A part of a user message. -/
inductive Part where
  | text (text : Text)
  | image (url : Text)
  deriving DecidableEq

/-- An outbound message. -/
inductive Message where
  | system (content : Text)
  | assistant (content : Option Text) (toolCalls : List ToolCall) (reasoningContent : Option Text)
  | tool (toolCallId content : Text) (name : Option Text)
  | user (content : Text)
  | userParts (parts : List Part)
  deriving DecidableEq

/-- A declared function. -/
structure ToolDeclaration where
  name : Text
  description : Option Text
  parameters : Json
  deriving DecidableEq

inductive ToolChoice where
  | auto | none | required
  | function (name : Text)
  deriving DecidableEq

inductive DeepSeekReasoningEffort where
  | low | high | max
  deriving DecidableEq

/-- What a request says about thinking. -/
inductive ThinkingSpec where
  | disabled
  | effort (level : DeepSeekReasoningEffort)
  deriving DecidableEq

structure OpenAiRequest where
  messages : List Message
  model : Option Text
  stream : Option Bool
  maxTokens : Option Number
  temperature : Option Number
  topP : Option Number
  stop : Option (List Text)
  tools : Option (List ToolDeclaration)
  toolChoice : Option ToolChoice
  thinking : Option ThinkingSpec
  deriving DecidableEq

inductive ToolCallIdMode where
  | preserve | strict9
  deriving DecidableEq

inductive ThoughtSignatureMode where
  | none | sentinel
  deriving DecidableEq

inductive ReasoningMode where
  | none | deepseek
  deriving DecidableEq

inductive EffortLevel where
  | low | medium | high | xhigh
  deriving DecidableEq

def EffortLevel.name : EffortLevel → String
  | low => "low"
  | medium => "medium"
  | high => "high"
  | xhigh => "xhigh"

structure AnthropicToOpenAiOptions where
  model : Option Text
  stream : Option Bool
  toolCallIds : ToolCallIdMode
  thoughtSignature : ThoughtSignatureMode
  reasoning : ReasoningMode
  effort : Option EffortLevel

/-! ## Runs -/

/-- Why no request came out: `RequestMappingError`, or a search for an id that did not end. -/
inductive Stop where
  | mapping (message : Text)
  | unfinished
  deriving DecidableEq

/-- The ids assigned so far, absent under `preserve`, and the calls that were stamped, absent
without sentinels. -/
structure MappingState where
  ids : Option ToolCallIds
  sigs : Option Nat

/-- A step of the mapper. -/
abbrev Mapping :=
  StateT MappingState (Except Stop)

/-- `throw new RequestMappingError(message)`. -/
def refuse {α : Type} (message : Text) : Mapping α :=
  throw (.mapping message)

section Mapper

variable (digest : ToolCallIdDigest) (salts : Nat)

/-- The outbound form of an id. -/
def mapId (id : Text) : Mapping Text := fun state =>
  match state.ids with
  | none => .ok (id, state)
  | some ids =>
    match ids.map digest salts id with
    | some (out, ids) => .ok (out, { state with ids := some ids })
    | none => .error .unfinished

/-- Is the next call stamped? -/
def stamp : Mapping Bool := fun state =>
  match state.sigs with
  | none => .ok (false, state)
  | some count => .ok (true, { state with sigs := some (count + 1) })

/-! ## Blocks -/

inductive BlockType where
  | text | image | toolUse | toolResult | thinking | redactedThinking
  deriving DecidableEq

def BlockType.name : BlockType → String
  | text => "text"
  | image => "image"
  | toolUse => "tool_use"
  | toolResult => "tool_result"
  | thinking => "thinking"
  | redactedThinking => "redacted_thinking"

/-- The type of a block; absent for a type that no branch names. -/
def blockType? (block : Json) : Option BlockType :=
  LlmRelay.ofName? BlockType.name
    [.text, .image, .toolUse, .toolResult, .thinking, .redactedThinking] (block.get? (text "type"))

/-- Names an unexpected block type in an error. -/
def describeType (t : Option Json) : Text :=
  match Json.string? t with
  | some t => if t = [] then text "(missing type)" else text "\"" ++ t.take 40 ++ text "\""
  | none => text "(missing type)"

/-- The property when it is a string. -/
def stringField (block : Json) (key : String) : Option Text :=
  Json.string? (block.get? (text key))

/-- The property when it is a string that is not empty. -/
def nameField (block : Json) (key : String) : Option Text :=
  (stringField block key).filter (· ≠ [])

def textOf (block : Json) : Text :=
  (stringField block "text").getD []

/-- The elements of an array; of anything else, none. -/
def blocksOf (content : Option Json) : List Json :=
  (Json.array? content).getD []

/-- The text of the system blocks, or of a system string. -/
def systemText (system : Option Json) : Text :=
  match system with
  | some (.str s) => s
  | _ =>
    Text.join (text "\n\n")
      (((blocksOf system).filter fun block => blockType? block = some .text).map textOf)

/-- The arguments of a call: a string as it is, anything else as JSON. -/
def argumentsOf (block : Json) : Text :=
  match block.get? (text "input") with
  | some (.str s) => s
  | none | some .null => (Json.obj []).stringify
  | some input => input.stringify

/-- The call of a `tool_use` block. -/
def toolCall (block : Json) : Mapping ToolCall := do
  let some id := nameField block "id" | refuse (text "tool_use block without an id")
  let some name := nameField block "name" | refuse (text "tool_use block without a name")
  let out ← mapId digest salts id
  let signed ← stamp
  return { id := out, name, arguments := argumentsOf block, signed }

/-! ## Assistant turns -/

/-- What the blocks of an assistant turn add up to. -/
structure AssistantParts where
  texts : List Text
  toolCalls : List ToolCall
  thinkingParts : List Text

def assistantBlock (parts : AssistantParts) (raw : Json) : Mapping AssistantParts :=
  if !raw.isRecord then refuse (text "assistant content block is not an object")
  else match blockType? raw with
  | some .text => return { parts with texts := parts.texts ++ [textOf raw] }
  | some .toolUse => do
    let call ← toolCall digest salts raw
    return { parts with toolCalls := parts.toolCalls ++ [call] }
  | some .thinking =>
    return { parts with
      thinkingParts := parts.thinkingParts ++ (nameField raw "thinking").toList }
  | some .redactedThinking => return parts
  | _ =>
    refuse (text "unsupported assistant content block " ++ describeType (raw.get? (text "type")))

/-- The message of an assistant turn. -/
def assistantMessage (turn : Json) (reasoning : ReasoningMode) : Mapping Message :=
  match turn.get? (text "content") with
  | some (.str content) => return .assistant (some content) [] none
  | content => do
    let parts ← (blocksOf content).foldlM (assistantBlock digest salts) ⟨[], [], []⟩
    let joined := parts.texts.flatten
    return .assistant
      (if joined ≠ [] then some joined else if parts.toolCalls ≠ [] then none else some [])
      parts.toolCalls
      (if reasoning = .deepseek ∧ parts.thinkingParts ≠ [] then
        some (Text.join (text "\n\n") parts.thinkingParts)
      else none)

/-! ## User turns -/

/-- The part of an image block: a link, or a data link. -/
def imageUrl? (block : Json) : Option Text :=
  let source := (Json.record? (block.get? (text "source"))).getD (.obj [])
  match stringField source "type" with
  | some kind =>
    match if kind = text "url" then stringField source "url" else none with
    | some url => some url
    | none =>
      match stringField source "data", stringField source "media_type" with
      | some data, some mediaType =>
        if kind = text "base64" then some (text "data:" ++ mediaType ++ text ";base64," ++ data)
        else none
      | _, _ => none
  | none => none

def imagePart (block : Json) : Mapping Part :=
  match imageUrl? block with
  | some url => return .image url
  | none => refuse (text "image block needs a base64 or url source")

/-- The texts of a tool result, and its images. -/
structure ToolResultParts where
  texts : List Text
  images : List Part

def toolResultBlock (parts : ToolResultParts) (raw : Json) : Mapping ToolResultParts :=
  if !raw.isRecord then refuse (text "tool_result content block is not an object")
  else match blockType? raw with
  | some .text => return { parts with texts := parts.texts ++ [textOf raw] }
  | some .image => do
    let image ← imagePart raw
    return { parts with images := parts.images ++ [image] }
  | _ =>
    refuse (text "tool_result carries an unsupported " ++ describeType (raw.get? (text "type"))
      ++ text " block; an OpenAI tool message carries text and images only")

/-- The text of a tool message, and the images it cannot carry. -/
def toolResultParts (content : Option Json) : Mapping (Text × List Part) :=
  match content with
  | none | some .null => return ([], [])
  | some (.str s) => return (s, [])
  | some (.arr blocks) => do
    let parts ← blocks.foldlM toolResultBlock ⟨[], []⟩
    return (Text.join (text "\n") parts.texts, parts.images)
  | some _ => refuse (text "tool_result content must be text or a list of blocks")

/-- The names of the tools that were called, by id. -/
abbrev ToolNames :=
  OrderedMap Text Text

/-- The tool message of a `tool_result` block, and its images. -/
def toolResultMessage (toolNames : ToolNames) (block : Json) : Mapping (Message × List Part) := do
  let some id := nameField block "tool_use_id"
    | refuse (text "tool_result block without a tool_use_id")
  let (content, images) ← toolResultParts (block.get? (text "content"))
  let toolCallId ← mapId digest salts id
  return (.tool toolCallId content (toolNames.get? id), images)

/-- What the blocks of a user turn add up to. -/
structure UserParts where
  toolMessages : List Message
  parts : List Part

def userBlock (toolNames : ToolNames) (acc : UserParts) (raw : Json) : Mapping UserParts :=
  if !raw.isRecord then refuse (text "user content block is not an object")
  else match blockType? raw with
  | some .text => return { acc with parts := acc.parts ++ [.text (textOf raw)] }
  | some .image => do
    let image ← imagePart raw
    return { acc with parts := acc.parts ++ [image] }
  | some .toolResult => do
    let (message, images) ← toolResultMessage digest salts toolNames raw
    return ⟨acc.toolMessages ++ [message], acc.parts ++ images⟩
  | some .thinking | some .redactedThinking => return acc
  | _ => refuse (text "unsupported user content block " ++ describeType (raw.get? (text "type")))

/-- The user message of what is left of a user turn. -/
def leftover (acc : UserParts) : List Message :=
  match acc.parts with
  | [.text t] => [.user t]
  | [] => if acc.toolMessages = [] then [.user []] else []
  | parts => [.userParts parts]

/-- The messages of a user turn: the tool messages, then at most one user message. -/
def userMessages (turn : Json) (toolNames : ToolNames) : Mapping (List Message) :=
  match turn.get? (text "content") with
  | some (.str content) => return [.user content]
  | content => do
    let acc ← (blocksOf content).foldlM (userBlock digest salts toolNames) ⟨[], []⟩
    return acc.toolMessages ++ leftover acc

/-! ## The other fields -/

/-- A declared tool. -/
def mapTool (raw : Json) : Mapping ToolDeclaration :=
  if !raw.isRecord then refuse (text "tool declaration is not an object")
  else match nameField raw "name" with
  | none => refuse (text "tool declaration without a name")
  | some name =>
    return {
      name
      description := nameField raw "description"
      parameters := (Json.record? (raw.get? (text "input_schema"))).getD
        (.obj [(text "type", .str (text "object")), (text "properties", .obj [])]) }

/-- The declared tools; absent where there are none. -/
def mapTools (tools : Option Json) : Mapping (Option (List ToolDeclaration)) :=
  match blocksOf tools with
  | [] => return none
  | raws => do
    let declared ← raws.mapM mapTool
    return some declared

/-- The outbound spelling of a choice; one that is not recognised is dropped. -/
def mapToolChoice (choice : Option Json) : Option ToolChoice :=
  match choice with
  | some (.str s) =>
    if s = text "auto" then some .auto
    else if s = text "none" then some .none
    else if s = text "required" then some .required
    else none
  | some choice =>
    match stringField choice "type" with
    | some kind =>
      if kind = text "auto" then some .auto
      else if kind = text "any" then some .required
      else if kind = text "none" then some .none
      else if kind = text "tool" then (nameField choice "name").map .function
      else none
    | none => none
  | none => none

/-- The stop sequences that are strings; absent where there are none. -/
def stopSequences (raw : Option Json) : Option (List Text) :=
  match (blocksOf raw).filterMap fun s => Json.string? (some s) with
  | [] => none
  | sequences => some sequences

/-- `DEEPSEEK_EFFORT`. -/
def deepSeekEffortSpec (level : Text) : Option ThinkingSpec :=
  if level = text "none" then some .disabled
  else if level = text "low" then some (.effort .low)
  else if level = text "medium" then some (.effort .high)
  else if level = text "high" then some (.effort .high)
  else if level = text "xhigh" then some (.effort .max)
  else if level = text "max" then some (.effort .max)
  else none

/-- The effort a caller spells out. -/
def explicitEffort (body : Json) : Option Text :=
  ((Json.record? (body.get? (text "output_config"))).bind (stringField · "effort")).or
    ((Json.record? (body.get? (text "reasoning"))).bind (stringField · "effort"))

def deepSeekThinkingSpec (body : Json) (effort : Option EffortLevel) : Option ThinkingSpec :=
  let thinking := (Json.record? (body.get? (text "thinking"))).bind (stringField · "type")
  if thinking = some (text "disabled") then some .disabled
  else match explicitEffort body with
  | some level => deepSeekEffortSpec level
  | none =>
    match effort with
    | some level => deepSeekEffortSpec (text level.name)
    | none => if thinking = some (text "enabled") then none else some .disabled

def forcesToolChoice (toolChoice : Option ToolChoice) : Bool :=
  match toolChoice with
  | some .required | some (.function _) => true
  | _ => false

/-! ## Requests -/

/-- Records the names of the tools a turn calls. -/
def rememberToolNames (toolNames : ToolNames) (turn : Json) : ToolNames :=
  (blocksOf (turn.get? (text "content"))).foldl
    (fun names block =>
      if blockType? block = some .toolUse then
        match nameField block "id", nameField block "name" with
        | some id, some name => names.set id name
        | _, _ => names
      else names)
    toolNames

/-- What the turns so far have come to. -/
structure Conversation where
  messages : List Message
  toolNames : ToolNames
  unreplayable : Bool

/-- Was a tool called without a thought that can be passed back? -/
def isUnreplayable : Message → Bool
  | .assistant _ toolCalls reasoningContent => toolCalls ≠ [] && reasoningContent.isNone
  | _ => false

/-- `raw.role === "assistant"`. -/
def isAssistantTurn (turn : Json) : Bool :=
  stringField turn "role" = some (text "assistant")

def mapTurn (reasoning : ReasoningMode) (conversation : Conversation) (raw : Json) :
    Mapping Conversation :=
  if !raw.isRecord then refuse (text "message is not an object")
  else if isAssistantTurn raw then do
    let message ← assistantMessage digest salts raw reasoning
    return {
      messages := conversation.messages ++ [message]
      toolNames := rememberToolNames conversation.toolNames raw
      unreplayable := conversation.unreplayable
        || (decide (reasoning = .deepseek) && isUnreplayable message) }
  else do
    let messages ← userMessages digest salts raw conversation.toolNames
    return { conversation with messages := conversation.messages ++ messages }

/-- What is reported beside the request. -/
structure MappingReport where
  toolCallIdsRewritten : Option Nat
  thoughtSignatureSentinels : Option Nat
  deepSeekThinkingOverridden : Option Nat
  deriving DecidableEq

/-- The leading message of a system text. -/
def systemMessages (system : Option Json) : List Message :=
  if systemText system = [] then [] else [.system (systemText system)]

/-- The turns of a request. -/
def turnsOf (body : Json) : List Json :=
  blocksOf (body.get? (text "messages"))

/-- The state before the first turn. -/
def MappingState.start (opts : AnthropicToOpenAiOptions) : MappingState :=
  ⟨if opts.toolCallIds = .strict9 then some .empty else none,
    if opts.thoughtSignature = .sentinel then some 0 else none⟩

/-- The messages of a request, and whether a turn cannot be passed back. -/
def mapConversation (body : Json) (opts : AnthropicToOpenAiOptions) : Mapping Conversation :=
  (turnsOf body).foldlM (mapTurn digest salts opts.reasoning)
    ⟨systemMessages (body.get? (text "system")), .empty, false⟩

/-- The request that is sent, with the counts that are reported. -/
def mapRequest (body : Json) (opts : AnthropicToOpenAiOptions) :
    Mapping (OpenAiRequest × MappingReport) := do
  let conversation ← mapConversation digest salts body opts
  let state ← get
  let tools ← mapTools (body.get? (text "tools"))
  let toolChoice := tools.bind fun _ => mapToolChoice (body.get? (text "tool_choice"))
  let natural := deepSeekThinkingSpec body opts.effort
  let overridden := decide (natural ≠ some .disabled)
    && (forcesToolChoice toolChoice || conversation.unreplayable)
  return (
    { messages := conversation.messages
      model := opts.model
      stream := opts.stream.or
        (match body.get? (text "stream") with
          | some (.bool b) => some b
          | _ => none)
      maxTokens := Json.number? (body.get? (text "max_tokens"))
      temperature := Json.number? (body.get? (text "temperature"))
      topP := Json.number? (body.get? (text "top_p"))
      stop := stopSequences (body.get? (text "stop_sequences"))
      tools
      toolChoice
      thinking :=
        if opts.reasoning = .deepseek then if overridden then some .disabled else natural
        else none },
    { toolCallIdsRewritten := state.ids.map ToolCallIds.rewritten
      thoughtSignatureSentinels := state.sigs
      deepSeekThinkingOverridden :=
        if opts.reasoning = .deepseek then some (if overridden then 1 else 0) else none })

/-- The request body; what is not a record counts as an empty one. -/
def requestBody (reqJson : Json) : Json :=
  (Json.record? (some reqJson)).getD (.obj [])

/-- The outbound form of a request. -/
def anthropicRequestToOpenAi (reqJson : Json) (opts : AnthropicToOpenAiOptions) :
    Except Stop (OpenAiRequest × MappingReport) :=
  (mapRequest digest salts (requestBody reqJson) opts (.start opts)).map Prod.fst

end Mapper

end LlmRelay
