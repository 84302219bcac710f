import LlmRelay.Messages.OpenAiRequest

/-!
# Responses requests as Anthropic requests

The request mapper of the Responses front (`responses-request.ts`): the input items of an
OpenAI Responses request become the turns of an Anthropic request, where consecutive items
of one role share a turn, and what cannot be represented is refused.

## Main definitions

* `Block`, `Turn`, `AnthropicRequest`: the outbound request;
* `contentBlocks`, `toolUseBlock`, `toolResultBlock`: the blocks of an item;
* `Collector`: the turn accumulator;
* `openaiResponsesRequestToAnthropic`: the whole request.
-/

namespace LlmRelay

namespace Responses

open Ecma

/-! ## Outbound requests -/

inductive Role where
  | user | assistant
  deriving DecidableEq

inductive ImageSource where
  | base64 (mediaType data : Text)
  | url (url : Text)
  deriving DecidableEq

/-- A block of text, of an image, or of a document, which is a base64 PDF. -/
inductive ContentBlock where
  | text (text : Text)
  | image (source : ImageSource)
  | document (data : Text)
  deriving DecidableEq

/-- The content of a tool result. -/
inductive ToolResultContent where
  | string (content : Text)
  | blocks (content : List ContentBlock)
  deriving DecidableEq

/-- A block of a turn. -/
inductive Block where
  | content (block : ContentBlock)
  | toolUse (id name : Text) (input : Json)
  | toolResult (toolUseId : Text) (content : ToolResultContent)
  | thinking (thinking : Text)
  deriving DecidableEq

structure Turn where
  role : Role
  content : List Block
  deriving DecidableEq

/-- A declared tool. -/
structure ToolDeclaration where
  name : Text
  description : Option Text
  inputSchema : Json
  deriving DecidableEq

inductive ToolChoiceType where
  | auto | any | none
  | tool (name : Text)
  deriving DecidableEq

structure ToolChoice where
  type : ToolChoiceType
  disableParallelToolUse : Bool
  deriving DecidableEq

structure AnthropicRequest where
  messages : List Turn
  maxTokens : Option Number
  model : Option Text
  system : Option Text
  tools : Option (List ToolDeclaration)
  toolChoice : Option ToolChoice
  temperature : Option Number
  topP : Option Number
  stream : Option Bool
  deriving DecidableEq

/-- A result, or the message of a `RequestMappingError`. -/
abbrev Mapped := Except Text

/-! ## Content parts -/

/-- `DATA_URL`: the media type and the payload of a base64 data link. -/
def dataUrl? (url : Text) : Option (Text × Text) :=
  if !url.startsWith (text "data:") then none
  else
    let rest := url.drop (text "data:").length
    let mediaType := rest.takeWhile fun c => c ∉ text ";,"
    let tail := rest.drop mediaType.length
    if mediaType = [] || !Text.startsWith tail (text ";base64,") then none
    else some (mediaType, tail.drop (text ";base64,").length)

/-- Does the link begin with `http://` or `https://`, in any case? -/
def isHttpUrl (url : Text) : Bool :=
  let lower (c : CodeUnit) : CodeUnit := if 0x41 ≤ c && c ≤ 0x5A then c + 0x20 else c
  let folded := (url.take (text "https://").length).map lower
  Text.startsWith folded (text "http://") || folded = text "https://"

/-- The link of an image part. -/
def imageUrlOf (part : Json) : Text :=
  match part.get? (text "image_url") with
  | some (.str url) => url
  | some raw => (stringField raw "url").getD []
  | none => []

/-- The block of an `input_image` part. -/
def imageBlock (part : Json) : Mapped ContentBlock :=
  let url := imageUrlOf part
  if url = [] then throw (text "input_image without an image_url")
  else match dataUrl? url with
  | some (mediaType, data) => return .image (.base64 mediaType data)
  | none =>
    if isHttpUrl url then return .image (.url url)
    else throw (text "input_image url must be a base64 data URL or an http(s) URL")

/-- The block of an `input_file` part. -/
def documentBlock (part : Json) : Mapped ContentBlock :=
  match dataUrl? ((stringField part "file_data").getD []) with
  | some (mediaType, data) =>
    if mediaType = text "application/pdf" then return .document data
    else throw (text "input_file has no Anthropic representation; only a base64 application/pdf data URL in file_data is carried")
  | none =>
    throw (text "input_file has no Anthropic representation; only a base64 application/pdf data URL in file_data is carried")

inductive PartType where
  | inputText | outputText | text | refusal | inputImage | inputFile
  deriving DecidableEq

def PartType.name : PartType → String
  | inputText => "input_text"
  | outputText => "output_text"
  | text => "text"
  | refusal => "refusal"
  | inputImage => "input_image"
  | inputFile => "input_file"

/-- The type of a part; absent for a type that no branch names. -/
def partType? (part : Json) : Option PartType :=
  LlmRelay.ofName? PartType.name
    [.inputText, .outputText, .text, .refusal, .inputImage, .inputFile]
    (part.get? (Ecma.text "type"))

/-- Where a content list stands: whether it may hold documents, and its name in an error. -/
structure ContentOptions where
  documents : Bool
  context : Text

/-- The block of a text that is not empty. -/
def textBlocks (content : Option Text) : List ContentBlock :=
  (content.filter (· ≠ [])).toList.map .text

/-- The blocks of one part of a content list. -/
def contentPart (opts : ContentOptions) (raw : Json) : Mapped (List ContentBlock) :=
  if !raw.isRecord then throw (opts.context ++ text " content part is not an object")
  else match partType? raw with
  | some .inputText | some .outputText | some .text => return textBlocks (stringField raw "text")
  | some .refusal => return textBlocks (stringField raw "refusal")
  | some .inputImage => do return [← imageBlock raw]
  | some .inputFile =>
    if !opts.documents then
      throw (opts.context ++ text " carries text and images only, not an input_file")
    else do return [← documentBlock raw]
  | none =>
    throw (opts.context ++ text " carries an unsupported Responses content part "
      ++ describeType (raw.get? (text "type")))

/-- The blocks of a content field. -/
def contentBlocks (content : Option Json) (opts : ContentOptions) : Mapped (List ContentBlock) :=
  match content with
  | none | some .null => return []
  | some (.str s) => return textBlocks (some s)
  | some (.arr parts) =>
    parts.foldlM (fun blocks raw => return blocks ++ (← contentPart opts raw)) []
  | some _ => throw (opts.context ++ text " content must be a string or a list of parts")

/-- The text of one part of a system item. -/
def systemPart (raw : Json) : Mapped (List Text) :=
  if !raw.isRecord then throw (text "a system/developer content part is not an object")
  else match partType? raw with
  | some .inputText | some .outputText | some .text =>
    return ((stringField raw "text").filter (· ≠ [])).toList
  | _ =>
    throw (text "a system/developer item carries an unsupported "
      ++ describeType (raw.get? (text "type")) ++ text " part; Anthropic system is text only")

/-- The text that a system item contributes. -/
def systemTextOf (content : Option Json) : Mapped Text :=
  match content with
  | none | some .null => return []
  | some (.str s) => return s
  | some (.arr parts) => do
    let texts ← parts.foldlM (fun texts raw => return texts ++ (← systemPart raw)) []
    return Text.join (text "\n") texts
  | some _ => throw (text "a system/developer item's content must be a string or a list of parts")

/-! ## Calls and results -/

/-- The input object of a call. -/
def toolArguments (raw : Option Json) (name callId : Text) : Mapped Json :=
  match raw with
  | none | some .null => return .obj []
  | some (.obj fields) => return .obj fields
  | some (.str s) =>
    if s.trim = [] then return .obj []
    else match Json.parse s with
    | none =>
      throw (text "function_call " ++ describeType (some (.str name)) ++ text " (call_id "
        ++ callId ++ text ") arguments are not valid JSON: the string was cut, most likely by an output-token cap; repair or drop that item and retry")
    | some parsed =>
      if parsed.isRecord then return parsed
      else
        throw (text "function_call " ++ describeType (some (.str name))
          ++ text " arguments are not a JSON object")
  | some _ =>
    throw (text "function_call " ++ describeType (some (.str name))
      ++ text " arguments are neither a string nor an object")

/-- The block of a `function_call` item. -/
def toolUseBlock (item : Json) : Mapped Block := do
  let some id := nameField item "call_id" | throw (text "function_call without a call_id")
  let some name := nameField item "name" | throw (text "function_call without a name")
  let input ← toolArguments (item.get? (text "arguments")) name id
  return .toolUse id name input

/-- The content of a result; nothing stated is the empty string. -/
def toolResultContent (output : Option Json) : Mapped ToolResultContent :=
  match output with
  | none | some .null => return .string []
  | some (.str s) => return .string s
  | some (.arr parts) => do
    let blocks ← contentBlocks (some (.arr parts)) ⟨false, text "a tool result"⟩
    return if blocks = [] then .string [] else .blocks blocks
  | some _ => throw (text "function_call_output output must be a string or a list of parts")

/-- The block of a `function_call_output` item. -/
def toolResultBlock (item : Json) : Mapped Block := do
  let some id := nameField item "call_id" | throw (text "function_call_output without a call_id")
  return .toolResult id (← toolResultContent (item.get? (text "output")))

/-! ## The turn accumulator -/

/-- The turns so far, the turn in progress with the blocks at its head apart, and the parts
of the system text. -/
structure Collector where
  messages : List Turn
  role : Option Role
  leading : List Block
  trailing : List Block
  systemParts : List Text

namespace Collector

/-- Ends the turn in progress; a turn without a block is not emitted. -/
def flush (c : Collector) : Collector :=
  let content := c.leading ++ c.trailing
  let messages := match c.role with
    | some role => if content = [] then c.messages else c.messages ++ [⟨role, content⟩]
    | none => c.messages
  { c with messages, role := none, leading := [], trailing := [] }

/-- Adds blocks to the turn of a role; `first` puts them at its head. -/
def push (c : Collector) (next : Role) (blocks : List Block) (first : Bool) : Collector :=
  if blocks = [] then c
  else
    let c := if c.role ≠ some next then { c.flush with role := some next } else c
    if first then { c with leading := c.leading ++ blocks }
    else { c with trailing := c.trailing ++ blocks }

def addSystemText (c : Collector) (text : Text) : Collector :=
  { c with systemParts := c.systemParts ++ [text] }

end Collector

/-- The stated text of a `reasoning` item. -/
def reasoningSummaryText (item : Json) : Text :=
  Text.join (text "\n\n") ((blocksOf (item.get? (text "summary"))).filterMap fun raw =>
    if stringField raw "type" = some (text "summary_text") then nameField raw "text" else none)

/-- The options of a message of a role. -/
def messageOptions : Role → ContentOptions
  | .user => ⟨true, text "a user message"⟩
  | .assistant => ⟨false, text "an assistant message"⟩

/-- The role that carries an input role into a turn. -/
def turnRole? (role : Text) : Option Role :=
  if role = text "user" then some .user
  else if role = text "assistant" then some .assistant
  else none

/-- A `message` item, or one without a type. -/
def processMessageItem (c : Collector) (raw : Json) : Mapped Collector :=
  match stringField raw "role" with
  | none =>
    throw (if stringField raw "type" = some (text "message") then text "message item without a role"
      else text "input item has neither a type nor a role")
  | some role =>
    if role = text "system" || role = text "developer" then do
      let stated ← systemTextOf (raw.get? (text "content"))
      return if stated = [] then c else c.addSystemText stated
    else match turnRole? role with
    | none =>
      throw (text "unsupported Responses input role " ++ describeType (raw.get? (text "role")))
    | some role => do
      let blocks ← contentBlocks (raw.get? (text "content")) (messageOptions role)
      return c.push role (blocks.map .content) false

/-- One input item. -/
def processResponsesInputItem (reasoning : ReasoningMode) (c : Collector) (raw : Json) :
    Mapped Collector :=
  if !raw.isRecord then throw (text "input item is not an object")
  else match stringField raw "type" with
  | none => processMessageItem c raw
  | some type =>
    if type = text "function_call" then do
      return c.push .assistant [← toolUseBlock raw] false
    else if type = text "function_call_output" then do
      return c.push .user [← toolResultBlock raw] true
    else if type = text "reasoning" then
      -- dropped by default, without ending the turn in progress
      let stated := reasoningSummaryText raw
      if reasoning = .deepseek ∧ stated ≠ [] then
        return c.push .assistant [.thinking stated] true
      else return c
    else if type = text "message" then processMessageItem c raw
    else
      throw (text "unsupported Responses input item " ++ describeType (raw.get? (text "type")))

/-- The input of a request. -/
def processInput (reasoning : ReasoningMode) (c : Collector) (input : Option Json) :
    Mapped Collector :=
  match input with
  | none | some .null => return c
  | some (.str s) => do
    let blocks ← contentBlocks (some (.str s)) (messageOptions .user)
    return c.push .user (blocks.map .content) false
  | some (.arr items) => items.foldlM (processResponsesInputItem reasoning) c
  | some _ => throw (text "input must be a string or a list of items")

/-! ## The other fields -/

/-- The input schema of a declaration; an object schema without a type gets one. -/
def inputSchemaOf (parameters : Option Json) : Json :=
  match parameters with
  | some (.obj fields) =>
    if ((Json.obj fields).get? (text "type")).isSome then .obj fields
    else
      .obj (fields.foldl (fun out field => setProperty out field.1 field.2)
        [(text "type", .str (text "object"))])
  | _ => .obj [(text "type", .str (text "object")), (text "properties", .obj [])]

/-- A declared tool; a declaration of a hosted tool is dropped. -/
def mapTool (raw : Json) : Mapped (List ToolDeclaration) :=
  if !raw.isRecord then throw (text "tool declaration is not an object")
  else if raw.get? (text "type") ≠ none ∧ stringField raw "type" ≠ some (text "function") then
    return []
  else match nameField raw "name" with
  | none => throw (text "function tool declaration without a name")
  | some name =>
    return [⟨name, nameField raw "description", inputSchemaOf (raw.get? (text "parameters"))⟩]

/-- The declared tools; absent where there are none. -/
def mapTools (tools : Option Json) : Mapped (Option (List ToolDeclaration)) :=
  match tools with
  | none | some .null => return none
  | some (.arr raws) => do
    let out ← raws.foldlM (fun out raw => return out ++ (← mapTool raw)) []
    return if out = [] then none else some out
  | some _ => throw (text "tools must be a list of tool declarations")

/-- The outbound spelling of a choice; one that is not recognised is dropped. -/
def mapToolChoice (choice : Option Json) : Option ToolChoiceType :=
  match choice with
  | some (.str s) =>
    if s = text "auto" then some .auto
    else if s = text "required" then some .any
    else if s = text "none" then some .none
    else none
  | some choice =>
    match stringField choice "type" with
    | some kind =>
      if kind = text "function" then (nameField choice "name").map .tool
      else if kind = text "auto" then some .auto
      else if kind = text "none" then some .none
      else none
    | none => none
  | none => none

/-- The choice with the switch for parallel calls, where one can be called. -/
def toolChoiceOf (body : Json) : Option ToolChoice :=
  (mapToolChoice (body.get? (text "tool_choice"))).map fun type =>
    ⟨type, decide (body.get? (text "parallel_tool_calls") = some (.bool false) ∧ type ≠ .none)⟩

def booleanField (body : Json) (key : String) : Option Bool :=
  match body.get? (text key) with
  | some (.bool b) => some b
  | _ => none

/-! ## Requests -/

/-- Does a request ask for what no Anthropic request can say? -/
def unsupportedRequest? (body : Json) : Option Text :=
  if (nameField body "previous_response_id").isSome then
    some (text "previous_response_id is not supported: this relay stores no responses, so the conversation prefix it names would be silently dropped")
  else
    match (Json.record? (body.get? (text "text"))).bind (·.get? (text "format")) with
    | some format =>
      let type := stringField format "type"
      if type = some (text "json_schema") ∨ type = some (text "json_object") then
        some (text "text.format " ++ describeType (format.get? (text "type"))
          ++ text " has no Anthropic Messages equivalent; dropping it would return prose to a caller that parses JSON")
      else none
    | none => none

/-- Before the first item: the instructions are the first part of the system text. -/
def Collector.initial (body : Json) : Collector where
  messages := []
  role := none
  leading := []
  trailing := []
  systemParts := (nameField body "instructions").toList

/-- The Anthropic request of a Responses request. -/
def openaiResponsesRequestToAnthropic (reqJson : Json) (reasoning : ReasoningMode) :
    Mapped AnthropicRequest := do
  let body := (Json.record? (some reqJson)).getD (.obj [])
  if let some message := unsupportedRequest? body then throw message
  let collected ← processInput reasoning (.initial body) (body.get? (text "input"))
  let c := collected.flush
  let tools ← mapTools (body.get? (text "tools"))
  return {
    messages := c.messages
    maxTokens := Json.number? (body.get? (text "max_output_tokens"))
    model := nameField body "model"
    system := if c.systemParts = [] then none else some (Text.join (text "\n") c.systemParts)
    tools
    toolChoice := tools.bind fun _ => toolChoiceOf body
    temperature := Json.number? (body.get? (text "temperature"))
    topP := Json.number? (body.get? (text "top_p"))
    stream := booleanField body "stream" }

end Responses

end LlmRelay
