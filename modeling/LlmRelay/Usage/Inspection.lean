import LlmRelay.Usage.OutputEstimate

/-!
# Inspection of a response value

One JSON value of a response, a whole body or the data of one stream event, is inspected twice:
for the output the model wrote, and for the usage the provider reports.

## Main definitions

* `UsageProtocol`: the protocols that are observed;
* `inspectAnthropicOutput`, `inspectOpenAiOutput`: the output in a value;
* `usageRecords`, `inspectUsageRecord`: the reported usage in a value;
* `inspectJson`: both.

## Main results

* `Inspects`: an operation whose reported fields do not depend on the estimate, and which keeps
  the taint; `inspects_inspectJson`, `inspects_usage`.
-/

namespace LlmRelay

open Ecma

inductive UsageProtocol where
  | anthropicMessages
  | openaiChat
  deriving DecidableEq, Repr

/-- The fields of the accumulator that a provider can report. -/
inductive UsageField where
  | inputTokens
  | outputTokens
  | cachedInputTokens
  | cacheCreationInputTokens
  | cacheReadInputTokens
  | completionTokens
  deriving DecidableEq, Repr

def UsageAccumulator.assign (accumulator : UsageAccumulator) (n : Nat) :
    UsageField → UsageAccumulator
  | .inputTokens => { accumulator with inputTokens := some n }
  | .outputTokens => { accumulator with outputTokens := some n }
  | .cachedInputTokens => { accumulator with cachedInputTokens := some n }
  | .cacheCreationInputTokens => { accumulator with cacheCreationInputTokens := some n }
  | .cacheReadInputTokens => { accumulator with cacheReadInputTokens := some n }
  | .completionTokens => { accumulator with completionTokens := some n }

/-- A safe integer that is not negative. -/
def validCompletionTokens (value : Option Json) : Option Nat :=
  (Json.count? value).filter isSafeNat

def recordField (field : UsageField) (value : Option Json) (o : Observation) : Observation :=
  match validCompletionTokens value with
  | none => o
  | some n => { o with accumulator := o.accumulator.assign n field }

/-- An object, arrays included. -/
def asRecord (value : Option Json) : Option Json :=
  value.filter fun v => match v with
    | .arr _ | .obj _ => true
    | _ => false

/-- `value[key]` where the value may be `undefined`. -/
def fieldOf (value : Option Json) (key : String) : Option Json :=
  value.bind (·.get? (text key))

/-! ## The output of the Messages protocol -/

/-- The key of a stream under `keyPrefix`, by the index a value names. -/
def streamArgumentKey (keyPrefix : Text) (value : Option Json) (fallback : Text) : Text :=
  keyPrefix ++ text ":" ++ ((validCompletionTokens value).map Number.natText).getD fallback

def isAnthropicToolUseBlock (type : Option Json) : Bool :=
  type = some (.ofString "tool_use") || type = some (.ofString "server_tool_use")
    || type = some (.ofString "mcp_tool_use")

/-- A content block of a whole message. -/
def inspectBlock (o : Observation) (value : Json) : Observation :=
  match asRecord (some value) with
  | none => o
  | some block =>
    let type := block.get? (text "type")
    if type = some (.ofString "text") then recordOutputText (block.get? (text "text")) o
    else if type = some (.ofString "thinking") then
      recordOutputText (block.get? (text "thinking")) o
    else if isAnthropicToolUseBlock type then recordToolArguments (block.get? (text "input")) o
    else o

/-- The delta of a content block that is streamed under `key`. -/
def inspectAnthropicDelta (key : Text) (delta : Json) (o : Observation) : Observation :=
  let type := delta.get? (text "type")
  if type = some (.ofString "text_delta") then
    appendStreamedOutputText (key ++ text ":text") (delta.get? (text "text")) o
  else if type = some (.ofString "thinking_delta") then
    appendStreamedOutputText (key ++ text ":thinking") (delta.get? (text "thinking")) o
  else if type = some (.ofString "input_json_delta") then
    appendToolArguments key (delta.get? (text "partial_json")) o
  else o

def inspectAnthropicOutput (root : Json) (o : Observation) : Observation :=
  let type := root.get? (text "type")
  if type = some (.ofString "message") then
    match Json.array? (root.get? (text "content")) with
    | none => o
    | some blocks => blocks.foldl inspectBlock o
  else
    let key := streamArgumentKey (text "anthropic") (root.get? (text "index")) (text "unknown")
    if type = some (.ofString "content_block_start") then
      -- the authored arguments of a tool call arrive in deltas, not here
      let block := asRecord (root.get? (text "content_block"))
      let blockType := fieldOf block "type"
      if blockType = some (.ofString "text") then
        appendStreamedOutputText (key ++ text ":text") (fieldOf block "text") o
      else if blockType = some (.ofString "thinking") then
        appendStreamedOutputText (key ++ text ":thinking") (fieldOf block "thinking") o
      else o
    else if type = some (.ofString "content_block_stop") then
      flushStreamedOutputTextPrefix key (flushToolArguments o key)
    else if type = some (.ofString "content_block_delta") then
      match asRecord (root.get? (text "delta")) with
      | none => o
      | some delta => inspectAnthropicDelta key delta o
    else o

/-! ## The output of the Chat protocol -/

/-- A string of a message: streamed under `key` where there is one. -/
def recordOpenAiText (key : Option Text) (value : Option Json) (o : Observation) : Observation :=
  match key with
  | some key => appendStreamedOutputText key value o
  | none => recordOutputText value o

/-- The arguments of a tool call: streamed under `key` where there is one. -/
def recordOpenAiArguments (key : Option Text) (value : Option Json) (o : Observation) :
    Observation :=
  match key with
  | some key => appendToolArguments key value o
  | none => recordToolArguments value o

/-- A part of the content of a message, at its offset. -/
def inspectOpenAiPart (streamKeyPrefix : Option Text) (o : Observation) (part : Json × Nat) :
    Observation :=
  match asRecord (some part.1) with
  | none => o
  | some record =>
    let type := record.get? (text "type")
    if type = some (.ofString "text") ∨ type = some (.ofString "output_text") then
      recordOpenAiText
        (streamKeyPrefix.map fun p =>
          streamArgumentKey (p ++ text ":content") (record.get? (text "index"))
            (Number.natText part.2))
        (record.get? (text "text")) o
    else o

def inspectOpenAiContent (streamKeyPrefix : Option Text) (message : Json) (o : Observation) :
    Observation :=
  let content := message.get? (text "content")
  let o :=
    match content with
    | some (.str _) => recordOpenAiText (streamKeyPrefix.map (· ++ text ":content")) content o
    | some (.arr parts) => parts.zipIdx.foldl (inspectOpenAiPart streamKeyPrefix) o
    | _ => o
  -- two spellings of one text, never both
  let reasoningContent :=
    match message.get? (text "reasoning_content") with
    | some (.str s) => if s.length = 0 then message.get? (text "reasoning") else some (.str s)
    | _ => message.get? (text "reasoning")
  recordOpenAiText (streamKeyPrefix.map (· ++ text ":refusal")) (message.get? (text "refusal"))
    (recordOpenAiText (streamKeyPrefix.map (· ++ text ":reasoning")) reasoningContent o)

/-- A tool call of a message, at its offset. -/
def inspectOpenAiCall (streamKeyPrefix : Option Text) (o : Observation) (callAt : Json × Nat) :
    Observation :=
  let call := asRecord (some callAt.1)
  match asRecord (fieldOf call "function") with
  | none => o
  | some fn =>
    recordOpenAiArguments
      (streamKeyPrefix.map fun p =>
        streamArgumentKey p (fieldOf call "index") (Number.natText callAt.2))
      (fn.get? (text "arguments")) o

def inspectOpenAiTools (streamKeyPrefix : Option Text) (message : Json) (o : Observation) :
    Observation :=
  let functionCall := asRecord (message.get? (text "function_call"))
  let toolCalls := (Json.array? (message.get? (text "tool_calls"))).getD []
  let o :=
    match toolCalls, functionCall with
    | [], some functionCall =>
      recordOpenAiArguments (streamKeyPrefix.map (· ++ text ":function"))
        (functionCall.get? (text "arguments")) o
    | _, _ => o
  toolCalls.zipIdx.foldl (inspectOpenAiCall streamKeyPrefix) o

def inspectOpenAiMessage (streamKeyPrefix : Option Text) (value : Option Json) (o : Observation) :
    Observation :=
  match asRecord value with
  | none => o
  | some message =>
    inspectOpenAiTools streamKeyPrefix message (inspectOpenAiContent streamKeyPrefix message o)

/-- A choice of a completion, at its offset. -/
def inspectOpenAiChoice (streamed : Bool) (o : Observation) (choiceAt : Json × Nat) :
    Observation :=
  match asRecord (some choiceAt.1) with
  | none => o
  | some choice =>
    let keyPrefix :=
      streamArgumentKey (text "openai") (choice.get? (text "index")) (Number.natText choiceAt.2)
    let o := inspectOpenAiMessage none (choice.get? (text "message")) o
    let o := inspectOpenAiMessage (if streamed then some keyPrefix else none)
      (choice.get? (text "delta")) o
    let finishReason := choice.get? (text "finish_reason")
    if streamed && finishReason.isSome && finishReason ≠ some .null then
      flushStreamedOutputTextPrefix keyPrefix (flushToolArgumentsPrefix keyPrefix o)
    else o

def inspectOpenAiOutput (streamed : Bool) (root : Json) (o : Observation) : Observation :=
  match Json.array? (root.get? (text "choices")) with
  | none => o
  | some choices => choices.zipIdx.foldl (inspectOpenAiChoice streamed) o

/-! ## Reported usage -/

def usageRecords (value : Json) (protocol : UsageProtocol) : List Json :=
  match asRecord (some value) with
  | none => []
  | some root =>
    let rootUsage := asRecord (root.get? (text "usage"))
    let messageUsage :=
      if protocol = .anthropicMessages ∧ root.get? (text "type") = some (.ofString "message_start") then
        asRecord (fieldOf (asRecord (root.get? (text "message"))) "usage")
      else none
    rootUsage.toList ++ messageUsage.toList

def inspectUsageRecord (protocol : UsageProtocol) (o : Observation) (usage : Json) : Observation :=
  let field (key : String) := usage.get? (text key)
  match protocol with
  | .anthropicMessages =>
    let o := recordField .inputTokens (field "input_tokens") o
    let o := recordField .outputTokens (field "output_tokens") o
    let o := recordField .completionTokens (field "output_tokens") o
    let o := recordField .cacheCreationInputTokens (field "cache_creation_input_tokens") o
    recordField .cacheReadInputTokens (field "cache_read_input_tokens") o
  | .openaiChat =>
    let o := recordField .inputTokens (field "prompt_tokens") o
    let o := recordField .outputTokens (field "completion_tokens") o
    let o := recordField .completionTokens (field "completion_tokens") o
    match asRecord (field "prompt_tokens_details") with
    | none => o
    | some details => recordField .cachedInputTokens (details.get? (text "cached_tokens")) o

/-- The usage of a value, record by record. -/
def inspectUsage (protocol : UsageProtocol) (value : Json) (o : Observation) : Observation :=
  (usageRecords value protocol).foldl (inspectUsageRecord protocol) o

def inspectJson (protocol : UsageProtocol) (streamed : Bool) (value : Json) (o : Observation) :
    Observation :=
  let o :=
    match asRecord (some value), protocol with
    | some root, .anthropicMessages => inspectAnthropicOutput root o
    | some root, .openaiChat => inspectOpenAiOutput streamed root o
    | none, _ => o
  inspectUsage protocol value o

/-! ## What an inspection leaves alone -/

/-- What the operation reports does not depend on the estimate, and it keeps the taint. -/
structure Inspects (f : Observation → Observation) : Prop where
  reported : ∀ o o', o.reported = o'.reported → (f o).reported = (f o').reported
  tainted : ∀ o, o.Tainted → (f o).Tainted

theorem EstimatesOnly.inspects {f : Observation → Observation} (h : EstimatesOnly f) :
    Inspects f where
  reported o o' heq := by rw [h.reported, h.reported, heq]
  tainted := h.tainted

namespace Inspects

theorem comp {f g : Observation → Observation} (hf : Inspects f) (hg : Inspects g) :
    Inspects fun o => f (g o) where
  reported _ _ h := hf.reported _ _ (hg.reported _ _ h)
  tainted _ h := hf.tainted _ (hg.tainted _ h)

theorem foldl {α : Type*} {f : Observation → α → Observation}
    (h : ∀ a, Inspects fun o => f o a) (l : List α) : Inspects fun o => l.foldl f o := by
  induction l with
  | nil => exact EstimatesOnly.id.inspects
  | cons a l ih => exact ih.comp (h a)

end Inspects

theorem estimatesOnly_inspectBlock (value : Json) : EstimatesOnly (inspectBlock · value) := by
  unfold inspectBlock
  split
  · exact .id
  dsimp only
  split
  · exact estimatesOnly_recordOutputText _
  split
  · exact estimatesOnly_recordOutputText _
  split
  · exact estimatesOnly_recordToolArguments _
  · exact .id

theorem estimatesOnly_inspectAnthropicDelta (key : Text) (delta : Json) :
    EstimatesOnly (inspectAnthropicDelta key delta) := by
  unfold inspectAnthropicDelta
  dsimp only
  split
  · exact estimatesOnly_appendStreamedOutputText _ _
  split
  · exact estimatesOnly_appendStreamedOutputText _ _
  split
  · exact estimatesOnly_appendToolArguments _ _
  · exact .id

theorem estimatesOnly_inspectAnthropicOutput (root : Json) :
    EstimatesOnly (inspectAnthropicOutput root) := by
  unfold inspectAnthropicOutput
  dsimp only
  split
  · split
    · exact .id
    · exact .foldl estimatesOnly_inspectBlock _
  split
  · split
    · exact estimatesOnly_appendStreamedOutputText _ _
    split
    · exact estimatesOnly_appendStreamedOutputText _ _
    · exact .id
  split
  · exact (estimatesOnly_flushStreamedOutputTextPrefix _).comp (estimatesOnly_flushToolArguments _)
  split
  · split
    · exact .id
    · exact estimatesOnly_inspectAnthropicDelta _ _
  · exact .id

theorem estimatesOnly_recordOpenAiText (key : Option Text) (value : Option Json) :
    EstimatesOnly (recordOpenAiText key value) := by
  unfold recordOpenAiText
  split
  · exact estimatesOnly_appendStreamedOutputText _ _
  · exact estimatesOnly_recordOutputText _

theorem estimatesOnly_recordOpenAiArguments (key : Option Text) (value : Option Json) :
    EstimatesOnly (recordOpenAiArguments key value) := by
  unfold recordOpenAiArguments
  split
  · exact estimatesOnly_appendToolArguments _ _
  · exact estimatesOnly_recordToolArguments _

variable (streamKeyPrefix : Option Text)

theorem estimatesOnly_inspectOpenAiPart (part : Json × Nat) :
    EstimatesOnly (inspectOpenAiPart streamKeyPrefix · part) := by
  unfold inspectOpenAiPart
  split
  · exact .id
  dsimp only
  split
  · exact estimatesOnly_recordOpenAiText _ _
  · exact .id

theorem estimatesOnly_inspectOpenAiContent (message : Json) :
    EstimatesOnly (inspectOpenAiContent streamKeyPrefix message) := by
  refine (estimatesOnly_recordOpenAiText _ _).comp
    ((estimatesOnly_recordOpenAiText _ _).comp ?_)
  split
  · exact estimatesOnly_recordOpenAiText _ _
  · exact .foldl (estimatesOnly_inspectOpenAiPart _) _
  · exact .id

theorem estimatesOnly_inspectOpenAiCall (callAt : Json × Nat) :
    EstimatesOnly (inspectOpenAiCall streamKeyPrefix · callAt) := by
  unfold inspectOpenAiCall
  dsimp only
  split
  · exact .id
  · exact estimatesOnly_recordOpenAiArguments _ _

theorem estimatesOnly_inspectOpenAiTools (message : Json) :
    EstimatesOnly (inspectOpenAiTools streamKeyPrefix message) := by
  refine (EstimatesOnly.foldl (estimatesOnly_inspectOpenAiCall _) _).comp ?_
  split
  · exact estimatesOnly_recordOpenAiArguments _ _
  · exact .id

theorem estimatesOnly_inspectOpenAiMessage (value : Option Json) :
    EstimatesOnly (inspectOpenAiMessage streamKeyPrefix value) := by
  unfold inspectOpenAiMessage
  split
  · exact .id
  · exact (estimatesOnly_inspectOpenAiTools _ _).comp (estimatesOnly_inspectOpenAiContent _ _)

theorem estimatesOnly_inspectOpenAiChoice (streamed : Bool) (choiceAt : Json × Nat) :
    EstimatesOnly (inspectOpenAiChoice streamed · choiceAt) := by
  unfold inspectOpenAiChoice
  split
  · exact .id
  rename_i choice _
  have hmessages := (estimatesOnly_inspectOpenAiMessage
    (if streamed then some (streamArgumentKey (text "openai") (choice.get? (text "index"))
      (Number.natText choiceAt.2)) else none) (choice.get? (text "delta"))).comp
    (estimatesOnly_inspectOpenAiMessage none (choice.get? (text "message")))
  dsimp only
  split
  · exact ((estimatesOnly_flushStreamedOutputTextPrefix _).comp
      (estimatesOnly_flushToolArgumentsPrefix _)).comp hmessages
  · exact hmessages

theorem estimatesOnly_inspectOpenAiOutput (streamed : Bool) (root : Json) :
    EstimatesOnly (inspectOpenAiOutput streamed root) := by
  unfold inspectOpenAiOutput
  split
  · exact .id
  · exact .foldl (estimatesOnly_inspectOpenAiChoice _) _

theorem inspects_recordField (field : UsageField) (value : Option Json) :
    Inspects (recordField field value) := by
  unfold recordField
  split
  · exact EstimatesOnly.id.inspects
  · rename_i n _
    have hreported : ∀ o : Observation,
        Observation.reported { o with accumulator := o.accumulator.assign n field }
          = o.reported.assign n field := by
      intro o
      cases field <;> rfl
    refine ⟨fun o o' h => by rw [hreported, hreported, h], fun o h => ⟨h.overflow, ?_⟩⟩
    have habsent := h.absent
    cases field <;> exact habsent

variable (protocol : UsageProtocol)

theorem inspects_inspectUsageRecord (usage : Json) :
    Inspects (inspectUsageRecord protocol · usage) := by
  unfold inspectUsageRecord
  dsimp only
  split
  · exact (((inspects_recordField _ _).comp (inspects_recordField _ _)).comp
      (inspects_recordField _ _)).comp
        ((inspects_recordField _ _).comp (inspects_recordField _ _))
  · have htokens := ((inspects_recordField .completionTokens
      (usage.get? (text "completion_tokens"))).comp (inspects_recordField .outputTokens
      (usage.get? (text "completion_tokens")))).comp
        (inspects_recordField .inputTokens (usage.get? (text "prompt_tokens")))
    split
    · exact htokens
    · exact (inspects_recordField _ _).comp htokens

/-- **Reading the usage of a value is an inspection.** -/
theorem inspects_usage (value : Json) : Inspects (inspectUsage protocol value) :=
  .foldl (inspects_inspectUsageRecord protocol) _

/-- **Inspecting a value is an inspection.** -/
theorem inspects_inspectJson (streamed : Bool) (value : Json) :
    Inspects (inspectJson protocol streamed value) := by
  refine (inspects_usage _ _).comp (EstimatesOnly.inspects ?_)
  split
  · exact estimatesOnly_inspectAnthropicOutput _
  · exact estimatesOnly_inspectOpenAiOutput _ _
  · exact .id

end LlmRelay
