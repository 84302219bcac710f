import LlmRelay.Dialects.ChatRecovery
import LlmRelay.Dialects.StreamAgreement

/-!
# Chat streams agree with buffered recovery

The chat wrapper on a stream with one choice whose content arrives in deltas.

## Main definitions

* `ChatPush.prose`: the content a push forwards;
* `ChatTextStream`: the frames of a chat stream with one choice that ends
  normally;
* `ChatRescued`: the wrapper after some of the deltas.

## Main results

* `chatRescued_delta`, `chatRescued_deltas`: one delta, and a run of them;
* `recoverDialectInOpenAiChatStream_agrees`: what the chat wrapper writes.
-/

namespace LlmRelay

open Ecma

/-! ## Forwarded content -/

/-- The choices of a record. -/
def choicesOf (data : Json) : List Json :=
  (Json.array? (data.get? (text "choices"))).getD []

/-- The content a choice carries, if there is a choice. -/
def choiceProse (choice : Option Json) : Text :=
  (choice.bind choiceContent).getD []

/-- The content a record carries. -/
def dataProse (data : Json) : Text :=
  (choicesOf data).flatMap fun c => choiceProse (some c)

/-- The content a push forwards. -/
def ChatPush.prose : ChatPush → Text
  | raw frame =>
    match (parseChatEvent frame).data with
    | .record data => dataProse data
    | _ => []
  | event _ data => (data.map dataProse).getD []

/-- The content several pushes forward. -/
def proseOf (ps : List ChatPush) : Text :=
  ps.flatMap ChatPush.prose

@[simp] theorem proseOf_nil : proseOf [] = [] := rfl

@[simp] theorem proseOf_append (ps qs : List ChatPush) :
    proseOf (ps ++ qs) = proseOf ps ++ proseOf qs :=
  List.flatMap_append

@[simp] theorem proseOf_singleton (p : ChatPush) : proseOf [p] = p.prose := by
  simp [proseOf]

theorem choicesOf_withChoices (data : Json) (choices : List Json) :
    choicesOf (withChoices data choices) = choices := by
  simp [choicesOf, withChoices, get?_withField, Json.array?]

theorem prose_event (eventName : Text) (data choice : Json) :
    (ChatPush.event eventName (some (withChoices data [choice]))).prose
      = choiceProse (some choice) := by
  simp [ChatPush.prose, dataProse, choicesOf_withChoices]

variable (choice : Json)

theorem choiceContent_withContent (content : Text) :
    choiceContent (withContent choice content) = some content := by
  rw [choiceContent, withContent, get?_withField, if_pos rfl, record?_withField, Option.bind_some,
    get?_withField]
  rfl

variable {choice : Json} {whole part : Text} {c : ChoiceState}

theorem choiceContent_withoutContent {rest : Json} (h : withoutContent choice = some rest) :
    choiceContent rest = none := by
  unfold withoutContent at h
  cases hd : Json.record? (choice.get? (text "delta")) with
  | none =>
    simp only [hd, Option.some.injEq] at h
    rw [← h, choiceContent, hd]
    rfl
  | some delta =>
    simp only [hd] at h
    split at h
    · have habsent : lookupEntry (text "content")
          ((recordFields (some delta)).filter fun p => p.1 != text "content") = none := by
        rw [lookupEntry_eq_none_iff]
        intro hmem
        obtain ⟨p, hp, hkey⟩ := List.mem_map.mp hmem
        have := (List.mem_filter.mp hp).2
        simp [hkey] at this
      rw [← Option.some.inj h, choiceContent, get?_withField]
      simp [Json.record?, Json.get?, habsent, Json.string?]
    · cases h

theorem choiceProse_withoutContent : choiceProse (withoutContent choice) = [] := by
  cases hw : withoutContent choice with
  | none => rfl
  | some rest =>
    rw [choiceProse, Option.bind_some, choiceContent_withoutContent hw]
    rfl

theorem choiceContent_eq_deltaOf :
    choiceContent choice = Json.string? ((deltaOf choice).get? (text "content")) := by
  unfold choiceContent deltaOf
  cases Json.record? (choice.get? (text "delta")) <;> rfl

theorem choiceProse_withoutFinishReason (output : Option Json) :
    choiceProse (output.bind withoutFinishReason) = choiceProse output := by
  cases output with
  | none => rfl
  | some choice =>
    rw [Option.bind_some, choiceProse, choiceProse, Option.bind_some, withoutFinishReason]
    split
    · rename_i hempty
      rw [choiceContent_eq_deltaOf, get?_eq_lookupEntry, hempty]
      rfl
    · have hne : text "finish_reason" ≠ text "delta" := by decide
      rw [Option.bind_some, choiceContent, get?_withField, if_neg hne, choiceContent,
        get?_eq_lookupEntry]

/-! ## One choice of an event -/

/-- What is pushed for an event with one choice. -/
def outputOf (raw eventName : Text) (data : Json) (output : Option Json) (modified : Bool) :
    List ChatPush :=
  if !modified then [.raw raw]
  else if output.toList = [] then []
  else [.event eventName (some (withChoices data output.toList))]

theorem proseOf_outputOf {raw : Text} (eventName : Text) (data : Json) {output : Option Json}
    {modified : Bool} (h : modified = false → (ChatPush.raw raw).prose = choiceProse output) :
    proseOf (outputOf raw eventName data output modified) = choiceProse output := by
  cases modified with
  | false =>
    rw [← h rfl]
    simp [outputOf]
  | true =>
    cases output with
    | none => simp [outputOf, choiceProse]
    | some choice => simp [outputOf, prose_event]

/-- The state of a choice in the middle of its text. -/
structure ChoiceRescued (whole part : Text) (c : ChoiceState) : Prop where
  finished : c.finished = false
  text : c.text = part
  phase :
    (c.capturing = false ∧ (scanForMarker part).hit = false
        ∧ c.emittedLen = (scanForMarker part).safeLen)
      ∨ (c.capturing = true ∧ ∃ k, markerStart whole = some k ∧ c.emittedLen = k
        ∧ k ≤ part.length ∧ c.envelope = part.drop k)

theorem ChoiceRescued.emittedLen_le (h : ChoiceRescued whole part c) :
    c.emittedLen ≤ part.length := by
  rcases h.phase with ⟨-, -, hlen⟩ | ⟨-, k, -, hlen, hle, -⟩
  · rw [hlen]
    exact safeLen_le_length part
  · rw [hlen]
    exact hle

theorem choiceProse_safe (safe : Text) :
    choiceProse (if safe = [] then none else some (withContent choice safe)) = safe := by
  by_cases hsafe : safe = []
  · rw [hsafe]
    rfl
  · rw [if_neg hsafe, choiceProse, Option.bind_some, choiceContent_withContent]
    rfl

/-- **One content delta**: the choice goes on, and what is forwarded extends the
prose to the new end. -/
theorem receiveContent_spec {content : Text} (h : ChoiceRescued whole part c)
    (hwhole : part ++ content <+: whole) (hsplit : ¬ SplitsMarker whole part.length)
    (hcontent : choiceContent choice = some content) :
    let r := receiveContent c choice content
    ChoiceRescued whole (part ++ content) r.1
      ∧ part.take c.emittedLen ++ choiceProse r.2.1 = (part ++ content).take r.1.emittedLen
      ∧ (r.2.2 = false → choiceProse r.2.1 = content) := by
  intro r
  have hle := h.emittedLen_le
  rcases h.phase with ⟨hcap, hmiss, hlen⟩ | ⟨hcap, k, hk, hlen, hkle, henv⟩
  · by_cases hhit : (scanForMarker (part ++ content)).hit = true
    · -- the first marker has landed
      obtain ⟨k, hk, hkpart, hsafe, hkle⟩ := markerStart_of_first_hit hwhole hmiss hhit hsplit
      have hr : r = ({ c with
          text := part ++ content, emittedLen := k, capturing := true,
          envelope := (part ++ content).drop k },
          if ((part ++ content).take k).drop c.emittedLen = [] then none
          else some (withContent choice (((part ++ content).take k).drop c.emittedLen)), true) := by
        simp only [r, receiveContent, hcap, h.text, hhit, if_true, Bool.false_eq_true, if_false,
          hkpart, Option.getD_some]
      rw [hr]
      refine ⟨⟨h.finished, rfl, .inr ⟨rfl, k, hk, rfl, hkle, rfl⟩⟩, ?_, fun hmod => by cases hmod⟩
      rw [choiceProse_safe]
      exact take_forward hle (hlen ▸ hsafe)
    · -- the safe part is forwarded, in the frame itself when it is all of the content
      have hmiss' : (scanForMarker (part ++ content)).hit = false := by simpa using hhit
      have hmono := safeLen_mono hmiss hmiss'
      obtain ⟨safe, hsafe⟩ : ∃ safe, safe
          = ((part ++ content).take (scanForMarker (part ++ content)).safeLen).drop c.emittedLen :=
        ⟨_, rfl⟩
      have hr : r = ({ c with
          text := part ++ content, emittedLen := (scanForMarker (part ++ content)).safeLen },
          if safe = [] then none
          else some (if (decide (safe = content) && decide (c.emittedLen = part.length)) = true
            then choice else withContent choice safe),
          !(decide (safe = content) && decide (c.emittedLen = part.length))) := by
        simp only [r, receiveContent, hcap, h.text, hmiss', Bool.false_eq_true, if_false, ← hsafe]
      have hprose : choiceProse r.2.1 = safe := by
        rw [hr]
        split
        · rename_i hempty
          rw [hempty]
          rfl
        · split
          · rename_i hunchanged
            simp only [Bool.and_eq_true, decide_eq_true_eq] at hunchanged
            rw [choiceProse, Option.bind_some, hcontent, hunchanged.1]
            rfl
          · rw [choiceProse, Option.bind_some, choiceContent_withContent]
            rfl
      rw [hprose]
      refine ⟨?_, ?_, ?_⟩
      · rw [hr]
        exact ⟨h.finished, rfl, .inl ⟨hcap, hmiss', rfl⟩⟩
      · rw [hr, hsafe]
        exact take_forward hle (hlen ▸ hmono)
      · intro hmod
        rw [hr] at hmod
        simp only [Bool.not_eq_false', Bool.and_eq_true, decide_eq_true_eq] at hmod
        exact hmod.1
  · -- the envelope grows
    have hr : r = ({ c with text := part ++ content, envelope := c.envelope ++ content },
        withoutContent choice, true) := by
      simp only [r, receiveContent, hcap, h.text, if_true]
    rw [hr]
    refine ⟨⟨h.finished, rfl, .inr ⟨hcap, k, hk, hlen, ?_, ?_⟩⟩, ?_, fun hmod => by cases hmod⟩
    · rw [List.length_append]
      omega
    · rw [List.drop_append_of_le_length hkle, ← henv]
    · rw [choiceProse_withoutContent, List.append_nil, List.take_append_of_le_length hle]

theorem receiveChoice_spec (h : ChoiceRescued whole part c)
    (hwhole : part ++ choiceProse (some choice) <+: whole)
    (hsplit : ¬ SplitsMarker whole part.length) :
    let r := receiveChoice c choice
    ChoiceRescued whole (part ++ choiceProse (some choice)) r.1
      ∧ part.take c.emittedLen ++ choiceProse r.2.1
        = (part ++ choiceProse (some choice)).take r.1.emittedLen
      ∧ (r.2.2 = false → choiceProse r.2.1 = choiceProse (some choice)) := by
  intro r
  have hopen : ¬ c.finished = true := by simp [h.finished]
  cases hcontent : choiceContent choice with
  | some content =>
    have hprose : choiceProse (some choice) = content := by
      rw [choiceProse, Option.bind_some, hcontent]
      rfl
    have hr : r = receiveContent c choice content := by
      simp only [r, receiveChoice, if_neg hopen, hcontent]
    rw [hprose] at hwhole ⊢
    rw [hr]
    exact receiveContent_spec h hwhole hsplit hcontent
  | none =>
    have hprose : choiceProse (some choice) = [] := by
      rw [choiceProse, Option.bind_some, hcontent]
      rfl
    have hr : r = (c, some choice, false) := by
      simp only [r, receiveChoice, if_neg hopen, hcontent]
    rw [hr, hprose, List.append_nil, List.append_nil]
    exact ⟨h, rfl, fun _ => rfl⟩

/-! ## Frames of a chat stream -/

section Stream

variable (schemas : ToolSchemas) (isDestructive : Text → Bool)
  (processRecovered : Option RecoveredOpenAiChatProcessor)

/-- A frame with one choice. -/
structure IsChoiceFrame (raw : Text) (index : Number) (data choice : Json) : Prop where
  record : (parseChatEvent raw).data = .record data
  noError : hasRecord data (text "error") = false
  choices : Json.array? (data.get? (text "choices")) = some [choice]
  isRecord : choice.isRecord = true
  atIndex : (Json.number? (choice.get? (text "index"))).getD (.fin ((0 : Nat) : ℚ)) = index

/-- A frame the wrapper only passes on: no data, or no choices. -/
def IsPassiveChat (raw : Text) : Prop :=
  (parseChatEvent raw).data = .none
    ∨ ∃ data, (parseChatEvent raw).data = .record data ∧ choicesOf data = []

/-- A frame before the end of the choice: it adds to the content, or it is passed
on. -/
def IsChatText (index : Number) (frame : SseFrame) (delta : Text) : Prop :=
  (∃ data choice, IsChoiceFrame frame.raw index data choice
      ∧ isPresent (choice.get? (text "finish_reason")) = false ∧ choiceProse (some choice) = delta)
    ∨ IsPassiveChat frame.raw ∧ delta = []

/-- No envelope of the text exceeds the limit. -/
def EnvelopeFits (whole : Text) : Prop :=
  ∀ k, markerStart whole = some k → (encodeUtf8 (whole.drop k)).length ≤ STREAM_PREFLIGHT_LIMIT

variable {raw whole part : Text} {index : Number} {data choice : Json} {c : ChoiceState}
  {s : ChatState}

theorem IsChoiceFrame.prose (h : IsChoiceFrame raw index data choice) :
    (ChatPush.raw raw).prose = choiceProse (some choice) := by
  simp [ChatPush.prose, h.record, dataProse, choicesOf, h.choices]

theorem IsPassiveChat.prose (h : IsPassiveChat raw) : (ChatPush.raw raw).prose = [] := by
  rcases h with hnone | ⟨data, hdata, hchoices⟩
  · simp [ChatPush.prose, hnone]
  · simp [ChatPush.prose, hdata, dataProse, hchoices]

theorem ChoiceRescued.not_exceeded (h : ChoiceRescued whole part c) (hpart : part <+: whole)
    (hfits : EnvelopeFits whole) :
    (c.capturing && decide (STREAM_PREFLIGHT_LIMIT < (encodeUtf8 c.envelope).length)) = false := by
  rcases h.phase with ⟨hcap, -⟩ | ⟨-, k, hk, -, hkle, henv⟩
  · simp [hcap]
  · obtain ⟨rest, rfl⟩ := hpart
    have hle := encodeUtf8_length_append (part.drop k) rest
    have hlimit := hfits k hk
    rw [List.drop_append_of_le_length hkle] at hlimit
    rw [henv, decide_eq_false (by omega), Bool.and_false]

/-- A choice takes a frame; the frame is remembered as its latest. -/
def received (s : ChatState) (index : Number) (data choice : Json) :
    ChoiceState × Option Json × Bool :=
  receiveChoice { s.stateFor index with lastChunk := some data, lastChoice := some choice } choice

variable (hterm : s.terminated = false)

include hterm

theorem processEvent_text (h : IsChoiceFrame raw index data choice)
    (hlimit : let c := (received s index data choice).1
      (c.capturing && decide (STREAM_PREFLIGHT_LIMIT < (encodeUtf8 c.envelope).length)) = false)
    (hfinish : isPresent (choice.get? (text "finish_reason")) = false) :
    let r := received s index data choice
    let name := (parseChatEvent raw).eventName
    processEvent schemas isDestructive processRecovered s raw
      = ((s.named name).setState index r.1).pushAll (outputOf raw name data r.2.1 r.2.2) := by
  intro r name
  have hopen : ¬ s.terminated = true := by simp [hterm]
  have hrecord : (!choice.isRecord) = false := by rw [h.isRecord]; rfl
  have hpass : ¬ (hasRecord data (text "error") = true ∨ [choice] = []) := by simp [h.noError]
  have hname : name = (parseChatEvent raw).eventName := rfl
  have hstate : (s.named name).stateFor index = s.stateFor index := rfl
  unfold processEvent
  simp only [if_neg hopen, h.record, h.choices, Option.getD_some, if_neg hpass]
  have hchoice : processChoice schemas isDestructive processRecovered data name
      ⟨s.named name, false, [], [], false⟩ (choice, 0)
      = ⟨(s.named name).setState index r.1, r.2.2, r.2.1.toList, [], false⟩ := by
    unfold processChoice
    simp only [hrecord, h.atIndex, hstate]
    dsimp only [received] at hlimit
    simp only [hlimit, hfinish]
    rfl
  have hfold : [choice].zipIdx.foldl (processChoice schemas isDestructive processRecovered data name)
      ⟨s.named name, false, [], [], false⟩ = _ := hchoice
  rw [hfold]
  simp only [List.append_nil]
  rfl

theorem processEvent_finish (h : IsChoiceFrame raw index data choice)
    (hlimit : let c := (received s index data choice).1
      (c.capturing && decide (STREAM_PREFLIGHT_LIMIT < (encodeUtf8 c.envelope).length)) = false)
    (hopen : (received s index data choice).1.finished = false)
    (hfinish : isPresent (choice.get? (text "finish_reason")) = true) :
    let r := received s index data choice
    let name := (parseChatEvent raw).eventName
    let settled := settleChoice schemas isDestructive processRecovered
      ((s.named name).setState index r.1) index name
    processEvent schemas isDestructive processRecovered s raw
      = if settled.2.terminated then settled.2
        else settled.2.pushAll (outputOf raw name data
          (if settled.1.isEmpty then r.2.1 else r.2.1.bind withoutFinishReason) true
            ++ settled.1) := by
  intro r name settled
  have hterm' : ¬ s.terminated = true := by simp [hterm]
  have hrecord : (!choice.isRecord) = false := by rw [h.isRecord]; rfl
  have hpass : ¬ (hasRecord data (text "error") = true ∨ [choice] = []) := by simp [h.noError]
  have hname : name = (parseChatEvent raw).eventName := rfl
  have hstate : (s.named name).stateFor index = s.stateFor index := rfl
  unfold processEvent
  simp only [if_neg hterm', h.record, h.choices, Option.getD_some, if_neg hpass]
  have hchoice : processChoice schemas isDestructive processRecovered data name
      ⟨s.named name, false, [], [], false⟩ (choice, 0)
      = if settled.2.terminated then ⟨settled.2, false, [], [], true⟩
        else ⟨settled.2, true,
          (if settled.1.isEmpty then r.2.1 else r.2.1.bind withoutFinishReason).toList,
          settled.1, false⟩ := by
    unfold processChoice
    simp only [hrecord, h.atIndex, hstate]
    dsimp only [received] at hlimit hopen
    simp only [hlimit, hfinish, hopen, List.nil_append]
    rfl
  have hfold : [choice].zipIdx.foldl (processChoice schemas isDestructive processRecovered data name)
      ⟨s.named name, false, [], [], false⟩ = _ := hchoice
  rw [hfold]
  by_cases hended : settled.2.terminated = true
  · simp only [if_pos hended, if_true]
  · simp only [if_neg hended]
    rfl

theorem processEvent_passive (h : IsPassiveChat raw) :
    processEvent schemas isDestructive processRecovered s raw
      = (s.named (parseChatEvent raw).eventName).pushAll [.raw raw] := by
  have hopen : ¬ s.terminated = true := by simp [hterm]
  unfold processEvent
  rw [if_neg hopen]
  rcases h with hnone | ⟨data, hdata, hchoices⟩
  · simp only [hnone]
  · unfold choicesOf at hchoices
    simp only [hdata, hchoices, or_true, if_true]

omit hterm

/-! ## The text of the choice -/

/-- The wrapper in the middle of the text of its only choice. -/
structure ChatRescued (whole : Text) (index : Number) (part : Text) (s : ChatState) : Prop where
  terminated : s.terminated = false
  keys : ∀ i ∈ s.states.keys, i = index
  choice : ChoiceRescued whole part (s.stateFor index)
  forwarded : proseOf s.pushes = part.take (s.stateFor index).emittedLen

section Fields

variable (s : ChatState) (index : Number) (c : ChoiceState) (eventName : Text) (ps : List ChatPush)

@[simp] theorem stateFor_setState : (s.setState index c).stateFor index = c := by
  simp [ChatState.stateFor, ChatState.setState]

@[simp] theorem stateFor_named : (s.named eventName).stateFor index = s.stateFor index := rfl

@[simp] theorem stateFor_pushAll : (s.pushAll ps).stateFor index = s.stateFor index := rfl

@[simp] theorem terminated_named : (s.named eventName).terminated = s.terminated := rfl

@[simp] theorem terminated_setState : (s.setState index c).terminated = s.terminated := rfl

@[simp] theorem terminated_pushAll : (s.pushAll ps).terminated = s.terminated := rfl

@[simp] theorem states_named : (s.named eventName).states = s.states := rfl

@[simp] theorem terminated_sentinel : s.sentinel.terminated = s.terminated := rfl

@[simp] theorem states_sentinel : s.sentinel.states = s.states := rfl

@[simp] theorem stateFor_sentinel : s.sentinel.stateFor index = s.stateFor index := rfl

@[simp] theorem states_pushAll : (s.pushAll ps).states = s.states := rfl

@[simp] theorem pushes_named : (s.named eventName).pushes = s.pushes := rfl

@[simp] theorem pushes_setState : (s.setState index c).pushes = s.pushes := rfl

@[simp] theorem pushes_pushAll : (s.pushAll ps).pushes = s.pushes ++ ps := rfl

end Fields

theorem keys_setState (h : ∀ i ∈ s.states.keys, i = index) (c : ChoiceState) :
    ∀ i ∈ (s.setState index c).states.keys, i = index := by
  intro i hi
  rcases mem_keys_setEntry.mp hi with heq | hmem
  · exact heq
  · exact h i hmem

theorem received_spec (data : Json) (h : ChatRescued whole index part s)
    (hwhole : part ++ choiceProse (some choice) <+: whole)
    (hsplit : ¬ SplitsMarker whole part.length) :
    let r := received s index data choice
    ChoiceRescued whole (part ++ choiceProse (some choice)) r.1
      ∧ part.take (s.stateFor index).emittedLen ++ choiceProse r.2.1
        = (part ++ choiceProse (some choice)).take r.1.emittedLen
      ∧ (r.2.2 = false → choiceProse r.2.1 = choiceProse (some choice)) := by
  have hc : ChoiceRescued whole part
      { s.stateFor index with lastChunk := some data, lastChoice := some choice } :=
    ⟨h.choice.finished, h.choice.text, h.choice.phase⟩
  exact receiveChoice_spec hc hwhole hsplit

/-- **One frame of the text.** -/
theorem chatRescued_text {delta : Text} {f : SseFrame} (h : ChatRescued whole index part s)
    (hf : IsChatText index f delta) (hwhole : part ++ delta <+: whole)
    (hsplit : ¬ SplitsMarker whole part.length) (hfits : EnvelopeFits whole) :
    ChatRescued whole index (part ++ delta)
      (processEvent schemas isDestructive processRecovered s f.raw) := by
  rcases hf with ⟨data, choice, hframe, hfinish, rfl⟩ | ⟨hpassive, rfl⟩
  · obtain ⟨hchoice, hprose, hraw⟩ := received_spec data h hwhole hsplit
    rw [processEvent_text schemas isDestructive processRecovered h.terminated hframe
      (hchoice.not_exceeded hwhole hfits) hfinish]
    refine ⟨by simpa using h.terminated, ?_, ?_, ?_⟩
    · rw [states_pushAll]
      exact keys_setState (by simpa using h.keys) _
    · rw [stateFor_pushAll, stateFor_setState]
      exact hchoice
    · have hout := proseOf_outputOf (parseChatEvent f.raw).eventName data fun hmod =>
        hframe.prose.trans (hraw hmod).symm
      rw [pushes_pushAll, pushes_setState, pushes_named, stateFor_pushAll, stateFor_setState,
        proseOf_append, h.forwarded, hout, hprose]
  · rw [processEvent_passive schemas isDestructive processRecovered h.terminated hpassive,
      List.append_nil]
    refine ⟨by simpa using h.terminated, by simpa using h.keys, by simpa using h.choice, ?_⟩
    rw [pushes_pushAll, pushes_named, stateFor_pushAll, stateFor_named, proseOf_append,
      proseOf_singleton, hpassive.prose, List.append_nil, h.forwarded]

/-- **The wrapper after the text.** The induction is on the frames still to come. -/
theorem chatRescued_texts {last : Text} {fs : List SseFrame} {deltas : List Text}
    (h : ChatRescued whole index part s) (hfs : List.Forall₂ (IsChatText index) fs deltas)
    (hwhole : part ++ deltas.flatten ++ last = whole)
    (hclean : ∀ a b, deltas = a ++ b → ¬ SplitsMarker whole (part ++ a.flatten).length)
    (hfits : EnvelopeFits whole) :
    ChatRescued whole index (part ++ deltas.flatten)
      (fs.foldl (fun s f => processEvent schemas isDestructive processRecovered s f.raw) s) := by
  induction hfs generalizing part s with
  | nil =>
    rw [List.flatten_nil, List.append_nil]
    exact h
  | @cons f delta fs deltas hf _ ih =>
    rw [List.flatten_cons, ← List.append_assoc]
    rw [List.flatten_cons, ← List.append_assoc] at hwhole
    refine ih ?_ hwhole ?_
    · refine chatRescued_text schemas isDestructive processRecovered h hf ?_ ?_ hfits
      · exact ⟨deltas.flatten ++ last, by rw [← List.append_assoc, hwhole]⟩
      · have := hclean [] (delta :: deltas) rfl
        rwa [List.flatten_nil, List.append_nil] at this
    · intro a b hab
      have := hclean (delta :: a) b (by rw [hab]; rfl)
      rwa [List.flatten_cons, ← List.append_assoc] at this

theorem chatRescued_new (whole : Text) (index : Number) :
    ChatRescued whole index [] .new where
  terminated := rfl
  keys := nofun
  choice := ⟨rfl, rfl, .inl ⟨rfl, by decide +kernel,
    show 0 = (scanForMarker []).safeLen by decide +kernel⟩⟩
  forwarded := rfl

/-! ## The end of the choice -/

theorem receiveChoice_last (c : ChoiceState) (choice : Json) :
    (receiveChoice c choice).1.lastChunk = c.lastChunk
      ∧ (receiveChoice c choice).1.lastChoice = c.lastChoice := by
  unfold receiveChoice
  split
  · exact ⟨rfl, rfl⟩
  · split
    · unfold receiveContent
      dsimp only
      split
      · exact ⟨rfl, rfl⟩
      · split <;> exact ⟨rfl, rfl⟩
    · exact ⟨rfl, rfl⟩

/-- A choice that has ended. -/
structure ChoiceEnded (index : Number) (s : ChatState) : Prop where
  terminated : s.terminated = false
  keys : ∀ i ∈ s.states.keys, i = index
  finished : (s.stateFor index).finished = true

theorem settleChoice_of_miss (eventName : Text) {chunk : Json} (hc : s.stateFor index = c)
    (hopen : c.finished = false) (hcap : c.capturing = false) (hchunk : c.lastChunk = some chunk)
    (hchoice : c.lastChoice = some choice) :
    let tail := c.text.drop c.emittedLen
    settleChoice schemas isDestructive processRecovered s index eventName
      = (if tail = [] then []
          else [.event eventName (some (withChoices chunk [withContent choice tail]))],
        s.setState index { c.finish with emittedLen := c.text.length }) := by
  intro tail
  unfold settleChoice
  rw [hc, if_neg (by simp [hopen]), if_neg (by simp [hcap]), hchunk, hchoice]
  dsimp only
  split <;> rfl

theorem settleChoice_of_hit (eventName : Text) {chunk : Json} (hc : s.stateFor index = c)
    (hopen : c.finished = false) (hcap : c.capturing = true) (hchunk : c.lastChunk = some chunk)
    (hchoice : c.lastChoice = some choice) :
    let out := recoverToolCalls c.envelope schemas isDestructive
    let ended := s.setState index c.finish
    settleChoice schemas isDestructive processRecovered s index eventName
      = match settleOutcome processRecovered index out with
        | .error error => ([], (ended.onRefused out.isRefusal).fail error)
        | .ok (dialect, recovered) =>
          (recoveredEvents chunk choice recovered eventName, ended.onRecovered dialect) := by
  intro out ended
  unfold settleChoice
  dsimp only
  rewrite [hc, if_neg (by simp [hopen]), if_pos hcap, hchunk, hchoice]
  cases settleOutcome processRecovered index (recoverToolCalls c.envelope schemas isDestructive) <;>
    rfl

/-- What the wrapper has written when the choice has ended. -/
def ChatSettled (whole : Text) (index : Number) (data choice : Json) (eventName : Text)
    (forwarded : Nat) (s : ChatState) : Prop :=
  match markerStart whole with
  | none => ChoiceEnded index s ∧ proseOf s.pushes = whole
  | some k =>
    match settleOutcome processRecovered index
        (recoverToolCalls (whole.drop k) schemas isDestructive) with
    | .error error => s.terminated = true
        ∧ ∃ ps, s.pushes = ps ++ [error] ∧ proseOf ps = whole.take forwarded
    | .ok (_, recovered) => ChoiceEnded index s
        ∧ ∃ ps, s.pushes = ps ++ recoveredEvents data choice recovered eventName
          ∧ proseOf ps = whole.take k

/-- **The frame that ends the choice**: what was held back is released, or the
recovery settles the rest of the text. -/
theorem chatRescued_finish {f : SseFrame} (h : ChatRescued whole index part s)
    (hf : IsChoiceFrame f.raw index data choice)
    (hfinish : isPresent (choice.get? (text "finish_reason")) = true)
    (hwhole : part ++ choiceProse (some choice) = whole)
    (hsplit : ¬ SplitsMarker whole part.length) (hfits : EnvelopeFits whole) :
    ChatSettled schemas isDestructive processRecovered whole index data choice
      (parseChatEvent f.raw).eventName (s.stateFor index).emittedLen
      (processEvent schemas isDestructive processRecovered s f.raw) := by
  have hprefix : part ++ choiceProse (some choice) <+: whole := ⟨[], by rw [List.append_nil, hwhole]⟩
  obtain ⟨hchoice, hprose, -⟩ := received_spec data h hprefix hsplit
  have hevent := processEvent_finish schemas isDestructive processRecovered h.terminated hf
    (hchoice.not_exceeded hprefix hfits) hchoice.finished hfinish
  obtain ⟨hchunk, hlast⟩ := receiveChoice_last
    { s.stateFor index with lastChunk := some data, lastChoice := some choice } choice
  rw [hwhole] at hchoice hprose
  -- from here on the choice that took the frame is a variable
  generalize hname : (parseChatEvent f.raw).eventName = name at hevent ⊢
  have hr : received s index data choice = receiveChoice _ choice := rfl
  rw [← hr] at hchunk hlast
  generalize received s index data choice = r at *
  dsimp only at hevent
  generalize hs' : (s.named name).setState index r.1 = s' at hevent
  have hstate : s'.stateFor index = r.1 := by rw [← hs', stateFor_setState]
  have hpushes : s'.pushes = s.pushes := by rw [← hs', pushes_setState, pushes_named]
  have hterm : s'.terminated = false := by
    rw [← hs', terminated_setState, terminated_named, h.terminated]
  have hkeys : ∀ i ∈ s'.states.keys, i = index := by
    rw [← hs']
    exact keys_setState (by simpa using h.keys) r.1
  have htake : part.take (s.stateFor index).emittedLen
      = whole.take (s.stateFor index).emittedLen := by
    rw [← hwhole, List.take_append_of_le_length h.choice.emittedLen_le]
  rcases hchoice.phase with ⟨hcap, hmiss, hlen⟩ | ⟨hcap, k, hk, hlen, -, henv⟩
  · -- nothing was withheld for good
    have hsettled := settleChoice_of_miss schemas isDestructive processRecovered name
      hstate hchoice.finished hcap hchunk hlast
    rw [hchoice.text] at hsettled
    rw [hsettled] at hevent
    unfold ChatSettled
    rw [markerStart_eq_none hmiss, hevent]
    rw [if_neg (by rw [terminated_setState, hterm]; decide)]
    refine ⟨⟨by simpa using hterm, ?_, ?_⟩, ?_⟩
    · rw [states_pushAll]
      exact keys_setState hkeys _
    · rw [stateFor_pushAll, stateFor_setState]
      rfl
    · have hout : ∀ o, choiceProse o = choiceProse r.2.1 →
          proseOf (outputOf f.raw name data o true) = choiceProse r.2.1 := fun o ho =>
        (proseOf_outputOf name data (fun hmod => by cases hmod)).trans ho
      have htail : proseOf (if whole.drop r.1.emittedLen = [] then []
          else [.event name (some (withChoices data
            [withContent choice (whole.drop r.1.emittedLen)]))]) = whole.drop r.1.emittedLen := by
        split
        · rename_i hempty
          rw [hempty]
          rfl
        · rw [proseOf_singleton, prose_event, choiceProse, Option.bind_some,
            choiceContent_withContent]
          rfl
      rw [pushes_pushAll, pushes_setState, hpushes, proseOf_append, proseOf_append, h.forwarded,
        htail, hout, ← List.append_assoc, hprose, List.take_append_drop]
      split
      · rfl
      · exact choiceProse_withoutFinishReason r.2.1
  · -- the recovery settles the envelope
    have hsettled := settleChoice_of_hit schemas isDestructive processRecovered name
      hstate hchoice.finished hcap hchunk hlast
    dsimp only at hsettled
    rw [henv] at hsettled
    unfold ChatSettled
    rw [hk]
    dsimp only
    generalize hout : settleOutcome processRecovered index
      (recoverToolCalls (whole.drop k) schemas isDestructive) = outcome at hsettled ⊢
    cases outcome with
    | error error =>
      dsimp only at hsettled ⊢
      have hfail : ∀ t : ChatState, t.terminated = false → t.fail error
          = { t with terminated := true, pushes := t.pushes ++ [error] } := by
        intro t ht
        rw [ChatState.fail, if_neg (by simp [ht])]
      have hterm' : ∀ refusal, ((s'.setState index r.1.finish).onRefused refusal).terminated
          = false := fun _ => hterm
      rw [hfail _ (hterm' _)] at hsettled
      rw [hsettled] at hevent
      rw [hevent]
      refine ⟨rfl, s'.pushes, rfl, ?_⟩
      rw [hpushes, h.forwarded, htake]
    | ok p =>
      obtain ⟨dialect, recovered⟩ := p
      dsimp only at hsettled ⊢
      have hne : (recoveredEvents data choice recovered name).isEmpty = false := by
        simp [recoveredEvents]
      rw [hsettled] at hevent
      rw [if_neg (by rw [ChatState.onRecovered, ChatState.setState, hterm]; decide), hne] at hevent
      rw [hevent]
      refine ⟨⟨hterm, keys_setState hkeys _, ?_⟩,
        s'.pushes ++ outputOf f.raw name data (r.2.1.bind withoutFinishReason) true, ?_, ?_⟩
      · rw [stateFor_pushAll]
        show ((s'.setState index r.1.finish).stateFor index).finished = true
        rw [stateFor_setState]
        rfl
      · rw [List.append_assoc]
        rfl
      · rw [proseOf_append, hpushes, h.forwarded, proseOf_outputOf name data (fun hmod => by cases hmod),
          choiceProse_withoutFinishReason, hprose, hlen]

/-! ## The end of the stream -/

theorem settleAll_ended (eventName : Text) {indices : List Number} (hterm : s.terminated = false)
    (h : ∀ i ∈ indices, (s.stateFor i).finished = true) :
    settleAll schemas isDestructive processRecovered s eventName indices = s := by
  induction indices with
  | nil => rfl
  | cons i indices ih =>
    have hsettled : settleChoice schemas isDestructive processRecovered s i eventName = ([], s) := by
      unfold settleChoice
      rw [if_pos (h i (by simp))]
    have hpush : s.pushAll [] = s := by
      simp [ChatState.pushAll]
    rw [settleAll]
    simp only [hsettled, hpush, hterm]
    exact ih fun j hj => h j (by simp [hj])

theorem ChoiceEnded.all_finished (h : ChoiceEnded index s) :
    ∀ i ∈ s.states.keys, (s.stateFor i).finished = true := by
  intro i hi
  rw [h.keys i hi]
  exact h.finished

theorem processEvent_terminated (h : s.terminated = true) :
    processEvent schemas isDestructive processRecovered s raw = s := by
  unfold processEvent
  rw [if_pos h]

theorem foldl_terminated (h : s.terminated = true) (fs : List SseFrame) :
    fs.foldl (fun s f => processEvent schemas isDestructive processRecovered s f.raw) s = s := by
  induction fs with
  | nil => rfl
  | cons f fs ih => rw [List.foldl_cons, processEvent_terminated _ _ _ h, ih]

variable (h : ChoiceEnded index s)

include h

theorem choiceEnded_after {fs : List SseFrame} (hfs : ∀ f ∈ fs, IsPassiveChat f.raw) :
    let last := fs.foldl (fun s f => processEvent schemas isDestructive processRecovered s f.raw) s
    ChoiceEnded index last ∧ last.pushes = s.pushes ++ fs.map fun f => .raw f.raw := by
  induction fs generalizing s with
  | nil => exact ⟨h, by simp⟩
  | cons f fs ih =>
    rw [List.foldl_cons, processEvent_passive schemas isDestructive processRecovered h.terminated
      (hfs f (by simp))]
    have hnext : ChoiceEnded index ((s.named (parseChatEvent f.raw).eventName).pushAll
        [.raw f.raw]) :=
      ⟨by simpa using h.terminated, by simpa using h.keys, by simpa using h.finished⟩
    obtain ⟨hlast, hpushes⟩ := ih hnext fun f' hf' => hfs f' (by simp [hf'])
    refine ⟨hlast, ?_⟩
    rw [hpushes, pushes_pushAll]
    simp

theorem choiceEnded_done (hraw : (parseChatEvent raw).data = .done) :
    let last := processEvent schemas isDestructive processRecovered s raw
    ChoiceEnded index last ∧ last.pushes = s.pushes ++ [.raw raw] := by
  intro last
  have hopen : ¬ s.terminated = true := by simp [h.terminated]
  obtain ⟨t, ht⟩ : ∃ t, t = (s.named (parseChatEvent raw).eventName).sentinel := ⟨_, rfl⟩
  have hended : ChoiceEnded index t := by
    rw [ht]
    exact ⟨by simpa using h.terminated, by simpa using h.keys, by simpa using h.finished⟩
  have hlast : last = t.pushAll [.raw raw] := by
    have hsettled := settleAll_ended schemas isDestructive processRecovered
      (parseChatEvent raw).eventName hended.terminated hended.all_finished
    rw [ht, states_sentinel] at hsettled
    simp only [last, processEvent, if_neg hopen, hraw, hsettled]
    rw [if_neg (by simpa using hopen), ht]
  rw [hlast]
  refine ⟨⟨?_, ?_, ?_⟩, ?_⟩
  · rw [terminated_pushAll, hended.terminated]
  · rw [states_pushAll]
    exact hended.keys
  · rw [stateFor_pushAll, hended.finished]
  · rw [ht]
    rfl

theorem finishChat_ended : finishChat schemas isDestructive processRecovered s = s := by
  have hopened : (s.states.keys.filter fun i =>
      (s.stateFor i).capturing && !(s.stateFor i).finished) = [] := by
    rw [List.filter_eq_nil_iff]
    intro i hi
    simp [h.all_finished i hi]
  unfold finishChat
  rw [hopened, settleAll_ended schemas isDestructive processRecovered _ h.terminated h.all_finished]
  simp

end Stream

/-! ## A whole stream -/

/-- The content of the frame that ends a choice, when there is any. -/
def finalDelta (choice : Json) : List Text :=
  if choiceProse (some choice) = [] then [] else [choiceProse (some choice)]

theorem flatten_finalDelta : (finalDelta choice).flatten = choiceProse (some choice) := by
  unfold finalDelta
  split
  · rename_i hempty
    rw [hempty]
    rfl
  · simp

theorem ChoiceRescued.emittedLen_whole {k : Nat} (h : ChoiceRescued whole whole c)
    (hk : markerStart whole = some k) : c.emittedLen = k := by
  rcases h.phase with ⟨-, hmiss, -⟩ | ⟨-, k', hk', hlen, -, -⟩
  · rw [markerStart_eq_none hmiss] at hk
    cases hk
  · rw [hk', Option.some.injEq] at hk
    rw [hlen, hk]

/-- A chat stream with one choice that ends normally: frames of its text, the frame
with the finish reason, and the sentinel. -/
structure ChatTextStream (upstream : ByteStream) (index : Number) (deltas : List Text) where
  texts : List SseFrame
  heads : List Text
  last : SseFrame
  data : Json
  choice : Json
  after : List SseFrame
  done : SseFrame
  ending : upstream.ending = .done
  shape : (decodedFrames upstream.bytes).drain.1 = texts ++ last :: after ++ [done]
  complete : ((decodedFrames upstream.bytes).drain.2.takeRemainder
    (Utf8Decoder.new.decode upstream.bytes).1.flush).1 = []
  texts_heads : List.Forall₂ (IsChatText index) texts heads
  last_choice : IsChoiceFrame last.raw index data choice
  last_finish : isPresent (choice.get? (text "finish_reason")) = true
  deltas_eq : deltas = heads ++ finalDelta choice
  after_passive : ∀ f ∈ after, IsPassiveChat f.raw
  done_sentinel : (parseChatEvent done.raw).data = .done

/-- The wrapper forwards the text before the envelope, or the whole text, and hands
the rest to the recovery. An error ends the stream; when it comes with a frame that
carries content itself, that content is lost. -/
def ChatAgrees (schemas : ToolSchemaMap) (isDestructive : Text → Bool)
    (processRecovered : Option RecoveredOpenAiChatProcessor) {upstream : ByteStream}
    {index : Number} {deltas : List Text} (h : ChatTextStream upstream index deltas) : Prop :=
  ∃ s ps, recoverDialectInOpenAiChatStream upstream schemas isDestructive processRecovered
      = .closed s ∧
    let tail := h.after.map (fun f => .raw f.raw) ++ [.raw h.done.raw]
    match markerStart deltas.flatten with
    | none => proseOf ps = deltas.flatten ∧ s.pushes = ps ++ tail
    | some k =>
      match settleOutcome processRecovered index
          (recoverToolCalls (deltas.flatten.drop k) (recoverySchemas schemas) isDestructive) with
      | .error error => s.pushes = ps ++ [error]
          ∧ (finalDelta h.choice = [] → proseOf ps = deltas.flatten.take k)
      | .ok (_, recovered) => proseOf ps = deltas.flatten.take k
          ∧ s.pushes = ps ++ recoveredEvents h.data h.choice recovered
              (parseChatEvent h.last.raw).eventName ++ tail

/-- **The chat wrapper agrees with the buffered recovery.** -/
theorem recoverDialectInOpenAiChatStream_agrees {upstream : ByteStream} {index : Number}
    {deltas : List Text} {schemas : ToolSchemaMap} (isDestructive : Text → Bool)
    (processRecovered : Option RecoveredOpenAiChatProcessor)
    (h : ChatTextStream upstream index deltas) (hclean : CleanCut deltas)
    (hfits : EnvelopeFits deltas.flatten) (hschemas : schemas ≠ []) :
    ChatAgrees schemas isDestructive processRecovered h := by
  obtain ⟨whole, hw⟩ : ∃ whole, whole = deltas.flatten := ⟨_, rfl⟩
  have hwhole : h.heads.flatten ++ choiceProse (some h.choice) = whole := by
    rw [hw, ← flatten_finalDelta, ← List.flatten_append]
    exact (congrArg List.flatten h.deltas_eq).symm
  have hclean' : ∀ a b, h.heads = a ++ b → ¬ SplitsMarker whole ([] ++ a.flatten).length := by
    intro a b hab
    rw [hw]
    refine hclean a (b ++ finalDelta h.choice) (h.deltas_eq.trans ?_)
    rw [hab, List.append_assoc]
  unfold ChatAgrees
  rw [← hw] at hfits ⊢
  -- the wrapper when the frame with the finish reason comes
  have htexts := chatRescued_texts (recoverySchemas schemas) isDestructive processRecovered
    (chatRescued_new whole index) h.texts_heads hwhole hclean' hfits
  generalize hs : h.texts.foldl (fun s f => processEvent (recoverySchemas schemas) isDestructive
    processRecovered s f.raw) .new = s at htexts
  have hsettled := chatRescued_finish (recoverySchemas schemas) isDestructive processRecovered htexts
    h.last_choice h.last_finish hwhole
    (by simpa using hclean' h.heads [] (by rw [List.append_nil])) hfits
  generalize ht : processEvent (recoverySchemas schemas) isDestructive processRecovered s
    h.last.raw = t at hsettled
  -- the wrapper at the end of the stream
  have hfed : ∀ u, h.after.foldl (fun s f => processEvent (recoverySchemas schemas) isDestructive
      processRecovered s f.raw) t = u →
      ∀ v, processEvent (recoverySchemas schemas) isDestructive processRecovered u h.done.raw = v →
      recoverDialectInOpenAiChatStream upstream schemas isDestructive processRecovered
        = .closed (if v.terminated then v
            else finishChat (recoverySchemas schemas) isDestructive processRecovered v) := by
    intro u hu v hv
    have hempty : ¬ schemas.isEmpty = true := by simpa using hschemas
    have hshape : (decodedFrames upstream.chunks.flatten).drain.1 = _ := h.shape
    have hcomplete : ((decodedFrames upstream.chunks.flatten).drain.2.takeRemainder
      (Utf8Decoder.new.decode upstream.chunks.flatten).1.flush).1 = [] := h.complete
    unfold recoverDialectInOpenAiChatStream
    rw [if_neg hempty, h.ending]
    dsimp only
    rw [feedChunks_eq, hshape]
    rw [hcomplete, if_pos rfl, List.foldl_append, List.foldl_append, hs]
    simp only [List.foldl_cons, List.foldl_nil, ht, hu, hv]
  have hended : ChoiceEnded index t → ∃ v, recoverDialectInOpenAiChatStream upstream schemas
        isDestructive processRecovered = .closed v
      ∧ v.pushes = t.pushes ++ (h.after.map (fun f => .raw f.raw) ++ [.raw h.done.raw]) := by
    intro hend
    obtain ⟨hafter, hpushes⟩ := choiceEnded_after (recoverySchemas schemas) isDestructive
      processRecovered hend h.after_passive
    obtain ⟨hdone, hpushes'⟩ := choiceEnded_done (recoverySchemas schemas) isDestructive
      processRecovered hafter h.done_sentinel
    refine ⟨_, hfed _ rfl _ rfl, ?_⟩
    rw [if_neg (by rw [hdone.terminated]; decide), finishChat_ended _ _ _ hdone, hpushes', hpushes,
      List.append_assoc]
  unfold ChatSettled at hsettled
  cases hk : markerStart whole with
  | none =>
    simp only [hk] at hsettled
    obtain ⟨v, hv, hpushes⟩ := hended hsettled.1
    exact ⟨v, t.pushes, hv, hsettled.2, hpushes⟩
  | some k =>
    simp only [hk] at hsettled
    dsimp only
    generalize settleOutcome processRecovered index (recoverToolCalls (whole.drop k)
      (recoverySchemas schemas) isDestructive) = outcome at hsettled ⊢
    cases outcome with
    | error error =>
      obtain ⟨hterm, ps, hpushes, hprose⟩ := hsettled
      have hv := hfed t (foldl_terminated _ _ _ hterm _) t
        (processEvent_terminated _ _ _ hterm)
      rw [if_pos hterm] at hv
      refine ⟨t, ps, hv, hpushes, fun hfinal => ?_⟩
      have hpart : h.heads.flatten = whole := by
        rw [← hwhole, ← flatten_finalDelta, hfinal, List.flatten_nil, List.append_nil]
      rw [hprose]
      have hchoice := htexts.choice
      rw [hpart] at hchoice
      rw [hchoice.emittedLen_whole hk]
    | ok p =>
      obtain ⟨hend, ps, hpushes, hprose⟩ := hsettled
      obtain ⟨v, hv, hvp⟩ := hended hend
      refine ⟨v, ps, hv, hprose, ?_⟩
      rw [hvp, hpushes]

end LlmRelay
