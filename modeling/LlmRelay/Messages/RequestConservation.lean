import LlmRelay.Messages.OpenAiRequest

/-!
# What the request mapper conserves

Every turn of a request becomes a run of messages of its own: an assistant turn one
assistant message, a user turn its tool messages and at most one user message. Texts,
images, calls and results of the turn are in these messages, in order, and a call and its
results have one outbound id.

## Main definitions

* `turnTexts`, `turnCalls`, `turnResults`, `turnParts`: what a turn holds;
* `AssistantChunk`, `UserChunk`, `Carries`: the messages of a turn hold the same.

## Main results

* `request_mapping_conserves`: a request is refused, or every turn is carried by its own
  messages, in the order of the turns.
-/

namespace LlmRelay

open Ecma Transition

/-! ## What a turn holds -/

/-- The blocks of a type. -/
def blocksOfType (type : BlockType) (blocks : List Json) : List Json :=
  blocks.filter fun block => blockType? block = some type

/-- The blocks of a turn. -/
def turnBlocks (turn : Json) : List Json :=
  blocksOf (turn.get? (text "content"))

/-- The texts of a turn. -/
def turnTexts (turn : Json) : List Text :=
  match turn.get? (text "content") with
  | some (.str s) => [s]
  | _ => (blocksOfType .text (turnBlocks turn)).map textOf

/-- The id, the name and the arguments of a call. -/
def readCall (block : Json) : Text × Text × Text :=
  ((nameField block "id").getD [], (nameField block "name").getD [], argumentsOf block)

/-- The calls of a turn. -/
def turnCalls (turn : Json) : List (Text × Text × Text) :=
  (blocksOfType .toolUse (turnBlocks turn)).map readCall

/-- The texts of a result, each on lines of its own. -/
def resultText (block : Json) : Text :=
  match block.get? (text "content") with
  | some (.str s) => s
  | content => Text.join (text "\n") ((blocksOfType .text (blocksOf content)).map textOf)

/-- The id that a result answers, and its text. -/
def readResult (block : Json) : Text × Text :=
  ((nameField block "tool_use_id").getD [], resultText block)

/-- The results of a turn. -/
def turnResults (turn : Json) : List (Text × Text) :=
  (blocksOfType .toolResult (turnBlocks turn)).map readResult

/-- The images of some blocks. -/
def imagesOf (blocks : List Json) : List Part :=
  (blocksOfType .image blocks).filterMap fun block => (imageUrl? block).map .image

/-- The texts and the images of a block of a user turn; a result holds its images. -/
def blockParts (block : Json) : List Part :=
  match blockType? block with
  | some .text => [.text (textOf block)]
  | some .image => imagesOf [block]
  | some .toolResult => imagesOf (blocksOf (block.get? (text "content")))
  | _ => []

/-- The texts and the images of a user turn, in order. -/
def turnParts (turn : Json) : List Part :=
  match turn.get? (text "content") with
  | some (.str s) => [.text s]
  | _ => (turnBlocks turn).flatMap blockParts

/-- The ids of a block. -/
def blockIds (block : Json) : List Text :=
  match blockType? block with
  | some .toolUse => (nameField block "id").toList
  | some .toolResult => (nameField block "tool_use_id").toList
  | _ => []

/-- The ids of the calls and the results of a request. -/
def toolIds (body : Json) : List Text :=
  (turnsOf body).flatMap fun turn => (turnBlocks turn).flatMap blockIds

/-! ## What messages hold -/

/-- The parts of a user message. -/
def Message.parts : Message → List Part
  | user content => [.text content]
  | userParts parts => parts
  | _ => []

/-- The id that a tool message answers, and its text. -/
def Message.answer? : Message → Option (Text × Text)
  | tool toolCallId content _ => some (toolCallId, content)
  | _ => none

/-- Is it the message of a user? -/
def Message.isUser : Message → Bool
  | user _ | userParts _ => true
  | _ => false

/-- A part that is not an empty text. -/
def Part.nonEmpty : Part → Bool
  | text t => t ≠ []
  | image _ => true

/-- The messages of an assistant turn: one message, with the texts in a row and the calls in
order, under their outbound ids. -/
def AssistantChunk (outId : Text → Text) (turn : Json) (messages : List Message) : Prop :=
  ∃ content calls reasoning, messages = [.assistant content calls reasoning] ∧
    content.getD [] = (turnTexts turn).flatten ∧
    calls.map (fun call => (call.id, call.name, call.arguments))
      = (turnCalls turn).map fun call => (outId call.1, call.2)

/-- The messages of a user turn: one tool message for each result, in order and under the
outbound id of the call it answers, and then at most one user message, with the texts and the
images in order. -/
def UserChunk (outId : Text → Text) (turn : Json) (messages : List Message) : Prop :=
  ∃ tools users, messages = tools ++ users ∧
    tools.map Message.answer? = (turnResults turn).map (fun result => some (outId result.1, result.2)) ∧
    users.length ≤ 1 ∧ (∀ message ∈ users, message.isUser = true) ∧
    (users.flatMap Message.parts).filter Part.nonEmpty = (turnParts turn).filter Part.nonEmpty

/-- The messages of a turn hold what the turn holds. -/
def Carries (outId : Text → Text) (turn : Json) (messages : List Message) : Prop :=
  if isAssistantTurn turn then AssistantChunk outId turn messages
  else UserChunk outId turn messages

/-! ## Outbound ids -/

/-- The outbound id of a source in a state. -/
def MappingState.outId (state : MappingState) (id : Text) : Text :=
  match state.ids with
  | none => id
  | some ids => (ids.bySource.get? id).getD id

/-- Is the id assigned, or kept as it is? -/
def MappingState.Known (state : MappingState) (id : Text) : Prop :=
  ∀ ids, state.ids = some ids → (ids.bySource.get? id).isSome = true

/-- A later state of a pass keeps what is assigned. -/
def MappingState.Grown (state later : MappingState) : Prop :=
  (state.ids = none → later.ids = none) ∧
    ∀ ids, state.ids = some ids → ∃ ids', later.ids = some ids' ∧ ids.Grown ids'

/-- The invariant of a pass: no two ids are mapped to one, and only ids of the pass are mapped. -/
def MappingState.Sound (pass : List Text) (state : MappingState) : Prop :=
  ∀ ids, state.ids = some ids →
    ids.Injective ∧ ∀ id, (ids.bySource.get? id).isSome = true → id ∈ pass

theorem MappingState.Grown.refl (state : MappingState) : state.Grown state :=
  ⟨fun h => h, fun ids h => ⟨ids, h, ToolCallIds.Grown.refl ids⟩⟩

theorem MappingState.Grown.trans {a b c : MappingState} (hab : a.Grown b) (hbc : b.Grown c) :
    a.Grown c := by
  refine ⟨fun h => hbc.1 (hab.1 h), fun ids h => ?_⟩
  obtain ⟨ids', h', hgrown⟩ := hab.2 ids h
  obtain ⟨ids'', h'', hgrown'⟩ := hbc.2 ids' h'
  exact ⟨ids'', h'', hgrown.trans hgrown'⟩

/-- A refusal, as opposed to a search that does not end. -/
def Refused (stop : Stop) : Prop :=
  stop ≠ .unfinished

theorem refuse_ensures {α : Type} {Q : α → MappingState → Prop} (message : Text)
    (state : MappingState) : Ensures Refused Q (refuse message) state := by
  change Refused (.mapping message)
  intro h
  cases h

section Pass

variable {digest : ToolCallIdDigest} {salts : Nat} {pass : List Text}

/-- What a step that ends in `later` leaves: a sound state that has grown. -/
structure Kept (pass : List Text) (state later : MappingState) : Prop where
  sound : later.Sound pass
  grown : state.Grown later

variable {state mid : MappingState} {block raw : Json} {done : List Json}

theorem Kept.refl (h : state.Sound pass) : Kept pass state state :=
  ⟨h, .refl state⟩

theorem Kept.trans {a b c : MappingState} (hab : Kept pass a b) (hbc : Kept pass b c) :
    Kept pass a c :=
  ⟨hbc.sound, hab.grown.trans hbc.grown⟩

/-- The salts suffice where ids are rewritten. -/
def Enough (digest : ToolCallIdDigest) (salts : Nat) (pass : List Text) (state : MappingState) :
    Prop :=
  state.ids = none ∨ ToolCallIds.Spread digest salts pass

theorem Enough.later {state later : MappingState} (h : Enough digest salts pass state)
    (hgrown : state.Grown later) : Enough digest salts pass later :=
  h.imp_left hgrown.1

variable (hsound : state.Sound pass)

include hsound

/-- **An id is mapped**: every later state has the id that is used. -/
theorem mapId_ensures (henough : Enough digest salts pass state) {id : Text} (hid : id ∈ pass) :
    Ensures Refused (fun out later => Kept pass state later ∧
        ∀ t, later.Grown t → t.outId id = out ∧ t.Known id)
      (mapId digest salts id) state := by
  unfold Ensures mapId
  cases hids : state.ids with
  | none =>
    refine ⟨.refl hsound, fun t ht => ⟨?_, ?_⟩⟩
    · rw [MappingState.outId, ht.1 hids]
    · intro ids h
      rw [ht.1 hids] at h
      cases h
  | some ids =>
    obtain ⟨hinj, hsources⟩ := hsound ids hids
    have hspread : ToolCallIds.Spread digest salts pass := by
      rcases henough with hnone | hspread
      · rw [hids] at hnone
        cases hnone
      · exact hspread
    obtain ⟨⟨out, ids'⟩, hmap⟩ :=
      Option.isSome_iff_exists.mp (ToolCallIds.map_isSome hspread hid hsources)
    obtain ⟨hgrown, hout, hinj', hsources'⟩ := ToolCallIds.map_spec hmap
    dsimp only
    rw [hmap]
    refine ⟨⟨?_, ?_⟩, ?_⟩
    · intro ids'' h
      cases h
      refine ⟨hinj' hinj, fun other hother => ?_⟩
      rcases hsources' other hother with rfl | hold
      · exact hid
      · exact hsources other hold
    · refine ⟨fun h => ?_, fun ids'' h => ?_⟩
      · rw [hids] at h
        cases h
      · cases hids.symm.trans h
        exact ⟨ids', rfl, hgrown⟩
    · intro t ht
      obtain ⟨ids'', hids'', hgrown'⟩ := ht.2 ids' rfl
      have hfound := hgrown' id out hout
      refine ⟨?_, ?_⟩
      · rw [MappingState.outId, hids'']
        dsimp only
        rw [hfound, Option.getD_some]
      · intro ids''' h
        cases hids''.symm.trans h
        rw [hfound]
        rfl

theorem stamp_ensures : Ensures Refused (fun _ later => Kept pass state later) stamp state := by
  unfold Ensures stamp
  cases state.sigs with
  | none => exact .refl hsound
  | some count => exact ⟨hsound, .refl state⟩

/-! ## Assistant turns -/

theorem toolCall_ensures (henough : Enough digest salts pass state)
    (hids : ∀ id, nameField block "id" = some id → id ∈ pass) :
    Ensures Refused (fun call later => Kept pass state later ∧
        ∀ t, later.Grown t →
          (call.id, call.name, call.arguments)
              = (t.outId (readCall block).1, (readCall block).2) ∧
            ∀ id, nameField block "id" = some id → t.Known id)
      (toolCall digest salts block) state := by
  unfold toolCall readCall
  cases hid : nameField block "id" with
  | none => exact refuse_ensures _ _
  | some id =>
    cases hname : nameField block "name" with
    | none => exact refuse_ensures _ _
    | some name =>
      refine (mapId_ensures hsound henough (hids id hid)).bind fun out mid hmid => ?_
      refine (stamp_ensures hmid.1.sound).bind fun signed later hlater => ?_
      refine Ensures.pure ⟨hmid.1.trans hlater, fun t ht => ?_⟩
      obtain ⟨hout, hknown⟩ := hmid.2 t (hlater.grown.trans ht)
      refine ⟨by rw [Option.getD_some, Option.getD_some, hout], fun id' hid' => ?_⟩
      cases hid'
      exact hknown

omit hsound

/-- What the blocks of an assistant turn so far have come to. -/
structure AssistantSoFar (pass : List Text) (state : MappingState) (done : List Json)
    (parts : AssistantParts) (later : MappingState) : Prop where
  kept : Kept pass state later
  texts : parts.texts = (blocksOfType .text done).map textOf
  calls : ∀ t, later.Grown t →
    parts.toolCalls.map (fun call => (call.id, call.name, call.arguments))
      = ((blocksOfType .toolUse done).map readCall).map fun call => (t.outId call.1, call.2)
  known : ∀ t, later.Grown t → ∀ id ∈ done.flatMap blockIds, t.Known id

@[simp] theorem blocksOfType_append (type : BlockType) (a b : List Json) :
    blocksOfType type (a ++ b) = blocksOfType type a ++ blocksOfType type b :=
  List.filter_append ..

theorem blocksOfType_singleton (type : BlockType) (block : Json) :
    blocksOfType type [block] = if blockType? block = some type then [block] else [] := by
  rw [blocksOfType, List.filter_singleton]
  simp

theorem assistantBlock_ensures {parts : AssistantParts}
    (h : AssistantSoFar pass state done parts mid) (henough : Enough digest salts pass state)
    (hids : ∀ id ∈ blockIds raw, id ∈ pass) :
    Ensures Refused (AssistantSoFar pass state (done ++ [raw]))
      (assistantBlock digest salts parts raw) mid := by
  unfold assistantBlock
  split
  · exact refuse_ensures _ _
  split
  · rename_i htype
    refine Ensures.pure ⟨h.kept, ?_, ?_, ?_⟩
    · simp [blocksOfType_singleton, htype, h.texts]
    · simpa [blocksOfType_singleton, htype] using h.calls
    · simpa [blockIds, htype] using h.known
  · rename_i htype
    have hmem : ∀ id, nameField raw "id" = some id → id ∈ pass := by
      intro id hid
      exact hids id (by simp [blockIds, htype, hid])
    refine (toolCall_ensures h.kept.sound (henough.later h.kept.grown) hmem).bind
      fun call later hcall => Ensures.pure ⟨h.kept.trans hcall.1, ?_, ?_, ?_⟩
    · simpa [blocksOfType_singleton, htype] using h.texts
    · intro t ht
      have hold := h.calls t (hcall.1.grown.trans ht)
      have hnew := (hcall.2 t ht).1
      simp only [List.map_append, List.map_cons, List.map_nil, blocksOfType_append,
        blocksOfType_singleton, htype, if_true, hold, hnew]
    · intro t ht id hid
      rw [List.flatMap_append, List.mem_append] at hid
      rcases hid with hold | hnew
      · exact h.known t (hcall.1.grown.trans ht) id hold
      · refine (hcall.2 t ht).2 id ?_
        simpa [blockIds, htype] using hnew
  · rename_i htype
    refine Ensures.pure ⟨h.kept, ?_, ?_, ?_⟩
    · simpa [blocksOfType_singleton, htype] using h.texts
    · simpa [blocksOfType_singleton, htype] using h.calls
    · simpa [blockIds, htype] using h.known
  · rename_i htype
    refine Ensures.pure ⟨h.kept, ?_, ?_, ?_⟩
    · simpa [blocksOfType_singleton, htype] using h.texts
    · simpa [blocksOfType_singleton, htype] using h.calls
    · simpa [blockIds, htype] using h.known
  · exact refuse_ensures _ _

/-- What holds of the message of an assistant turn. -/
def CarriedLater (pass : List Text) (state : MappingState) (turn : Json)
    (chunk : (Text → Text) → Prop) (later : MappingState) : Prop :=
  Kept pass state later ∧ ∀ t, later.Grown t →
    chunk t.outId ∧ ∀ id ∈ (turnBlocks turn).flatMap blockIds, t.Known id

variable {reasoning : ReasoningMode} {conversation : Conversation}

/-- **The message of an assistant turn** carries the turn. -/
theorem assistantMessage_ensures (hsound : state.Sound pass)
    (henough : Enough digest salts pass state) {turn : Json}
    (hids : ∀ id ∈ (turnBlocks turn).flatMap blockIds, id ∈ pass) :
    Ensures Refused (fun message later => CarriedLater pass state turn
        (fun outId => AssistantChunk outId turn [message]) later)
      (assistantMessage digest salts turn reasoning) state := by
  unfold assistantMessage
  split
  · rename_i content hcontent
    have hblocks : turnBlocks turn = [] := by rw [turnBlocks, hcontent]; rfl
    refine Ensures.pure ⟨.refl hsound, fun t ht => ⟨⟨some content, [], none, rfl, ?_, ?_⟩, ?_⟩⟩
    · simp [turnTexts, hcontent]
    · simp [turnCalls, hblocks, blocksOfType]
    · simp [hblocks]
  · rename_i content hcontent
    have hloop : Ensures Refused (AssistantSoFar pass state (turnBlocks turn))
        ((turnBlocks turn).foldlM (assistantBlock digest salts) ⟨[], [], []⟩) state := by
      refine Ensures.foldlM ⟨.refl hsound, rfl, fun _ _ => rfl, fun _ _ id hid => ?_⟩ ?_
      · cases hid
      · intro done raw rest hl parts mid h
        refine assistantBlock_ensures h henough fun id hid => hids id ?_
        rw [← hl, List.flatMap_append]
        exact List.mem_append_right _ (List.mem_append_left _ hid)
    refine Ensures.bind hloop fun parts later h => ?_
    refine Ensures.pure ⟨h.kept, fun t ht => ⟨⟨_, _, _, rfl, ?_, ?_⟩, h.known t ht⟩⟩
    · have htexts : turnTexts turn = parts.texts := by
        rw [h.texts, turnTexts]
        split
        · rename_i s hs
          exact absurd hs (hcontent s)
        · rfl
      rw [htexts]
      split
      · rfl
      · rename_i hempty
        rw [not_not.mp hempty]
        split <;> rfl
    · exact h.calls t ht

/-! ## User turns -/

theorem imagesOf_append (a b : List Json) : imagesOf (a ++ b) = imagesOf a ++ imagesOf b := by
  rw [imagesOf, blocksOfType_append, List.filterMap_append]
  rfl

theorem imagesOf_singleton_of_ne (h : blockType? block ≠ some .image) : imagesOf [block] = [] := by
  rw [imagesOf, blocksOfType_singleton, if_neg h]
  rfl

theorem imagePart_ensures (htype : blockType? block = some .image) :
    Ensures Refused (fun part later => later = state ∧ imagesOf [block] = [part])
      (imagePart block) state := by
  unfold imagePart
  split
  · rename_i url hurl
    refine Ensures.pure ⟨rfl, ?_⟩
    rw [imagesOf, blocksOfType_singleton, if_pos htype, List.filterMap_cons_some (by rw [hurl]; rfl)]
    rfl
  · exact refuse_ensures _ _

theorem toolResultParts_ensures (block : Json) :
    Ensures Refused (fun parts later => later = state ∧ parts.1 = resultText block ∧
        parts.2 = imagesOf (blocksOf (block.get? (text "content"))))
      (toolResultParts (block.get? (text "content"))) state := by
  unfold resultText
  generalize block.get? (text "content") = content
  rcases content with _ | v
  · exact Ensures.pure ⟨rfl, rfl, rfl⟩
  cases v with
  | null => exact Ensures.pure ⟨rfl, rfl, rfl⟩
  | str s => exact Ensures.pure ⟨rfl, rfl, rfl⟩
  | arr blocks =>
    have hloop : Ensures Refused (fun (parts : ToolResultParts) later => later = state ∧
        parts.texts = (blocksOfType .text blocks).map textOf ∧ parts.images = imagesOf blocks)
        (blocks.foldlM toolResultBlock ⟨[], []⟩) state := by
      refine Ensures.foldlM (I := fun done (parts : ToolResultParts) later => later = state ∧
        parts.texts = (blocksOfType .text done).map textOf ∧ parts.images = imagesOf done)
        ⟨rfl, rfl, rfl⟩ ?_
      rintro done raw rest - parts mid ⟨rfl, htexts, himages⟩
      unfold toolResultBlock
      split
      · exact refuse_ensures _ _
      split
      · rename_i htype
        refine Ensures.pure ⟨rfl, ?_, ?_⟩
        · simp [blocksOfType_singleton, htype, htexts]
        · have hnone : imagesOf [raw] = [] := imagesOf_singleton_of_ne (by simp [htype])
          rw [imagesOf_append, hnone, List.append_nil, himages]
      · rename_i htype
        refine (imagePart_ensures htype).bind ?_
        rintro part later ⟨rfl, himage⟩
        refine Ensures.pure ⟨rfl, ?_, ?_⟩
        · simp [blocksOfType_singleton, htype, htexts]
        · rw [imagesOf_append, himage, himages]
      · exact refuse_ensures _ _
    refine hloop.bind ?_
    rintro parts later ⟨rfl, htexts, himages⟩
    exact Ensures.pure ⟨rfl, by rw [htexts]; rfl, himages⟩
  | bool b => exact refuse_ensures _ _
  | num x => exact refuse_ensures _ _
  | obj fields => exact refuse_ensures _ _

theorem toolResultMessage_ensures (hsound : state.Sound pass)
    (henough : Enough digest salts pass state) (toolNames : ToolNames)
    (hids : ∀ id, nameField block "tool_use_id" = some id → id ∈ pass) :
    Ensures Refused (fun answer later => Kept pass state later ∧
        answer.2 = imagesOf (blocksOf (block.get? (text "content"))) ∧
        ∀ t, later.Grown t →
          answer.1.answer? = some (t.outId (readResult block).1, (readResult block).2) ∧
            ∀ id, nameField block "tool_use_id" = some id → t.Known id)
      (toolResultMessage digest salts toolNames block) state := by
  unfold toolResultMessage readResult
  cases hid : nameField block "tool_use_id" with
  | none => exact refuse_ensures _ _
  | some id =>
    refine (toolResultParts_ensures block).bind ?_
    rintro ⟨content, images⟩ mid ⟨rfl, hcontent, himages⟩
    refine (mapId_ensures hsound henough (hids id hid)).bind fun out later hlater => ?_
    refine Ensures.pure ⟨hlater.1, himages, fun t ht => ?_⟩
    obtain ⟨hout, hknown⟩ := hlater.2 t ht
    refine ⟨?_, fun id' hid' => ?_⟩
    · rw [Option.getD_some, hout]
      exact congrArg some (congrArg (out, ·) hcontent)
    · cases hid'
      exact hknown

/-- What the blocks of a user turn so far have come to. -/
structure UserSoFar (pass : List Text) (state : MappingState) (done : List Json)
    (acc : UserParts) (later : MappingState) : Prop where
  kept : Kept pass state later
  parts : acc.parts = done.flatMap blockParts
  results : ∀ t, later.Grown t → acc.toolMessages.map Message.answer?
    = ((blocksOfType .toolResult done).map readResult).map
        fun result => some (t.outId result.1, result.2)
  known : ∀ t, later.Grown t → ∀ id ∈ done.flatMap blockIds, t.Known id

theorem userBlock_ensures {acc : UserParts} (h : UserSoFar pass state done acc mid)
    (henough : Enough digest salts pass state) (toolNames : ToolNames)
    (hids : ∀ id ∈ blockIds raw, id ∈ pass) :
    Ensures Refused (UserSoFar pass state (done ++ [raw]))
      (userBlock digest salts toolNames acc raw) mid := by
  unfold userBlock
  split
  · exact refuse_ensures _ _
  split
  · rename_i htype
    refine Ensures.pure ⟨h.kept, ?_, ?_, ?_⟩
    · simp [blockParts, htype, h.parts]
    · simpa [blocksOfType_singleton, htype] using h.results
    · simpa [blockIds, htype] using h.known
  · rename_i htype
    refine (imagePart_ensures htype).bind ?_
    rintro part later ⟨rfl, himage⟩
    refine Ensures.pure ⟨h.kept, ?_, ?_, ?_⟩
    · simp [blockParts, htype, h.parts, himage]
    · simpa [blocksOfType_singleton, htype] using h.results
    · simpa [blockIds, htype] using h.known
  · rename_i htype
    have hmem : ∀ id, nameField raw "tool_use_id" = some id → id ∈ pass := by
      intro id hid
      exact hids id (by simp [blockIds, htype, hid])
    refine (toolResultMessage_ensures h.kept.sound (henough.later h.kept.grown) toolNames hmem).bind
      fun answer later hanswer => Ensures.pure ⟨h.kept.trans hanswer.1, ?_, ?_, ?_⟩
    · simp [blockParts, htype, h.parts, hanswer.2.1]
    · intro t ht
      have hold := h.results t (hanswer.1.grown.trans ht)
      have hnew := (hanswer.2.2 t ht).1
      simp only [List.map_append, List.map_cons, List.map_nil, blocksOfType_append,
        blocksOfType_singleton, htype, if_true, hold, hnew]
    · intro t ht id hid
      rw [List.flatMap_append, List.mem_append] at hid
      rcases hid with hold | hnew
      · exact h.known t (hanswer.1.grown.trans ht) id hold
      · refine (hanswer.2.2 t ht).2 id ?_
        simpa [blockIds, htype] using hnew
  · rename_i htype
    refine Ensures.pure ⟨h.kept, ?_, ?_, ?_⟩
    · simpa [blockParts, htype] using h.parts
    · simpa [blocksOfType_singleton, htype] using h.results
    · simpa [blockIds, htype] using h.known
  · rename_i htype
    refine Ensures.pure ⟨h.kept, ?_, ?_, ?_⟩
    · simpa [blockParts, htype] using h.parts
    · simpa [blocksOfType_singleton, htype] using h.results
    · simpa [blockIds, htype] using h.known
  · exact refuse_ensures _ _

theorem leftover_spec (acc : UserParts) :
    (leftover acc).length ≤ 1 ∧ (∀ message ∈ leftover acc, message.isUser = true) ∧
      ((leftover acc).flatMap Message.parts).filter Part.nonEmpty
        = acc.parts.filter Part.nonEmpty := by
  unfold leftover
  split
  · rename_i t hparts
    exact ⟨le_rfl, by simp [Message.isUser], by simp [Message.parts, hparts]⟩
  · rename_i hparts
    split
    · exact ⟨le_rfl, by simp [Message.isUser], by simp [Message.parts, hparts, Part.nonEmpty]⟩
    · exact ⟨Nat.zero_le 1, by simp, by simp [hparts]⟩
  · exact ⟨le_rfl, by simp [Message.isUser], by simp [Message.parts]⟩

/-- **The messages of a user turn** carry the turn. -/
theorem userMessages_ensures (hsound : state.Sound pass) (henough : Enough digest salts pass state)
    {turn : Json} (toolNames : ToolNames)
    (hids : ∀ id ∈ (turnBlocks turn).flatMap blockIds, id ∈ pass) :
    Ensures Refused (fun messages later => CarriedLater pass state turn
        (fun outId => UserChunk outId turn messages) later)
      (userMessages digest salts turn toolNames) state := by
  unfold userMessages
  split
  · rename_i content hcontent
    have hblocks : turnBlocks turn = [] := by rw [turnBlocks, hcontent]; rfl
    refine Ensures.pure ⟨.refl hsound, fun t ht =>
      ⟨⟨[], [.user content], rfl, ?_, le_rfl, ?_, ?_⟩, ?_⟩⟩
    · simp [turnResults, hblocks, blocksOfType]
    · simp [Message.isUser]
    · simp [turnParts, hcontent, Message.parts]
    · simp [hblocks]
  · rename_i content hcontent
    have hloop : Ensures Refused (UserSoFar pass state (turnBlocks turn))
        ((turnBlocks turn).foldlM (userBlock digest salts toolNames) ⟨[], []⟩) state := by
      refine Ensures.foldlM ⟨.refl hsound, rfl, fun _ _ => rfl, fun _ _ id hid => ?_⟩ ?_
      · cases hid
      · intro done raw rest hl acc mid h
        refine userBlock_ensures h henough toolNames fun id hid => hids id ?_
        rw [← hl, List.flatMap_append]
        exact List.mem_append_right _ (List.mem_append_left _ hid)
    refine Ensures.bind hloop fun acc later h => ?_
    obtain ⟨hlength, husers, hparts⟩ := leftover_spec acc
    refine Ensures.pure ⟨h.kept, fun t ht =>
      ⟨⟨acc.toolMessages, leftover acc, rfl, h.results t ht, hlength, husers, ?_⟩, h.known t ht⟩⟩
    have hturn : turnParts turn = acc.parts := by
      rw [h.parts, turnParts]
      split
      · rename_i s hs
        exact absurd hs (hcontent s)
      · rfl
    rw [hparts, hturn]

/-! ## Requests -/

/-- What the turns so far have come to. -/
structure ConversationSoFar (pass : List Text) (state : MappingState) (system : List Message)
    (done : List Json) (conversation : Conversation) (later : MappingState) : Prop where
  kept : Kept pass state later
  carried : ∀ t, later.Grown t → ∃ chunks, conversation.messages = system ++ chunks.flatten ∧
    List.Forall₂ (Carries t.outId) done chunks
  known : ∀ t, later.Grown t → ∀ id ∈ done.flatMap fun turn => (turnBlocks turn).flatMap blockIds,
    t.Known id

theorem ConversationSoFar.snoc {later : MappingState} {system : List Message}
    {conversation' : Conversation} {messages : List Message}
    (h : ConversationSoFar pass state system done conversation mid)
    (hcarried : CarriedLater pass mid raw (fun outId => Carries outId raw messages) later)
    (hmessages : conversation'.messages = conversation.messages ++ messages) :
    ConversationSoFar pass state system (done ++ [raw]) conversation' later := by
  refine ⟨h.kept.trans hcarried.1, fun t ht => ?_, fun t ht id hid => ?_⟩
  · obtain ⟨chunks, hchunks, hall⟩ := h.carried t (hcarried.1.grown.trans ht)
    refine ⟨chunks ++ [messages], ?_, ?_⟩
    · rw [hmessages, hchunks, List.flatten_append, List.append_assoc, List.flatten_singleton]
    · exact List.rel_append hall (.cons (hcarried.2 t ht).1 .nil)
  · rw [List.flatMap_append, List.mem_append] at hid
    rcases hid with hold | hnew
    · exact h.known t (hcarried.1.grown.trans ht) id hold
    · refine (hcarried.2 t ht).2 id ?_
      simpa using hnew

theorem mapTurn_ensures {system : List Message}
    (h : ConversationSoFar pass state system done conversation mid)
    (henough : Enough digest salts pass state)
    (hids : ∀ id ∈ (turnBlocks raw).flatMap blockIds, id ∈ pass) :
    Ensures Refused (ConversationSoFar pass state system (done ++ [raw]))
      (mapTurn digest salts reasoning conversation raw) mid := by
  unfold mapTurn
  split
  · exact refuse_ensures _ _
  split
  · rename_i hrole
    refine (assistantMessage_ensures h.kept.sound (henough.later h.kept.grown) hids).bind ?_
    intro message later hmessage
    have hcarried : CarriedLater pass mid raw (fun outId => Carries outId raw [message]) later := by
      simpa only [Carries, hrole, if_true] using hmessage
    exact Ensures.pure (h.snoc hcarried rfl)
  · rename_i hrole
    refine (userMessages_ensures h.kept.sound (henough.later h.kept.grown) _ hids).bind ?_
    intro messages later hmessages
    have hcarried : CarriedLater pass mid raw (fun outId => Carries outId raw messages) later := by
      simpa only [Carries, hrole, if_false, Bool.false_eq_true] using hmessages
    exact Ensures.pure (h.snoc hcarried rfl)

/-- **The turns of a request** are carried by their messages, in order. -/
theorem mapConversation_ensures {body : Json} {opts : AnthropicToOpenAiOptions}
    (hsound : state.Sound (toolIds body)) (henough : Enough digest salts (toolIds body) state) :
    Ensures Refused (ConversationSoFar (toolIds body) state
        (systemMessages (body.get? (text "system"))) (turnsOf body))
      (mapConversation digest salts body opts) state := by
  refine Ensures.foldlM ⟨.refl hsound, fun t ht => ⟨[], ?_, .nil⟩, fun t ht id hid => ?_⟩ ?_
  · rw [List.flatten_nil, List.append_nil]
  · cases hid
  · intro done raw rest hl conversation mid h
    refine mapTurn_ensures h henough fun id hid => ?_
    rw [toolIds, ← hl, List.flatMap_append]
    exact List.mem_append_right _ (List.mem_append_left _ hid)

theorem mapTools_ensures (tools : Option Json) (state : MappingState) :
    Ensures Refused (fun _ _ => True) (mapTools tools) state := by
  have htool : ∀ raw s, Ensures Refused (fun _ _ => True) (mapTool raw) s := by
    intro raw s
    unfold mapTool
    split
    · exact refuse_ensures _ _
    split
    · exact refuse_ensures _ _
    · exact Ensures.pure trivial
  have hall : ∀ (raws : List Json) s, Ensures Refused (fun _ _ => True) (raws.mapM mapTool) s := by
    intro raws
    induction raws with
    | nil => exact fun s => Ensures.pure trivial
    | cons raw raws ih =>
      intro s
      rw [List.mapM_cons]
      refine (htool raw s).bind fun _ s' _ => (ih s').bind fun _ s'' _ => Ensures.pure trivial
  unfold mapTools
  split
  · exact Ensures.pure trivial
  · exact (hall _ _).bind fun _ _ _ => Ensures.pure trivial

end Pass

theorem MappingState.outId_injOn {pass : List Text} {state : MappingState}
    (hsound : state.Sound pass) (hknown : ∀ id ∈ pass, state.Known id) :
    ∀ id ∈ pass, ∀ id' ∈ pass, state.outId id = state.outId id' → id = id' := by
  intro id hid id' hid' heq
  unfold MappingState.outId at heq
  cases hids : state.ids with
  | none => simpa [hids] using heq
  | some ids =>
    obtain ⟨out, hout⟩ := Option.isSome_iff_exists.mp (hknown id hid ids hids)
    obtain ⟨out', hout'⟩ := Option.isSome_iff_exists.mp (hknown id' hid' ids hids)
    simp only [hids, hout, hout', Option.getD_some] at heq
    exact (hsound ids hids).1 id id' out hout (heq ▸ hout')

/-- **The request mapper conserves content.** A request is refused with a message, or every turn
of it is carried by messages of its own, which follow the system message in the order of the
turns: the texts, the images, the calls and the results of the turn each once and in order, the
tool messages of a user turn directly before its user message and directly behind the messages
of the turn before. A call and its results have one outbound id, and no two ids have one; the
ids are those of the request where they are preserved. -/
theorem request_mapping_conserves (digest : ToolCallIdDigest) (salts : Nat) (reqJson : Json)
    (opts : AnthropicToOpenAiOptions)
    (hspread : opts.toolCallIds = .strict9 →
      ToolCallIds.Spread digest salts (toolIds (requestBody reqJson))) :
    let body := requestBody reqJson
    match anthropicRequestToOpenAi digest salts reqJson opts with
    | .error stop => ∃ message, stop = .mapping message
    | .ok (request, _) => ∃ outId : Text → Text,
        (∀ id ∈ toolIds body, ∀ id' ∈ toolIds body, outId id = outId id' → id = id') ∧
          (opts.toolCallIds = .preserve → outId = id) ∧
          ∃ chunks, request.messages
              = systemMessages (body.get? (text "system")) ++ chunks.flatten ∧
            List.Forall₂ (Carries outId) (turnsOf body) chunks := by
  intro body
  have hsound : (MappingState.start opts).Sound (toolIds body) := by
    intro ids hids
    unfold MappingState.start at hids
    split at hids
    · cases hids
      exact ⟨fun id id' out h => absurd h (by simp [ToolCallIds.empty]), fun id h => by
        simp [ToolCallIds.empty] at h⟩
    · cases hids
  have henough : Enough digest salts (toolIds body) (.start opts) := by
    unfold Enough MappingState.start
    split
    · rename_i hstrict
      exact .inr (hspread hstrict)
    · exact .inl rfl
  have hrun : Ensures Refused (fun out _ => ∃ outId : Text → Text,
        (∀ id ∈ toolIds body, ∀ id' ∈ toolIds body, outId id = outId id' → id = id') ∧
          (opts.toolCallIds = .preserve → outId = id) ∧
          ∃ chunks, out.1.messages
              = systemMessages (body.get? (text "system")) ++ chunks.flatten ∧
            List.Forall₂ (Carries outId) (turnsOf body) chunks)
      (mapRequest digest salts body opts) (.start opts) := by
    unfold mapRequest
    refine (mapConversation_ensures hsound henough).bind fun conversation later h => ?_
    have hnow := MappingState.Grown.refl later
    refine Ensures.bind (Q := fun _ _ => True) trivial fun _ mid _ => ?_
    refine (mapTools_ensures _ _).bind fun tools last _ => Ensures.pure ?_
    refine ⟨later.outId, MappingState.outId_injOn h.kept.sound (h.known later hnow), ?_,
      h.carried later hnow⟩
    intro hpreserve
    have hids : later.ids = none := h.kept.grown.1 (by simp [MappingState.start, hpreserve])
    funext id
    rw [MappingState.outId, hids]
    rfl
  unfold Ensures at hrun
  unfold anthropicRequestToOpenAi
  change match (mapRequest digest salts body opts (.start opts)).map Prod.fst with
    | .error stop => _
    | .ok (request, _) => _
  cases hresult : mapRequest digest salts body opts (.start opts) with
  | error stop =>
    rw [hresult] at hrun
    cases stop with
    | mapping message => exact ⟨message, rfl⟩
    | unfinished => exact absurd rfl hrun
  | ok out =>
    rw [hresult] at hrun
    exact hrun

/-! ## Examples -/

/-- A block with some properties. -/
def sampleBlock (type : BlockType) (properties : List (String × Text)) : Json :=
  .ofProperties (("type", some (Json.ofString type.name))
    :: properties.map fun p => (p.1, some (.str p.2)))

/-- A turn of a role with some blocks. -/
def sampleTurn (role : String) (blocks : List Json) : Json :=
  .ofProperties [("role", some (Json.ofString role)), ("content", some (.arr blocks))]

/-- A request with some turns. -/
def sampleRequest (turns : List Json) : Json :=
  .ofProperties [("messages", some (.arr turns))]

/-- A call of a tool. -/
def sampleCall (id : String) : Json :=
  sampleBlock .toolUse [("id", text id), ("name", text "Read")]

/-- The result of a call. -/
def sampleResult (id content : String) : Json :=
  sampleBlock .toolResult [("tool_use_id", text id), ("content", text content)]

/-- The options of a plain deployment. -/
def sampleOptions (toolCallIds : ToolCallIdMode) : AnthropicToOpenAiOptions :=
  ⟨none, none, toolCallIds, .none, .none, none⟩

/-- The first bytes of the SHA-256 of `toolu_1` and of its first salt. -/
def sampleDigest : ToolCallIdDigest := fun source i =>
  if source = text "toolu_1" then [72, 56, 160, 194, 82, 226, 74, 97, 191].getD i 0
  else if source = text "toolu_1#1" then [134, 230, 225, 127, 45, 143, 178, 83, 212].getD i 0
  else 0

/-- A call and its result, under the ids of their digest. -/
def sampleConversation : Json :=
  sampleRequest [sampleTurn "assistant" [sampleCall "toolu_1"],
    sampleTurn "user" [sampleResult "toolu_1" "done", sampleBlock .text [("text", text "go on")]]]

/-- The example conversation is carried. -/
theorem sample_conversation_conserved :
    ∃ out, anthropicRequestToOpenAi sampleDigest 2 sampleConversation (sampleOptions .strict9)
        = .ok out ∧
      ∃ (outId : Text → Text) (chunks : List (List Message)), out.1.messages = chunks.flatten ∧
        List.Forall₂ (Carries outId) (turnsOf (requestBody sampleConversation)) chunks := by
  have hids : toolIds (requestBody sampleConversation) = [text "toolu_1", text "toolu_1"] := by
    decide +kernel
  have hspread : ToolCallIds.Spread sampleDigest 2 (toolIds (requestBody sampleConversation)) := by
    rw [hids]
    intro id hid taken hlength
    have hid' : id = text "toolu_1" := by simpa using hid
    subst hid'
    -- one id that is taken leaves one of the two
    have hne : strict9 sampleDigest (text "toolu_1") 0 ≠ strict9 sampleDigest (text "toolu_1") 1 := by
      decide +kernel
    by_cases hmem : strict9 sampleDigest (text "toolu_1") 0 ∈ taken
    · refine ⟨1, by decide, fun hmem' => ?_⟩
      match taken, hlength with
      | [], _ => cases hmem
      | [x], _ => exact hne ((List.mem_singleton.mp hmem).trans (List.mem_singleton.mp hmem').symm)
      | _ :: _ :: _, hlength => exact absurd hlength (by simp)
    · exact ⟨0, by decide, hmem⟩
  have h := request_mapping_conserves sampleDigest 2 sampleConversation (sampleOptions .strict9)
    fun _ => hspread
  have hok : (anthropicRequestToOpenAi sampleDigest 2 sampleConversation
      (sampleOptions .strict9)).isOk = true := by
    decide +kernel
  cases hresult : anthropicRequestToOpenAi sampleDigest 2 sampleConversation
      (sampleOptions .strict9) with
  | error stop =>
    rw [hresult] at hok
    cases hok
  | ok out =>
    rw [hresult] at h
    obtain ⟨outId, -, -, chunks, hmessages, hall⟩ := h
    exact ⟨out, rfl, outId, chunks, hmessages, hall⟩

/-- Of two results in two user turns the second does not stand directly behind the calls it is
one of: the user message of the first turn is between them. -/
theorem second_user_turn_is_apart :
    (anthropicRequestToOpenAi sampleDigest 0
        (sampleRequest [sampleTurn "assistant" [sampleCall "a", sampleCall "b"],
          sampleTurn "user" [sampleResult "a" "1", sampleBlock .text [("text", text "go on")]],
          sampleTurn "user" [sampleResult "b" "2"]])
        (sampleOptions .preserve)).toOption.map (fun out => out.1.messages)
      = some [.assistant none
            [⟨text "a", text "Read", text "\x7b\x7d", false⟩,
              ⟨text "b", text "Read", text "\x7b\x7d", false⟩] none,
          .tool (text "a") (text "1") (some (text "Read")), .user (text "go on"),
          .tool (text "b") (text "2") (some (text "Read"))] := by
  decide +kernel

end LlmRelay
