import LlmRelay.Dialects.ChatParts

/-!
# A chat stream without a marker

The wrapper of a chat stream (`openai-dialect.ts`) carries every choice of every chunk on, as long
as no marker comes and no chunk is rewritten that states something the rewriting loses or repeats.

## Main definitions

* `readPush`, `readPushes`: what is written, as a client reads it;
* `passChunk`: what the choices of a chunk become;
* `ChunkKept`, `EventKept`, `EndKept`, `RunKept`: nothing is lost or repeated;
* `Transparent`: what is written so far, and what is held back.

## Main results

* `processChoice_pass`: one choice of a chunk without a marker;
* `Transparent.processEvent`, `Transparent.settleAll`: one event, and the end;
* `chat_stream_transparent`: the whole stream.
-/

namespace LlmRelay

open Ecma

/-! ## What is written -/

/-- What an event states. -/
def readRaw (raw : Text) : List ChoicePart :=
  match (parseChatEvent raw).data with
  | .record data => readChoices (choicesOf data)
  | _ => []

/-- What a push states. -/
def readPush : ChatPush → List ChoicePart
  | .raw frame => readRaw frame
  | .event _ (some data) => readChoices (choicesOf data)
  | .event _ none => []

/-- What several pushes state. -/
def readPushes (ps : List ChatPush) : List ChoicePart :=
  ps.flatMap readPush

@[simp] theorem readPushes_nil : readPushes [] = [] := rfl

@[simp] theorem readPushes_append (ps qs : List ChatPush) :
    readPushes (ps ++ qs) = readPushes ps ++ readPushes qs :=
  List.flatMap_append

@[simp] theorem readPushes_singleton (p : ChatPush) : readPushes [p] = readPush p :=
  List.flatMap_singleton _ _

@[simp] theorem readPush_withChoices (eventName : Text) (data : Json) (choices : List Json) :
    readPush (.event eventName (some (withChoices data choices))) = readChoices choices := by
  rw [readPush, choicesOf_withChoices]

/-- No choice states a marker. -/
def MarkerFree (stated : List ChoicePart) : Prop :=
  ∀ index, (scanForMarker (statedBy ChoicePart.content index stated)).hit = false

variable {stated : List ChoicePart} {index : Number} {s : ChatState}

theorem markerFree_of_indices
    (h : ∀ p ∈ stated, (scanForMarker (statedBy ChoicePart.content p.index stated)).hit = false) :
    MarkerFree stated := by
  intro index
  by_cases hmem : ∃ p ∈ stated, p.index = index
  · obtain ⟨p, hp, rfl⟩ := hmem
    exact h p hp
  · have hnone : statedBy ChoicePart.content index stated = [] := by
      rw [statedBy, List.flatMap_eq_nil_iff]
      intro p hp
      rw [if_neg fun heq => hmem ⟨p, hp, heq⟩]
    rw [hnone]
    decide +kernel

theorem MarkerFree.of_append {ps qs : List ChoicePart} (h : MarkerFree (ps ++ qs)) :
    MarkerFree ps := by
  intro index
  have hall := h index
  rw [statedBy_append] at hall
  exact miss_of_append hall

/-! ## The states of the choices -/

/-- The states of the choices, by what was stated so far. -/
structure ChoicesFed (s : ChatState) (stated : List ChoicePart) : Prop where
  unmarked : ∀ index, Unmarked (s.stateFor index)
  text : ∀ index, (s.stateFor index).finished = false →
    (s.stateFor index).text = statedBy ChoicePart.content index stated
  seen : ∀ index, (s.stateFor index).finished = false → (s.stateFor index).text = [] ∨
    ∃ data choice, (s.stateFor index).lastChunk = some data ∧
      (s.stateFor index).lastChoice = some choice ∧ choiceIndex? choice = some index ∧
      finishOf choice = []

theorem unmarked_choiceState : Unmarked choiceState where
  passing := rfl
  miss := by decide +kernel
  emitted _ := by decide +kernel

theorem choicesFed_new : ChoicesFed .new [] where
  unmarked _ := unmarked_choiceState
  text _ _ := rfl
  seen _ _ := .inl rfl

theorem stateFor_setState_of_ne (s : ChatState) {index' : Number} (c : ChoiceState)
    (h : index ≠ index') : (s.setState index c).stateFor index' = s.stateFor index' := by
  rw [ChatState.stateFor, ChatState.setState, OrderedMap.get?_set_of_ne _ _ h]
  rfl

theorem Unmarked.see {c : ChoiceState} (h : Unmarked c) (data choice : Json) :
    Unmarked (c.see data choice) :=
  ⟨h.passing, h.miss, h.emitted⟩

/-- What a choice of a chunk becomes in a state of the wrapper. -/
def passed (s : ChatState) (data choice : Json) (index : Number) : PassedChoice :=
  passChoice ((s.stateFor index).see data choice) choice

variable {choice : Json}

variable (h : ChoicesFed s stated)

include h

theorem ChoicesFed.miss
    (hindex : choiceIndex? choice = some index) (hfree : MarkerFree (stated ++ readChoice choice))
    (hopen : (s.stateFor index).finished = false) :
    (scanForMarker ((s.stateFor index).text ++ contentOf choice)).hit = false := by
  have hwhole := hfree index
  rw [statedBy_append, readChoice_of_index hindex, statedBy_singleton, if_pos rfl,
    ← h.text index hopen] at hwhole
  exact hwhole

theorem ChoicesFed.setState {stated' : List ChoicePart} {c : ChoiceState} (hunmarked : Unmarked c)
    (htext : c.finished = false → c.text = statedBy ChoicePart.content index stated')
    (hseen : c.finished = false → c.text = [] ∨ ∃ data choice, c.lastChunk = some data ∧
      c.lastChoice = some choice ∧ choiceIndex? choice = some index ∧ finishOf choice = [])
    (hother : ∀ other, index ≠ other → statedBy ChoicePart.content other stated'
      = statedBy ChoicePart.content other stated) : ChoicesFed (s.setState index c) stated' := by
  refine ⟨fun other => ?_, fun other hopen => ?_, fun other hopen => ?_⟩ <;>
    by_cases heq : index = other
  · subst heq
    rw [stateFor_setState]
    exact hunmarked
  · rw [stateFor_setState_of_ne s _ heq]
    exact h.unmarked other
  · subst heq
    rw [stateFor_setState] at hopen ⊢
    exact htext hopen
  · rw [stateFor_setState_of_ne s _ heq] at hopen ⊢
    rw [hother other heq]
    exact h.text other hopen
  · subst heq
    rw [stateFor_setState] at hopen ⊢
    exact hseen hopen
  · rw [stateFor_setState_of_ne s _ heq] at hopen ⊢
    exact h.seen other hopen

/-- **One more choice.** -/
theorem ChoicesFed.passed (data : Json)
    (hindex : choiceIndex? choice = some index) (hfree : MarkerFree (stated ++ readChoice choice)) :
    ChoicesFed (s.setState index (LlmRelay.passed s data choice index).after)
      (stated ++ readChoice choice) := by
  obtain ⟨hunmarked, hchoice, hchunk, hfinished, -, hafter⟩ :=
    passChoice_after ((h.unmarked index).see data choice) hindex (h.miss hindex hfree)
  refine h.setState hunmarked (fun hopen => ?_) (fun hopen => ?_) fun other hne => ?_
  · have hbefore : (s.stateFor index).finished = false := by
      cases hfin : (s.stateFor index).finished with
      | false => rfl
      | true => exact absurd ((hfinished hfin).symm.trans hopen) (by decide)
    rw [LlmRelay.passed, (hafter hopen).1, statedBy_append, readChoice_of_index hindex,
      statedBy_singleton, if_pos rfl, ← h.text index hbefore]
    rfl
  · exact .inr ⟨data, choice, hchunk, hchoice, hindex, (hafter hopen).2⟩
  · rw [statedBy_append, readChoice_of_index hindex, statedBy_singleton, if_neg hne,
      List.append_nil]

omit h

/-! ## The choices of a chunk -/

/-- The events that release content behind a chunk. -/
def tailEvents (eventName : Text) (data choice : Json) (tail : Text) : List ChatPush :=
  if tail = [] then [] else [.event eventName (some (withChoices data [withContent choice tail]))]

/-- What the choices of a chunk become: the states, the choices that are left of the chunk, the
events behind it, and whether it has to be rewritten. -/
structure PassedChunk where
  state : ChatState
  outputs : List Json
  generated : List ChatPush
  modified : Bool

/-- What a rewritten chunk and the events behind it state. -/
def PassedChunk.written (out : PassedChunk) : List ChoicePart :=
  readChoices out.outputs ++ readPushes out.generated

/-- The choices of a chunk, one after the other. -/
def passChunk (data : Json) (eventName : Text) (s : ChatState) : List Json → PassedChunk
  | [] => ⟨s, [], [], false⟩
  | choice :: rest =>
    let index := (choiceIndex? choice).getD 0
    let p := passed s data choice index
    let out := passChunk data eventName (s.setState index p.after) rest
    ⟨out.state, p.output.toList ++ out.outputs,
      tailEvents eventName data choice p.tail ++ out.generated, p.modified || out.modified⟩

/-- The choices of a chunk are kept, each in the state that those before it leave. -/
def ChunkKept (data : Json) (s : ChatState) : List Json → Prop
  | [] => True
  | choice :: rest =>
    let index := (choiceIndex? choice).getD 0
    EntryKept (s.stateFor index) choice ∧
      ChunkKept data (s.setState index (passed s data choice index).after) rest

/-- Some choice of a chunk makes its rewriting necessary. -/
def ChunkRewritten (data : Json) (s : ChatState) : List Json → Prop
  | [] => False
  | choice :: rest =>
    let index := (choiceIndex? choice).getD 0
    EntryRewritten (s.stateFor index) choice ∨
      ChunkRewritten data (s.setState index (passed s data choice index).after) rest

instance decidableChunkKept (data : Json) (s : ChatState) :
    (choices : List Json) → Decidable (ChunkKept data s choices)
  | [] => isTrue trivial
  | choice :: rest =>
    have := decidableChunkKept data (s.setState ((choiceIndex? choice).getD 0)
      (passed s data choice ((choiceIndex? choice).getD 0)).after) rest
    inferInstanceAs (Decidable (EntryKept _ _ ∧ ChunkKept _ _ _))

instance decidableChunkRewritten (data : Json) (s : ChatState) :
    (choices : List Json) → Decidable (ChunkRewritten data s choices)
  | [] => isFalse not_false
  | choice :: rest =>
    have := decidableChunkRewritten data (s.setState ((choiceIndex? choice).getD 0)
      (passed s data choice ((choiceIndex? choice).getD 0)).after) rest
    inferInstanceAs (Decidable (EntryRewritten _ _ ∨ ChunkRewritten _ _ _))

section Chunk

variable (schemas : ToolSchemas) (isDestructive : Text → Bool)
  (processRecovered : Option RecoveredOpenAiChatProcessor) (data : Json) (eventName : Text)

variable {stated : List ChoicePart} {index : Number} {s : ChatState} {choices : List Json}

/-- **One choice of a chunk** without a marker. -/
theorem processChoice_pass {l : ChoiceLoop} (hopen : l.returned = false)
    (hrunning : l.state.terminated = false) (hfed : ChoicesFed l.state stated)
    (hindex : choiceIndex? choice = some index) (hfree : MarkerFree (stated ++ readChoice choice))
    (position : Nat) :
    processChoice schemas isDestructive processRecovered data eventName l (choice, position)
      = ⟨l.state.setState index (passed l.state data choice index).after,
          l.modified || (passed l.state data choice index).modified,
          l.outputChoices ++ (passed l.state data choice index).output.toList,
          l.generatedAfter
            ++ tailEvents eventName data choice (passed l.state data choice index).tail, false⟩ := by
  obtain ⟨state, modified, outputs, generated, returned⟩ := l
  dsimp only at hopen hrunning hfed
  subst hopen
  have hrecord : (!choice.isRecord) = false := by
    cases choice with
    | obj fields => rfl
    | _ => cases hindex
  have hnumber : (Json.number? (choice.get? (text "index"))).getD (.fin position) = index := by
    rw [show Json.number? (choice.get? (text "index")) = some index from hindex]
    rfl
  have hunmarked := (hfed.unmarked index).see data choice
  have hmiss := hfed.miss hindex hfree
  -- the choice is as before, apart from its text
  obtain ⟨hcap, hfinished, hchunk, hchoice⟩ :
      (receiveChoice ((state.stateFor index).see data choice) choice).1.capturing = false ∧
        (receiveChoice ((state.stateFor index).see data choice) choice).1.finished
          = (state.stateFor index).finished ∧
        (receiveChoice ((state.stateFor index).see data choice) choice).1.lastChunk = some data ∧
        (receiveChoice ((state.stateFor index).see data choice) choice).1.lastChoice
          = some choice := by
    cases hfin : (state.stateFor index).finished with
    | true =>
      have hsee : ((state.stateFor index).see data choice).finished = true := hfin
      rw [receiveChoice, if_pos hsee]
      exact ⟨hunmarked.passing, hfin, rfl, rfl⟩
    | false =>
      obtain ⟨-, hfin', hcap, -, -, hchoice, hchunk, -, -⟩ :=
        receiveChoice_of_miss hunmarked hfin hindex (hmiss hfin)
      exact ⟨hcap, hfin', hchunk, hchoice⟩
  have hsee : ({ state.stateFor index with lastChunk := some data, lastChoice := some choice } :
      ChoiceState) = (state.stateFor index).see data choice := rfl
  have hwhich : ((state.stateFor index).see data choice).finished
      = (state.stateFor index).finished := rfl
  unfold processChoice
  simp only [hrecord, hnumber, hsee]
  rw [passed, passChoice, hwhich]
  generalize receiveChoice ((state.stateFor index).see data choice) choice = received
    at hcap hfinished hchunk hchoice ⊢
  simp only [hcap, Bool.false_and, Bool.false_eq_true, if_false, hfinished]
  by_cases hfinish : (isPresent (choice.get? (text "finish_reason"))
      && !(state.stateFor index).finished) = true
  · rw [if_pos hfinish, if_pos hfinish]
    have hopen : received.1.finished = false := by
      rw [hfinished]
      rw [Bool.and_eq_true] at hfinish
      simpa using hfinish.2
    rw [settleChoice_of_miss schemas isDestructive processRecovered eventName
      (stateFor_setState state index received.1) hopen hcap hchunk hchoice]
    simp only [hrunning, Bool.false_eq_true, if_false, Bool.or_true,
      ChatState.setState, OrderedMap.set_set]
    rw [tailEvents]
    split <;> rfl
  · rw [if_neg hfinish, if_neg hfinish, tailEvents, if_pos rfl, List.append_nil]

/-- **All the choices of a chunk** without a marker. -/
theorem foldl_processChoice {choices : List Json} {l : ChoiceLoop} {stated : List ChoicePart}
    (hopen : l.returned = false) (hrunning : l.state.terminated = false)
    (hfed : ChoicesFed l.state stated)
    (hindex : ∀ choice ∈ choices, (choiceIndex? choice).isSome = true)
    (hfree : MarkerFree (stated ++ readChoices choices)) (position : Nat) :
    let out := passChunk data eventName l.state choices
    (choices.zipIdx position).foldl
        (processChoice schemas isDestructive processRecovered data eventName) l
      = ⟨out.state, l.modified || out.modified, l.outputChoices ++ out.outputs,
          l.generatedAfter ++ out.generated, false⟩ ∧
      ChoicesFed out.state (stated ++ readChoices choices) ∧ out.state.pushes = l.state.pushes ∧
      out.state.terminated = false := by
  induction choices generalizing l stated position with
  | nil =>
    refine ⟨?_, by rw [readChoices_nil, List.append_nil]; exact hfed, rfl, hrunning⟩
    rw [List.zipIdx_nil, List.foldl_nil, passChunk, Bool.or_false, List.append_nil,
      List.append_nil, ← hopen]
  | cons choice rest ih =>
    obtain ⟨index, hchoice⟩ := Option.isSome_iff_exists.mp (hindex choice List.mem_cons_self)
    rw [readChoices_cons, ← List.append_assoc] at hfree
    have hone := processChoice_pass schemas isDestructive processRecovered data eventName hopen
      hrunning hfed hchoice hfree.of_append position
    have hfed' := hfed.passed data hchoice hfree.of_append
    rw [List.zipIdx_cons, List.foldl_cons, hone, passChunk, hchoice, Option.getD_some]
    obtain ⟨hfold, hrest, hpushes, hrunning'⟩ := @ih
      ⟨l.state.setState index (passed l.state data choice index).after,
        l.modified || (passed l.state data choice index).modified,
        l.outputChoices ++ (passed l.state data choice index).output.toList,
        l.generatedAfter
          ++ tailEvents eventName data choice (passed l.state data choice index).tail, false⟩
      (stated ++ readChoice choice) rfl hrunning hfed'
      (fun other hother => hindex other (List.mem_cons_of_mem choice hother)) hfree (position + 1)
    rw [hfold]
    refine ⟨?_, ?_, hpushes, hrunning'⟩
    · rw [Bool.or_assoc, List.append_assoc, List.append_assoc]
    · rw [readChoices_cons, ← List.append_assoc]
      exact hrest

variable {parts : List ChoicePart} {α : Type} (f : ChoicePart → List α)

theorem statedBy_of_ne {index' : Number}
    (h : ∀ p ∈ parts, p.index = index) (hne : index ≠ index') : statedBy f index' parts = [] := by
  rw [statedBy, List.flatMap_eq_nil_iff]
  intro p hp
  rw [h p hp, if_neg hne]

theorem statedBy_of_eq (h : ∀ p ∈ parts, p.index = index) :
    statedBy f index parts = parts.flatMap f := by
  refine List.flatMap_congr fun p hp => ?_
  rw [if_pos (h p hp)]

theorem parts_passed (s : ChatState) (choice : Json) (index : Number) :
    (passed s data choice index).parts choice
      = readChoices (passed s data choice index).output.toList
        ++ readPushes (tailEvents eventName data choice (passed s data choice index).tail) := by
  rw [PassedChoice.parts, tailEvents]
  split
  · rfl
  · rw [readPushes_singleton, readPush_withChoices, readChoices_singleton]

theorem passChunk_of_finished {choices : List Json}
    {s : ChatState} {stated : List ChoicePart} (hfed : ChoicesFed s stated)
    (hindex : ∀ choice ∈ choices, (choiceIndex? choice).isSome = true)
    (hfree : MarkerFree (stated ++ readChoices choices)) {index : Number}
    (hfinished : (s.stateFor index).finished = true) :
    statedBy f index (readChoices (passChunk data eventName s choices).outputs) = [] := by
  induction choices generalizing s stated with
  | nil => rfl
  | cons choice rest ih =>
    obtain ⟨own, hchoice⟩ := Option.isSome_iff_exists.mp (hindex choice List.mem_cons_self)
    rw [readChoices_cons, ← List.append_assoc] at hfree
    have hrest := @ih (s.setState own (passed s data choice own).after)
      (stated ++ readChoice choice) (hfed.passed data hchoice hfree.of_append)
      (fun other hother => hindex other (List.mem_cons_of_mem choice hother)) hfree
    rw [passChunk, hchoice, Option.getD_some]
    rw [readChoices_append, statedBy_append]
    by_cases heq : own = index
    · subst heq
      have hpass : passed s data choice own
          = ⟨(s.stateFor own).see data choice, none, [], false⟩ :=
        passChoice_of_finished (c := (s.stateFor own).see data choice) hfinished choice
      rw [hrest (by rw [stateFor_setState, hpass]; exact hfinished), hpass]
      rfl
    · rw [hrest (by rw [stateFor_setState_of_ne s _ heq]; exact hfinished), List.append_nil]
      have hall := passChoice_index ((hfed.unmarked own).see data choice) hchoice
        (hfed.miss hchoice hfree.of_append)
      refine statedBy_of_ne f (fun p hp => hall p ?_) heq
      exact List.mem_append_left _ hp

/-- What is behind the chunk of a choice may stand behind what is left of it: the choice has
finished then. -/
theorem statedBy_written_cons {rest : List Json} (hfed : ChoicesFed s stated) {own : Number}
    (hchoice : choiceIndex? choice = some own)
    (hindex : ∀ other ∈ rest, (choiceIndex? other).isSome = true)
    (hfree : MarkerFree (stated ++ readChoice choice ++ readChoices rest)) (index : Number) :
    statedBy f index (passChunk data eventName s (choice :: rest)).written
      = statedBy f index ((passed s data choice own).parts choice)
        ++ statedBy f index (passChunk data eventName
            (s.setState own (passed s data choice own).after) rest).written := by
  have hfed' := hfed.passed data hchoice hfree.of_append
  have hindices := passChoice_index ((hfed.unmarked own).see data choice) hchoice
    (hfed.miss hchoice hfree.of_append)
  obtain ⟨-, -, -, -, htail, -⟩ := passChoice_after ((hfed.unmarked own).see data choice)
    hchoice (hfed.miss hchoice hfree.of_append)
  have hbehind : statedBy f index (readChoices (passChunk data eventName
          (s.setState own (passed s data choice own).after) rest).outputs)
        ++ statedBy f index
          (readPushes (tailEvents eventName data choice (passed s data choice own).tail))
      = statedBy f index
          (readPushes (tailEvents eventName data choice (passed s data choice own).tail))
        ++ statedBy f index (readChoices (passChunk data eventName
          (s.setState own (passed s data choice own).after) rest).outputs) := by
    by_cases hnone : (passed s data choice own).tail = []
    · rw [tailEvents, if_pos hnone, readPushes_nil, statedBy_nil, List.append_nil, List.nil_append]
    by_cases heq : own = index
    · subst heq
      have hfinished : ((s.setState own (passed s data choice own).after).stateFor own).finished
          = true := by
        rw [stateFor_setState]
        exact htail hnone
      rw [passChunk_of_finished data eventName f hfed' hindex hfree hfinished, List.append_nil,
        List.nil_append]
    · have hother : statedBy f index
          (readPushes (tailEvents eventName data choice (passed s data choice own).tail)) = [] := by
        refine statedBy_of_ne f (fun p hp => hindices p ?_) heq
        show p ∈ (passed s data choice own).parts choice
        rw [parts_passed data eventName]
        exact List.mem_append_right _ hp
      rw [hother, List.append_nil, List.nil_append]
  rw [PassedChunk.written, passChunk, hchoice, Option.getD_some, parts_passed data eventName,
    PassedChunk.written]
  simp only [readChoices_append, readPushes_append, statedBy_append, List.append_assoc]
  rw [← List.append_assoc (statedBy f index (readChoices (passChunk _ _ _ rest).outputs)), hbehind,
    List.append_assoc]

/-- **A chunk that is rewritten and kept** states what it stated, and of the content as much as
is not held back. -/
theorem passChunk_kept (hfed : ChoicesFed s stated)
    (hindex : ∀ choice ∈ choices, (choiceIndex? choice).isSome = true)
    (hfree : MarkerFree (stated ++ readChoices choices)) (hkept : ChunkKept data s choices)
    (index : Number) :
    let out := passChunk data eventName s choices
    statedBy ChoicePart.content index out.written ++ (out.state.stateFor index).held
        = (s.stateFor index).held ++ statedBy ChoicePart.content index (readChoices choices) ∧
      statedBy ChoicePart.fields index out.written
        = statedBy ChoicePart.fields index (readChoices choices) ∧
      statedBy ChoicePart.finish index out.written
        = statedBy ChoicePart.finish index (readChoices choices) := by
  induction choices generalizing s stated with
  | nil => exact ⟨(List.append_nil _).symm, rfl, rfl⟩
  | cons choice rest ih =>
    obtain ⟨own, hchoice⟩ := Option.isSome_iff_exists.mp (hindex choice List.mem_cons_self)
    rw [readChoices_cons, ← List.append_assoc] at hfree
    rw [ChunkKept, hchoice] at hkept
    have hindex' : ∀ other ∈ rest, (choiceIndex? other).isSome = true := fun other hother =>
      hindex other (List.mem_cons_of_mem choice hother)
    obtain ⟨hcontent, hfields, hfinish⟩ :=
      ih (hfed.passed data hchoice hfree.of_append) hindex' hfree hkept.2
    obtain ⟨content, hheld, hparts⟩ := passChoice_kept ((hfed.unmarked own).see data choice)
      hchoice (hfed.miss hchoice hfree.of_append) hkept.1
    have hstate : (passChunk data eventName s (choice :: rest)).state
        = (passChunk data eventName (s.setState own (passed s data choice own).after)
            rest).state := by
      rw [passChunk, hchoice, Option.getD_some]
    intro out
    show statedBy _ _ (passChunk data eventName s (choice :: rest)).written
        ++ ((passChunk data eventName s (choice :: rest)).state.stateFor index).held = _ ∧
      statedBy _ _ (passChunk data eventName s (choice :: rest)).written = _ ∧
      statedBy _ _ (passChunk data eventName s (choice :: rest)).written = _
    rw [hstate, statedBy_written_cons data eventName _ hfed hchoice hindex' hfree,
      statedBy_written_cons data eventName _ hfed hchoice hindex' hfree,
      statedBy_written_cons data eventName _ hfed hchoice hindex' hfree, readChoices_cons,
      statedBy_append, statedBy_append, statedBy_append, hfields, hfinish, List.append_assoc,
      hcontent, readChoice_of_index hchoice]
    by_cases heq : own = index
    · subst heq
      have hall : ∀ p ∈ (passed s data choice own).parts choice, p.index = own := hparts.index
      rw [stateFor_setState, statedBy_of_eq _ hall, statedBy_of_eq _ hall, statedBy_of_eq _ hall,
        statedBy_singleton, statedBy_singleton, statedBy_singleton, if_pos rfl, if_pos rfl,
        if_pos rfl, ← List.append_assoc]
      have hown : ((passed s data choice own).parts choice).flatMap ChoicePart.content
          ++ (passed s data choice own).after.held = (s.stateFor own).held ++ contentOf choice := by
        rw [show ((passed s data choice own).parts choice).flatMap ChoicePart.content = content
          from hparts.content]
        exact hheld
      rw [hown, List.append_assoc]
      exact ⟨rfl, congrArg (· ++ _) hparts.fields, congrArg (· ++ _) hparts.finish⟩
    · have hall : ∀ p ∈ (passed s data choice own).parts choice, p.index = own := hparts.index
      rw [stateFor_setState_of_ne s _ heq, statedBy_of_ne _ hall heq, statedBy_of_ne _ hall heq,
        statedBy_of_ne _ hall heq, statedBy_singleton, statedBy_singleton, statedBy_singleton,
        if_neg heq, if_neg heq, if_neg heq]
      exact ⟨rfl, rfl, rfl⟩

/-- **A chunk that is not rewritten** states what it states, and nothing is written behind it. -/
theorem passChunk_unchanged (hfed : ChoicesFed s stated)
    (hindex : ∀ choice ∈ choices, (choiceIndex? choice).isSome = true)
    (hfree : MarkerFree (stated ++ readChoices choices))
    (hsame : (passChunk data eventName s choices).modified = false) :
    (passChunk data eventName s choices).generated = [] ∧
      ∀ index, statedBy ChoicePart.content index (readChoices choices)
          ++ ((passChunk data eventName s choices).state.stateFor index).held
        = (s.stateFor index).held
          ++ statedBy ChoicePart.content index (readChoices choices) := by
  induction choices generalizing s stated with
  | nil => exact ⟨rfl, fun index => (List.append_nil _).symm⟩
  | cons choice rest ih =>
    obtain ⟨own, hchoice⟩ := Option.isSome_iff_exists.mp (hindex choice List.mem_cons_self)
    rw [readChoices_cons, ← List.append_assoc] at hfree
    rw [passChunk, hchoice, Option.getD_some] at hsame ⊢
    obtain ⟨hown, hothers⟩ := Bool.or_eq_false_iff.mp hsame
    obtain ⟨hgenerated, hrest⟩ := ih (hfed.passed data hchoice hfree.of_append)
      (fun other hother => hindex other (List.mem_cons_of_mem choice hother)) hfree hothers
    have hheld := passChoice_unchanged ((hfed.unmarked own).see data choice)
      (hfed.miss hchoice hfree.of_append) hown
    have htail : (passed s data choice own).tail = [] := by
      have hmodified := hown
      rw [passed, passChoice] at hmodified ⊢
      split at hmodified
      · cases hmodified
      · rename_i hfinish
        rw [if_neg hfinish]
    refine ⟨by rw [hgenerated, tailEvents, if_pos htail]; rfl, fun index => ?_⟩
    rw [readChoices_cons, statedBy_append, List.append_assoc, hrest, readChoice_of_index hchoice,
      statedBy_singleton]
    by_cases heq : own = index
    · subst heq
      have hpassed : contentOf choice ++ (passed s data choice own).after.held
          = (s.stateFor own).held ++ contentOf choice := hheld
      rw [stateFor_setState, if_pos rfl, ← List.append_assoc, ← List.append_assoc]
      exact congrArg (· ++ _) hpassed
    · rw [stateFor_setState_of_ne s _ heq, if_neg heq]
      rfl

theorem chunkRewritten_of_modified (hfed : ChoicesFed s stated)
    (hindex : ∀ choice ∈ choices, (choiceIndex? choice).isSome = true)
    (hfree : MarkerFree (stated ++ readChoices choices))
    (hmodified : (passChunk data eventName s choices).modified = true) :
    ChunkRewritten data s choices := by
  induction choices generalizing s stated with
  | nil => cases hmodified
  | cons choice rest ih =>
    obtain ⟨own, hchoice⟩ := Option.isSome_iff_exists.mp (hindex choice List.mem_cons_self)
    rw [readChoices_cons, ← List.append_assoc] at hfree
    rw [passChunk, hchoice] at hmodified
    rw [ChunkRewritten, hchoice]
    rcases Bool.or_eq_true_iff.mp hmodified with hown | hothers
    · left
      exact entryRewritten_of_modified ((hfed.unmarked own).see data choice)
        (hfed.miss hchoice hfree.of_append) hown
    · right
      exact ih (hfed.passed data hchoice hfree.of_append)
        (fun other hother => hindex other (List.mem_cons_of_mem choice hother)) hfree hothers

end Chunk

/-! ## The wrapper -/

/-- The wrapper has written what was stated, apart from the content that it holds back. -/
structure Transparent (s : ChatState) (stated : List ChoicePart) : Prop where
  fed : ChoicesFed s stated
  running : s.terminated = false
  content : ∀ index, statedBy ChoicePart.content index (readPushes s.pushes)
    ++ (s.stateFor index).held = statedBy ChoicePart.content index stated
  fields : ∀ index, statedBy ChoicePart.fields index (readPushes s.pushes)
    = statedBy ChoicePart.fields index stated
  finish : ∀ index, statedBy ChoicePart.finish index (readPushes s.pushes)
    = statedBy ChoicePart.finish index stated

/-- Content that is released at the end repeats no other field. -/
def TailKept (c : ChoiceState) : Prop :=
  c.held ≠ [] → ∀ choice, c.lastChoice = some choice → otherFields choice = []

instance (c : ChoiceState) : Decidable (TailKept c) :=
  decidable_of_iff (c.held ≠ [] → ∀ choice ∈ c.lastChoice, otherFields choice = []) Iff.rfl

/-- The content of no choice repeats another field when it is released at the end. -/
def EndKept (s : ChatState) : Prop :=
  ∀ index ∈ s.states.keys, TailKept (s.stateFor index)

instance (s : ChatState) : Decidable (EndKept s) :=
  inferInstanceAs (Decidable (∀ index ∈ s.states.keys, TailKept (s.stateFor index)))

theorem stateFor_of_notMem (h : index ∉ s.states.keys) : s.stateFor index = choiceState := by
  have hnone : s.states.get? index = none := by
    rw [OrderedMap.mem_keys_iff, Bool.not_eq_true, Option.isSome_eq_false_iff,
      Option.isNone_iff_eq_none] at h
    exact h
  rw [ChatState.stateFor, hnone]
  rfl

theorem EndKept.tailKept (h : EndKept s) (index : Number) : TailKept (s.stateFor index) := by
  by_cases hmem : index ∈ s.states.keys
  · exact h index hmem
  · rw [stateFor_of_notMem hmem]
    exact fun hheld => absurd rfl hheld

/-- An event is a chunk of a completion, or states no choices. -/
def IsChatEvent (raw : Text) : Prop :=
  ∀ data, (parseChatEvent raw).data = .record data → choicesOf data = [] ∨
    (hasRecord data (text "error") = false ∧
      ∀ choice ∈ choicesOf data, (choiceIndex? choice).isSome = true)

instance (raw : Text) : Decidable (IsChatEvent raw) :=
  match h : (parseChatEvent raw).data with
  | .none | .done => isTrue fun data hdata => by rw [h] at hdata; cases hdata
  | .record data => decidable_of_iff (choicesOf data = [] ∨
      (hasRecord data (text "error") = false ∧
        ∀ choice ∈ choicesOf data, (choiceIndex? choice).isSome = true)) (by
    rw [IsChatEvent, h]
    exact ⟨fun hall _ heq => by cases heq; exact hall, fun hall => hall data rfl⟩)

/-- Nothing is lost or repeated by an event. -/
def EventKept (s : ChatState) (raw : Text) : Prop :=
  let s := s.named (parseChatEvent raw).eventName
  match (parseChatEvent raw).data with
  | .none => True
  | .done => EndKept s
  | .record data => ChunkRewritten data s (choicesOf data) → ChunkKept data s (choicesOf data)

instance (s : ChatState) (raw : Text) : Decidable (EventKept s raw) := by
  unfold EventKept
  dsimp only
  split <;> infer_instance

namespace Transparent

theorem new : Transparent .new [] where
  fed := choicesFed_new
  running := rfl
  content _ := rfl
  fields _ := rfl
  finish _ := rfl

theorem congr {s' : ChatState} (h : Transparent s stated) (hstates : s'.states = s.states)
    (hpushes : s'.pushes = s.pushes) (hterminated : s'.terminated = s.terminated) :
    Transparent s' stated := by
  have hfor : ∀ index, s'.stateFor index = s.stateFor index := by
    intro index
    rw [ChatState.stateFor, hstates]
    rfl
  refine ⟨⟨fun index => ?_, fun index => ?_, fun index => ?_⟩, ?_, fun index => ?_,
    fun index => ?_, fun index => ?_⟩
  · rw [hfor]
    exact h.fed.unmarked index
  · rw [hfor]
    exact h.fed.text index
  · rw [hfor]
    exact h.fed.seen index
  · rw [hterminated]
    exact h.running
  · rw [hpushes, hfor]
    exact h.content index
  · rw [hpushes]
    exact h.fields index
  · rw [hpushes]
    exact h.finish index

theorem push_silent (h : Transparent s stated) {p : ChatPush} (hp : readPush p = []) :
    Transparent (s.pushAll [p]) stated := by
  have hread : readPushes (s.pushAll [p]).pushes = readPushes s.pushes := by
    rw [pushes_pushAll, readPushes_append, readPushes_singleton, hp, List.append_nil]
  refine ⟨⟨h.fed.unmarked, h.fed.text, h.fed.seen⟩, h.running, fun index => ?_, fun index => ?_,
    fun index => ?_⟩
  · rw [hread]
    exact h.content index
  · rw [hread]
    exact h.fields index
  · rw [hread]
    exact h.finish index

section Run

variable (schemas : ToolSchemas) (isDestructive : Text → Bool)
  (processRecovered : Option RecoveredOpenAiChatProcessor)

variable {s : ChatState} {stated : List ChoicePart}

theorem write {s' : ChatState} {parts : List ChoicePart} (h : Transparent s stated)
    {ps : List ChatPush} (hfed : ChoicesFed s' (stated ++ parts))
    (hrunning : s'.terminated = false) (hpushes : s'.pushes = s.pushes)
    (hcontent : ∀ index, statedBy ChoicePart.content index (readPushes ps)
        ++ (s'.stateFor index).held
      = (s.stateFor index).held ++ statedBy ChoicePart.content index parts)
    (hfields : ∀ index, statedBy ChoicePart.fields index (readPushes ps)
      = statedBy ChoicePart.fields index parts)
    (hfinish : ∀ index, statedBy ChoicePart.finish index (readPushes ps)
      = statedBy ChoicePart.finish index parts) :
    Transparent (s'.pushAll ps) (stated ++ parts) := by
  refine ⟨⟨hfed.unmarked, hfed.text, hfed.seen⟩, hrunning, fun index => ?_, fun index => ?_,
    fun index => ?_⟩
  · rw [pushes_pushAll, hpushes, readPushes_append, statedBy_append, statedBy_append,
      stateFor_pushAll, List.append_assoc, hcontent, ← List.append_assoc, h.content]
  · rw [pushes_pushAll, hpushes, readPushes_append, statedBy_append, statedBy_append, h.fields,
      hfields]
  · rw [pushes_pushAll, hpushes, readPushes_append, statedBy_append, statedBy_append, h.finish,
      hfinish]

/-- **One chunk.** -/
theorem chunk (h : Transparent s stated) {raw : Text} {data : Json}
    (hdata : (parseChatEvent raw).data = .record data) (hchat : IsChatEvent raw)
    (hfree : MarkerFree (stated ++ readRaw raw))
    (hkept : ChunkRewritten data (s.named (parseChatEvent raw).eventName) (choicesOf data) →
      ChunkKept data (s.named (parseChatEvent raw).eventName) (choicesOf data)) :
    Transparent (processEvent schemas isDestructive processRecovered s raw)
      (stated ++ readRaw raw) := by
  have hopen : ¬ s.terminated = true := by
    rw [h.running]
    exact Bool.false_ne_true
  have hraw : readRaw raw = readChoices (choicesOf data) := by rw [readRaw, hdata]
  have hnamed : Transparent (s.named (parseChatEvent raw).eventName) stated := h.congr rfl rfl rfl
  rw [hraw] at hfree ⊢
  rw [processEvent, if_neg hopen]
  dsimp only
  rw [hdata]
  dsimp only
  rw [show (Json.array? (data.get? (text "choices"))).getD [] = choicesOf data from rfl]
  rcases hchat data hdata with hnone | ⟨herror, hindex⟩
  · rw [if_pos (.inr hnone), hnone, readChoices_nil, List.append_nil]
    refine hnamed.push_silent ?_
    rw [readPush, hraw, hnone, readChoices_nil]
  by_cases hnone : choicesOf data = []
  · rw [if_pos (.inr hnone), hnone, readChoices_nil, List.append_nil]
    refine hnamed.push_silent ?_
    rw [readPush, hraw, hnone, readChoices_nil]
  have hchunk : ¬ (hasRecord data (text "error") = true ∨ choicesOf data = []) := by
    rw [herror, not_or]
    exact ⟨Bool.false_ne_true, hnone⟩
  obtain ⟨hfold, hfed, hpushes, hrunning⟩ := foldl_processChoice schemas isDestructive
    processRecovered data (parseChatEvent raw).eventName
    (l := ⟨s.named (parseChatEvent raw).eventName, false, [], [], false⟩) rfl hnamed.running
    hnamed.fed hindex hfree 0
  rw [if_neg hchunk, hfold]
  rw [List.nil_append, List.nil_append, Bool.false_or]
  cases hmodified : (passChunk data (parseChatEvent raw).eventName
      (s.named (parseChatEvent raw).eventName) (choicesOf data)).modified with
  | false =>
    obtain ⟨hgenerated, hheld⟩ := passChunk_unchanged data (parseChatEvent raw).eventName
      hnamed.fed hindex hfree hmodified
    rw [hgenerated]
    refine hnamed.write hfed hrunning hpushes (fun index => ?_) (fun index => ?_) fun index => ?_
    · show statedBy _ _ (readPushes [.raw raw]) ++ _ = _
      rw [readPushes_singleton, readPush, hraw]
      exact hheld index
    · show statedBy _ _ (readPushes [.raw raw]) = _
      rw [readPushes_singleton, readPush, hraw]
    · show statedBy _ _ (readPushes [.raw raw]) = _
      rw [readPushes_singleton, readPush, hraw]
  | true =>
    have hkept' := hkept (chunkRewritten_of_modified data (parseChatEvent raw).eventName
      hnamed.fed hindex hfree hmodified)
    have hall := passChunk_kept data (parseChatEvent raw).eventName hnamed.fed hindex hfree hkept'
    generalize passChunk data (parseChatEvent raw).eventName
      (s.named (parseChatEvent raw).eventName) (choicesOf data) = out
      at hfed hpushes hrunning hall ⊢
    have hwritten : readPushes ((if (!true) = true then [ChatPush.raw raw]
        else if out.outputs = [] then []
        else [.event (parseChatEvent raw).eventName (some (withChoices data out.outputs))])
          ++ out.generated) = out.written := by
      rw [PassedChunk.written, readPushes_append, Bool.not_true, if_neg Bool.false_ne_true]
      split
      · rename_i hempty
        rw [hempty]
        rfl
      · rw [readPushes_singleton, readPush_withChoices]
    refine hnamed.write hfed hrunning hpushes (fun index => ?_) (fun index => ?_) fun index => ?_
    · rw [hwritten]
      exact (hall index).1
    · rw [hwritten]
      exact (hall index).2.1
    · rw [hwritten]
      exact (hall index).2.2

theorem settleChoice_release (h : Transparent s stated)
    (hopen : (s.stateFor index).finished = false) (hkept : TailKept (s.stateFor index))
    (eventName : Text) :
    ∃ ps, settleChoice schemas isDestructive processRecovered s index eventName
        = (ps, s.setState index { (s.stateFor index).finish with
            emittedLen := (s.stateFor index).text.length }) ∧
      readPushes ps = if (s.stateFor index).held = [] then []
        else [⟨index, (s.stateFor index).held, [], []⟩] := by
  have hcap := (h.fed.unmarked index).passing
  have hheld : (s.stateFor index).held = (s.stateFor index).text.drop
      (s.stateFor index).emittedLen := by
    rw [ChoiceState.held, hopen]
    rfl
  rcases h.fed.seen index hopen with hempty | ⟨data, choice, hchunk, hchoice, hindex, hnone⟩
  · -- a choice without content has no chunk to release it with
    have hnothing : (s.stateFor index).held = [] := by rw [hheld, hempty, List.drop_nil]
    rw [settleChoice]
    rw [if_neg (by rw [hopen]; exact Bool.false_ne_true),
      if_neg (by rw [hcap]; exact Bool.false_ne_true), ← hheld, hnothing]
    split <;> simp
  · rw [settleChoice_of_miss schemas isDestructive processRecovered eventName rfl hopen hcap
      hchunk hchoice, ← hheld]
    refine ⟨_, rfl, ?_⟩
    split
    · rfl
    · rename_i hne
      rw [readPushes_singleton, readPush_withChoices, readChoices_singleton,
        readChoice_withContent hindex, hkept hne choice hchoice, hnone]

/-- A choice that is settled holds nothing back. -/
theorem settle (h : Transparent s stated) (hkept : TailKept (s.stateFor index)) (eventName : Text) :
    let out := settleChoice schemas isDestructive processRecovered s index eventName
    Transparent (out.2.pushAll out.1) stated ∧ (out.2.stateFor index).finished = true ∧
      (∀ other, index ≠ other → out.2.stateFor other = s.stateFor other) ∧
      out.2.terminated = false := by
  cases hopen : (s.stateFor index).finished with
  | true =>
    have hsettled : settleChoice schemas isDestructive processRecovered s index eventName
        = ([], s) := by
      rw [settleChoice]
      rw [if_pos hopen]
    rw [hsettled]
    refine ⟨h.congr rfl ?_ rfl, hopen, fun _ _ => rfl, h.running⟩
    exact List.append_nil _
  | false =>
    obtain ⟨ps, hsettled, hread⟩ :=
      h.settleChoice_release schemas isDestructive processRecovered hopen hkept eventName
    rw [hsettled]
    have hfed : ChoicesFed (s.setState index { (s.stateFor index).finish with
        emittedLen := (s.stateFor index).text.length }) (stated ++ []) := by
      rw [List.append_nil]
      refine h.fed.setState ?_ (fun hfalse => (nomatch hfalse)) (fun hfalse => (nomatch hfalse))
        fun _ _ => rfl
      exact ⟨(h.fed.unmarked index).passing, (h.fed.unmarked index).miss,
        fun hfalse => (nomatch hfalse)⟩
    refine ⟨?_, by rw [stateFor_setState]; rfl, fun other hne => stateFor_setState_of_ne s _ hne,
      h.running⟩
    have hstated : stated = stated ++ [] := (List.append_nil _).symm
    rw [hstated]
    refine h.write hfed h.running rfl (fun other => ?_) (fun other => ?_) fun other => ?_
    · rw [hread, statedBy_nil, List.append_nil]
      by_cases heq : index = other
      · subst heq
        have hreleased : ({ (s.stateFor index).finish with
            emittedLen := (s.stateFor index).text.length } : ChoiceState).held = [] := rfl
        rw [stateFor_setState, hreleased, List.append_nil]
        split
        · rename_i hempty
          rw [hempty]
          rfl
        · rw [statedBy_singleton, if_pos rfl]
      · rw [stateFor_setState_of_ne s _ heq]
        split
        · rfl
        · rw [statedBy_singleton, if_neg heq]
          rfl
    · rw [hread]
      split
      · rfl
      · rw [statedBy_singleton]
        split <;> rfl
    · rw [hread]
      split
      · rfl
      · rw [statedBy_singleton]
        split <;> rfl

/-- **The end** of the choices. -/
theorem settleAll {indices : List Number} {s : ChatState} {stated : List ChoicePart}
    (h : Transparent s stated) (hkept : ∀ index, TailKept (s.stateFor index)) (eventName : Text) :
    let s' := LlmRelay.settleAll schemas isDestructive processRecovered s eventName indices
    Transparent s' stated ∧ (∀ index ∈ indices, (s'.stateFor index).finished = true) ∧
      ∀ index, index ∉ indices → s'.stateFor index = s.stateFor index := by
  induction indices generalizing s with
  | nil => exact ⟨h, fun _ hmem => (nomatch hmem), fun _ _ => rfl⟩
  | cons index rest ih =>
    obtain ⟨hsettled, hfinished, hother, hrunning⟩ :=
      h.settle schemas isDestructive processRecovered (hkept index) eventName
    have hkept' : ∀ other, TailKept (((settleChoice schemas isDestructive processRecovered s index
        eventName).2.pushAll (settleChoice schemas isDestructive processRecovered s index
          eventName).1).stateFor other) := by
      intro other
      rw [stateFor_pushAll]
      by_cases heq : index = other
      · subst heq
        intro hheld
        rw [ChoiceState.held, if_pos hfinished] at hheld
        exact absurd rfl hheld
      · rw [hother other heq]
        exact hkept other
    obtain ⟨hrest, hall, hunchanged⟩ := ih hsettled hkept'
    have hnot : ¬ ((settleChoice schemas isDestructive processRecovered s index
        eventName).2.pushAll (settleChoice schemas isDestructive processRecovered s index
          eventName).1).terminated = true := by
      rw [terminated_pushAll, hrunning]
      exact Bool.false_ne_true
    rw [LlmRelay.settleAll]
    rw [if_neg hnot]
    refine ⟨hrest, fun other hmem => ?_, fun other hnotmem => ?_⟩
    · by_cases hrestmem : other ∈ rest
      · exact hall other hrestmem
      · rcases List.mem_cons.mp hmem with rfl | hmem
        · rw [hunchanged other hrestmem]
          exact hfinished
        · exact absurd hmem hrestmem
    · rw [List.mem_cons, not_or] at hnotmem
      rw [hunchanged other hnotmem.2, stateFor_pushAll, hother other fun heq => hnotmem.1 heq.symm]

theorem settleAll_keys (h : Transparent s stated) (hkept : EndKept s) (eventName : Text)
    (index : Number) :
    ((LlmRelay.settleAll schemas isDestructive processRecovered s eventName
      s.states.keys).stateFor index).held = [] := by
  obtain ⟨-, hall, hunchanged⟩ := @settleAll schemas isDestructive processRecovered s.states.keys
    s stated h hkept.tailKept eventName
  by_cases hmem : index ∈ s.states.keys
  · rw [ChoiceState.held, if_pos (hall index hmem)]
  · rw [hunchanged index hmem, stateFor_of_notMem hmem]
    rfl

/-- **One event.** -/
theorem processEvent (h : Transparent s stated) {raw : Text} (hchat : IsChatEvent raw)
    (hfree : MarkerFree (stated ++ readRaw raw)) (hkept : EventKept s raw) :
    Transparent (LlmRelay.processEvent schemas isDestructive processRecovered s raw)
      (stated ++ readRaw raw) := by
  have hopen : ¬ s.terminated = true := by
    rw [h.running]
    exact Bool.false_ne_true
  rw [EventKept] at hkept
  cases hdata : (parseChatEvent raw).data with
  | record data =>
    rw [hdata] at hkept
    exact h.chunk schemas isDestructive processRecovered hdata hchat hfree hkept
  | none =>
    have hraw : readRaw raw = [] := by rw [readRaw, hdata]
    rw [LlmRelay.processEvent, if_neg hopen, hraw, List.append_nil]
    dsimp only
    rw [hdata]
    have hnamed : Transparent (s.named (parseChatEvent raw).eventName) stated :=
      h.congr rfl rfl rfl
    exact hnamed.push_silent hraw
  | done =>
    have hraw : readRaw raw = [] := by rw [readRaw, hdata]
    rw [hdata] at hkept
    have hdone : Transparent (s.named (parseChatEvent raw).eventName).sentinel stated :=
      h.congr rfl rfl rfl
    obtain ⟨hsettled, -, -⟩ := @settleAll schemas isDestructive processRecovered
      (s.named (parseChatEvent raw).eventName).states.keys _ stated hdone hkept.tailKept
      (parseChatEvent raw).eventName
    have hrunning : ¬ (LlmRelay.settleAll schemas isDestructive processRecovered
        (s.named (parseChatEvent raw).eventName).sentinel (parseChatEvent raw).eventName
        (s.named (parseChatEvent raw).eventName).states.keys).terminated = true := by
      rw [hsettled.running]
      exact Bool.false_ne_true
    rw [LlmRelay.processEvent, if_neg hopen, hraw, List.append_nil]
    dsimp only
    rw [hdata]
    rw [if_neg hrunning]
    exact hsettled.push_silent hraw

/-- **The end of the stream.** -/
theorem finishChat (h : Transparent s stated) (hkept : EndKept s) :
    Transparent (LlmRelay.finishChat schemas isDestructive processRecovered s) stated ∧
      ∀ index, ((LlmRelay.finishChat schemas isDestructive processRecovered s).stateFor
        index).held = [] := by
  have hopened : (s.states.keys.filter fun index =>
      (s.stateFor index).capturing && !(s.stateFor index).finished) = [] := by
    rw [List.filter_eq_nil_iff]
    intro index _
    rw [(h.fed.unmarked index).passing]
    exact Bool.false_ne_true
  obtain ⟨hsettled, -, -⟩ := @settleAll schemas isDestructive processRecovered s.states.keys s
    stated h hkept.tailKept s.lastEventName
  have hfinish : LlmRelay.finishChat schemas isDestructive processRecovered s
      = LlmRelay.settleAll schemas isDestructive processRecovered s s.lastEventName
        s.states.keys := by
    rw [LlmRelay.finishChat, hopened]
    simp
  rw [hfinish]
  exact ⟨hsettled, h.settleAll_keys schemas isDestructive processRecovered hkept s.lastEventName⟩

end Run

end Transparent

/-! ## The stream -/

/-- The events of a stream; a stream that ends has its remainder as the last one. -/
def chatRaws (upstream : ByteStream) : List Text :=
  let drained := (decodedFrames upstream.bytes).drain
  let remainder := (drained.2.takeRemainder (Utf8Decoder.new.decode upstream.bytes).1.flush).1
  drained.1.map SseFrame.raw ++ match upstream.ending with
    | .failed => []
    | .done => if remainder = [] then [] else [remainder]

/-- What a stream states. -/
def statedChat (upstream : ByteStream) : List ChoicePart :=
  (chatRaws upstream).flatMap readRaw

/-- What the client of the wrapper gets. -/
def ChatStream.pushes : ChatStream → List ChatPush
  | passthrough upstream => (chatRaws upstream).map .raw
  | closed s => s.pushes
  | errored s => s.pushes

section Stream

variable (schemas : ToolSchemas) (isDestructive : Text → Bool)
  (processRecovered : Option RecoveredOpenAiChatProcessor)

/-- The wrapper after some events. -/
def chatRun (s : ChatState) (raws : List Text) : ChatState :=
  raws.foldl (processEvent schemas isDestructive processRecovered) s

/-- Nothing is lost or repeated by the events, each in the state that it meets. -/
def EventsKept (s : ChatState) : List Text → Prop
  | [] => True
  | raw :: rest =>
    EventKept s raw ∧ EventsKept (processEvent schemas isDestructive processRecovered s raw) rest

instance decidableEventsKept (s : ChatState) : (raws : List Text) →
    Decidable (EventsKept schemas isDestructive processRecovered s raws)
  | [] => isTrue trivial
  | raw :: rest =>
    have := decidableEventsKept (processEvent schemas isDestructive processRecovered s raw) rest
    inferInstanceAs (Decidable (EventKept s raw ∧ EventsKept _ _ _ _ _))

theorem EventsKept.of_append {before after : List Text}
    (h : EventsKept schemas isDestructive processRecovered s (before ++ after)) :
    EventsKept schemas isDestructive processRecovered s before := by
  induction before generalizing s with
  | nil => trivial
  | cons raw before ih => exact ⟨h.1, ih h.2⟩

/-- At the end of a stream that fails nothing may be held back; at the end of any other, what is
released repeats nothing. -/
def EndingKept (s : ChatState) : StreamEnding → Prop
  | .done => EndKept s
  | .failed => ∀ index ∈ s.states.keys, (s.stateFor index).held = []

instance (s : ChatState) (ending : StreamEnding) : Decidable (EndingKept s ending) := by
  unfold EndingKept
  split <;> infer_instance

/-- Nothing is lost or repeated, by no event and not at the end. -/
def RunKept (ending : StreamEnding) (raws : List Text) : Prop :=
  EventsKept schemas isDestructive processRecovered .new raws ∧
    EndingKept (chatRun schemas isDestructive processRecovered .new raws) ending

instance (ending : StreamEnding) (raws : List Text) :
    Decidable (RunKept schemas isDestructive processRecovered ending raws) :=
  inferInstanceAs (Decidable (_ ∧ _))

/-- **Every state reached.** -/
theorem Transparent.chatRun (h : Transparent s stated) {raws : List Text}
    (hchat : ∀ raw ∈ raws, IsChatEvent raw) (hfree : MarkerFree (stated ++ raws.flatMap readRaw))
    (hkept : EventsKept schemas isDestructive processRecovered s raws) :
    Transparent (LlmRelay.chatRun schemas isDestructive processRecovered s raws)
      (stated ++ raws.flatMap readRaw) := by
  induction raws generalizing s stated with
  | nil =>
    rw [List.flatMap_nil, List.append_nil]
    exact h
  | cons raw rest ih =>
    rw [List.flatMap_cons, ← List.append_assoc] at hfree ⊢
    have hstep := h.processEvent schemas isDestructive processRecovered
      (hchat raw List.mem_cons_self) hfree.of_append hkept.1
    exact ih hstep (fun r hr => hchat r (List.mem_cons_of_mem raw hr)) hfree hkept.2

theorem recoverDialectInOpenAiChatStream_eq {upstream : ByteStream} {schemas : ToolSchemaMap}
    (hschemas : schemas.isEmpty = false) (isDestructive : Text → Bool)
    (processRecovered : Option RecoveredOpenAiChatProcessor)
    (hrunning : (chatRun (recoverySchemas schemas) isDestructive processRecovered
      .new (chatRaws upstream)).terminated = false) :
    recoverDialectInOpenAiChatStream upstream schemas isDestructive processRecovered
      = match upstream.ending with
        | .failed => .errored (chatRun (recoverySchemas schemas) isDestructive processRecovered
            .new (chatRaws upstream))
        | .done => .closed (finishChat (recoverySchemas schemas) isDestructive processRecovered
            (chatRun (recoverySchemas schemas) isDestructive processRecovered
              .new (chatRaws upstream))) := by
  have hnot : ¬ schemas.isEmpty = true := by
    rw [hschemas]
    exact Bool.false_ne_true
  have hfold : (decodedFrames upstream.chunks.flatten).drain.1.foldl
      (fun s frame => processEvent (recoverySchemas schemas) isDestructive processRecovered s
        frame.raw) ChatState.new
      = chatRun (recoverySchemas schemas) isDestructive processRecovered .new
          ((decodedFrames upstream.bytes).drain.1.map SseFrame.raw) := by
    rw [chatRun, List.foldl_map]
    rfl
  rw [recoverDialectInOpenAiChatStream, if_neg hnot]
  dsimp only
  rw [feedChunks_eq, hfold]
  rw [chatRaws] at hrunning ⊢
  rw [show upstream.chunks.flatten = upstream.bytes from rfl]
  cases hending : upstream.ending with
  | failed =>
    rw [hending] at hrunning
    rw [List.append_nil] at hrunning ⊢
    rw [hrunning, if_neg Bool.false_ne_true]
  | done =>
    rw [hending] at hrunning
    dsimp only at hrunning ⊢
    by_cases hempty : ((decodedFrames upstream.bytes).drain.2.takeRemainder
        (Utf8Decoder.new.decode upstream.bytes).1.flush).1 = []
    · rw [if_pos hempty, List.append_nil] at hrunning
      rw [if_pos hempty, if_pos hempty, List.append_nil, hrunning, if_neg Bool.false_ne_true]
    · rw [if_neg hempty] at hrunning
      have hlast : processEvent (recoverySchemas schemas) isDestructive processRecovered
          (chatRun (recoverySchemas schemas) isDestructive processRecovered .new
            ((decodedFrames upstream.bytes).drain.1.map SseFrame.raw))
          ((decodedFrames upstream.bytes).drain.2.takeRemainder
            (Utf8Decoder.new.decode upstream.bytes).1.flush).1
          = chatRun (recoverySchemas schemas) isDestructive processRecovered .new
            ((decodedFrames upstream.bytes).drain.1.map SseFrame.raw
              ++ [((decodedFrames upstream.bytes).drain.2.takeRemainder
                (Utf8Decoder.new.decode upstream.bytes).1.flush).1]) := by
        rw [chatRun, chatRun, List.foldl_append]
        rfl
      rw [if_neg hempty, if_neg hempty, hlast, hrunning, if_neg Bool.false_ne_true]

end Stream

/-- **Transparency.** Of a stream without a marker, the wrapper writes the content of every choice,
every other field of its deltas and every finish reason, each once and in order, when no event
loses or repeats any; in every state that it reaches it has done so, apart from the content that
it holds back. -/
theorem chat_stream_transparent (upstream : ByteStream) (schemas : ToolSchemaMap)
    (isDestructive : Text → Bool) (processRecovered : Option RecoveredOpenAiChatProcessor)
    (hchat : ∀ raw ∈ chatRaws upstream, IsChatEvent raw) (hfree : MarkerFree (statedChat upstream))
    (hkept : schemas.isEmpty = false → RunKept (recoverySchemas schemas) isDestructive
      processRecovered upstream.ending (chatRaws upstream)) :
    let written := readPushes (recoverDialectInOpenAiChatStream upstream schemas isDestructive
      processRecovered).pushes
    (∀ index,
      statedBy ChoicePart.content index written
          = statedBy ChoicePart.content index (statedChat upstream) ∧
        statedBy ChoicePart.fields index written
          = statedBy ChoicePart.fields index (statedChat upstream) ∧
        statedBy ChoicePart.finish index written
          = statedBy ChoicePart.finish index (statedChat upstream)) ∧
      (schemas.isEmpty = false → ∀ before after, chatRaws upstream = before ++ after →
        Transparent (chatRun (recoverySchemas schemas) isDestructive processRecovered .new before)
          (before.flatMap readRaw)) := by
  intro written
  have hprefix : schemas.isEmpty = false → ∀ before after, chatRaws upstream = before ++ after →
      Transparent (chatRun (recoverySchemas schemas) isDestructive processRecovered .new before)
        (before.flatMap readRaw) := by
    intro hschemas before after hsplit
    have hstated : statedChat upstream = before.flatMap readRaw ++ after.flatMap readRaw := by
      rw [statedChat, hsplit, List.flatMap_append]
    have hevents := (hkept hschemas).1
    rw [hsplit] at hevents hchat
    rw [hstated] at hfree
    exact Transparent.new.chatRun _ _ _ (fun raw hraw => hchat raw (List.mem_append_left _ hraw))
      hfree.of_append (hevents.of_append _ _ _)
  refine ⟨fun index => ?_, hprefix⟩
  cases hschemas : schemas.isEmpty with
  | true =>
    have hread : written = statedChat upstream := by
      show readPushes (recoverDialectInOpenAiChatStream _ _ _ _).pushes = _
      rw [recoverDialectInOpenAiChatStream, if_pos hschemas, ChatStream.pushes, readPushes,
        List.flatMap_map]
      rfl
    rw [hread]
    exact ⟨rfl, rfl, rfl⟩
  | false =>
    have hall := hprefix hschemas (chatRaws upstream) [] (List.append_nil _).symm
    have hend := (hkept hschemas).2
    have hstream := recoverDialectInOpenAiChatStream_eq hschemas isDestructive processRecovered
      hall.running
    -- nothing is held back in the last state
    obtain ⟨s, hpushes, hlast, hheld⟩ : ∃ s : ChatState,
        (recoverDialectInOpenAiChatStream upstream schemas isDestructive
          processRecovered).pushes = s.pushes ∧ Transparent s (statedChat upstream) ∧
        (s.stateFor index).held = [] := by
      cases hending : upstream.ending with
      | done =>
        rw [hending] at hstream hend
        obtain ⟨hfinished, hheld⟩ := hall.finishChat _ _ _ hend
        exact ⟨_, by rw [hstream]; rfl, hfinished, hheld index⟩
      | failed =>
        rw [hending] at hstream hend
        refine ⟨_, by rw [hstream]; rfl, hall, ?_⟩
        by_cases hmem : index ∈ (chatRun (recoverySchemas schemas) isDestructive
            processRecovered .new (chatRaws upstream)).states.keys
        · exact hend index hmem
        · rw [stateFor_of_notMem hmem]
          rfl
    have hread : written = readPushes s.pushes := congrArg readPushes hpushes
    have hcontent := hlast.content index
    rw [hheld, List.append_nil] at hcontent
    rw [hread]
    exact ⟨hcontent, hlast.fields index, hlast.finish index⟩

/-- A stream whose only chunk states some content and the finish reason. -/
def oneChunkStream (content : Text) : ByteStream :=
  let choice : Json := .obj [(text "index", .num 0),
    (text "delta", .obj [(text "content", .str content)]),
    (text "finish_reason", .str (text "stop"))]
  ⟨[encodeUtf8 (encodeEvent [] (some (.obj [(text "choices", .arr [choice])]))
    ++ encodeEvent [] none)], .done⟩

/-- The content and the finish reason of a chunk are written, though the content ends like a
marker. -/
theorem one_chunk_transparent :
    let written := readPushes (recoverDialectInOpenAiChatStream (oneChunkStream (text "a <"))
      [(text "Read", none)] (fun _ => false) none).pushes
    statedBy ChoicePart.content 0 written = text "a <" ∧
      statedBy ChoicePart.finish 0 written = [.str (text "stop")] := by
  obtain ⟨hparts, -⟩ := chat_stream_transparent (oneChunkStream (text "a <"))
    [(text "Read", none)] (fun _ => false) none (by decide +kernel)
    (markerFree_of_indices (by decide +kernel)) (fun _ => by decide +kernel)
  obtain ⟨hcontent, -, hfinish⟩ := hparts 0
  refine ⟨hcontent.trans ?_, hfinish.trans ?_⟩ <;> decide +kernel

/-- Of a chunk with empty content the finish reason is lost. -/
theorem one_chunk_unfinished :
    (∀ raw ∈ chatRaws (oneChunkStream []), IsChatEvent raw) ∧
      MarkerFree (statedChat (oneChunkStream [])) ∧
      statedBy ChoicePart.finish 0 (statedChat (oneChunkStream [])) = [.str (text "stop")] ∧
      statedBy ChoicePart.finish 0 (readPushes (recoverDialectInOpenAiChatStream
        (oneChunkStream []) [(text "Read", none)] (fun _ => false) none).pushes) = [] := by
  refine ⟨?_, markerFree_of_indices ?_, ?_⟩ <;> decide +kernel

end LlmRelay
