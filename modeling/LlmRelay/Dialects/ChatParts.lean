import LlmRelay.Dialects.ChatAgreement

/-!
# What the chunks of a chat stream state

A chunk states, for each of its choices, a piece of content, other fields of the delta and a
finish reason. The wrapper of a chat stream (`openai-dialect.ts`) rewrites a chunk when it holds
back or releases content; this module says what of a choice is carried on then, as long as no
marker has come.

## Main definitions

* `ChoicePart`, `readChoice`, `statedBy`: what a choice states, and what a list of them states
  of one choice;
* `ChoiceState.held`: the content that is held back;
* `passChoice`: what one choice of a chunk becomes;
* `EntryKept`: nothing that it states is lost or repeated when its chunk is rewritten.

## Main results

* `passChoice_content`, `passChoice_fields`, `passChoice_finish`: what is carried on of a choice
  that is kept;
* `passChoice_unchanged`: a chunk that is not rewritten carries what it states.
-/

namespace LlmRelay

open Ecma

/-! ## Reading -/

/-- What one choice of a chunk states. -/
structure ChoicePart where
  index : Number
  content : Text
  fields : List (Text × Json)
  finish : List Json
  deriving DecidableEq

/-- The fields of a delta other than the content. -/
def otherFields (choice : Json) : List (Text × Json) :=
  (recordFields (choice.get? (text "delta"))).filter fun p => p.1 != text "content"

/-- The finish reason of a choice, when it states one. -/
def finishOf (choice : Json) : List Json :=
  if isPresent (choice.get? (text "finish_reason")) then
    (choice.get? (text "finish_reason")).toList
  else []

/-- The index that a choice states. -/
def choiceIndex? (choice : Json) : Option Number :=
  Json.number? (choice.get? (text "index"))

/-- What a choice states, by its index. -/
def readChoice (choice : Json) : List ChoicePart :=
  match choiceIndex? choice with
  | some index =>
    [⟨index, (choiceContent choice).getD [], otherFields choice, finishOf choice⟩]
  | none => []

/-- What the choices of a chunk state. -/
def readChoices (choices : List Json) : List ChoicePart :=
  choices.flatMap readChoice

/-- What parts state of one choice, by the field that `f` reads. -/
def statedBy {α : Type} (f : ChoicePart → List α) (index : Number) (parts : List ChoicePart) :
    List α :=
  parts.flatMap fun p => if p.index = index then f p else []

section StatedBy

variable {α : Type} (f : ChoicePart → List α) (index : Number)

@[simp] theorem statedBy_nil : statedBy f index [] = [] := rfl

@[simp] theorem statedBy_append (ps qs : List ChoicePart) :
    statedBy f index (ps ++ qs) = statedBy f index ps ++ statedBy f index qs :=
  List.flatMap_append

theorem statedBy_singleton (p : ChoicePart) :
    statedBy f index [p] = if p.index = index then f p else [] := by
  rw [statedBy, List.flatMap_singleton]

end StatedBy

@[simp] theorem readChoices_nil : readChoices [] = [] := rfl

variable (choice : Json)

@[simp] theorem readChoices_cons (choices : List Json) :
    readChoices (choice :: choices) = readChoice choice ++ readChoices choices := rfl

theorem readChoices_append (cs ds : List Json) :
    readChoices (cs ++ ds) = readChoices cs ++ readChoices ds :=
  List.flatMap_append

@[simp] theorem readChoices_singleton : readChoices [choice] = readChoice choice := by
  rw [readChoices_cons, readChoices_nil, List.append_nil]

/-! ## Rewritten choices -/

theorem filter_setEntry_ne (k : Text) (v : Json) (fields : List (Text × Json)) :
    (setEntry k v fields).filter (fun p => p.1 != k) = fields.filter fun p => p.1 != k := by
  induction fields with
  | nil => simp [setEntry]
  | cons p rest ih =>
    rw [setEntry]
    split
    · rename_i hk
      rw [List.filter_cons_of_neg (by simp), List.filter_cons_of_neg (by simp [hk])]
    · rw [List.filter_cons, List.filter_cons, ih]

theorem filter_insertProperty_ne (k : Text) (v : Json) (fields : List (Text × Json)) :
    (insertProperty k v fields).filter (fun p => p.1 != k) = fields.filter fun p => p.1 != k := by
  have hnew : ∀ rest : List (Text × Json),
      ((k, v) :: rest).filter (fun p => p.1 != k) = rest.filter fun p => p.1 != k := fun rest =>
    List.filter_cons_of_neg (by simp)
  induction fields with
  | nil => exact hnew []
  | cons p rest ih =>
    rw [insertProperty]
    split
    · split
      · exact hnew _
      · rw [List.filter_cons, List.filter_cons, ih]
    · exact hnew _
    · rw [List.filter_cons, List.filter_cons, ih]

theorem filter_setProperty_ne (k : Text) (v : Json) (fields : List (Text × Json)) :
    (setProperty fields k v).filter (fun p => p.1 != k) = fields.filter fun p => p.1 != k := by
  rw [setProperty]
  split
  · exact filter_setEntry_ne k v fields
  · exact filter_insertProperty_ne k v fields

theorem recordFields_deltaOf :
    recordFields (some (deltaOf choice)) = recordFields (choice.get? (text "delta")) := by
  rw [deltaOf]
  match choice.get? (text "delta") with
  | none => rfl
  | some (.obj fields) => rfl
  | some .null | some (.bool _) | some (.num _) | some (.str _) | some (.arr _) => rfl

theorem get?_withField_of_ne {value : Json} {key k : Text} {v : Json} (h : key ≠ k) :
    (withField value key v).get? k = value.get? k := by
  rw [get?_withField, if_neg h, ← get?_eq_lookupEntry]

theorem choiceIndex?_withContent (content : Text) :
    choiceIndex? (withContent choice content) = choiceIndex? choice := by
  have hindex : text "delta" ≠ text "index" := by decide
  rw [choiceIndex?, withContent, get?_withField_of_ne hindex]
  rfl

variable {choice : Json} {index : Number}

theorem readChoice_of_index (h : choiceIndex? choice = some index) :
    readChoice choice
      = [⟨index, (choiceContent choice).getD [], otherFields choice, finishOf choice⟩] := by
  rw [readChoice, h]

/-- **A choice with other content** states its other fields and its finish reason. -/
theorem readChoice_withContent (h : choiceIndex? choice = some index) (content : Text) :
    readChoice (withContent choice content)
      = [⟨index, content, otherFields choice, finishOf choice⟩] := by
  have hfinish : text "delta" ≠ text "finish_reason" := by decide
  have hfields : otherFields (withContent choice content) = otherFields choice := by
    rw [otherFields, withContent, get?_withField]
    show (setProperty (recordFields (some (deltaOf choice))) _ _).filter _ = _
    rw [filter_setProperty_ne, recordFields_deltaOf, otherFields]
  have hreason : finishOf (withContent choice content) = finishOf choice := by
    rw [finishOf, withContent, get?_withField_of_ne hfinish]
    rfl
  have hread := (choiceIndex?_withContent choice content).trans h
  rw [readChoice_of_index hread, hfields, hreason, choiceContent_withContent]
  rfl

theorem readChoice_withoutFinishReason (h : choiceIndex? choice = some index) :
    (∀ rest ∈ withoutFinishReason choice, readChoice rest
        = [⟨index, (choiceContent choice).getD [], otherFields choice, []⟩]) ∧
      (withoutFinishReason choice = none → choiceContent choice = none ∧ otherFields choice = []) := by
  have hindex : text "finish_reason" ≠ text "index" := by decide
  have hdelta : text "finish_reason" ≠ text "delta" := by decide
  rw [withoutFinishReason, recordFields_deltaOf]
  split
  · rename_i hempty
    refine ⟨fun _ hmem => (by cases hmem), fun _ => ⟨?_, by rw [otherFields, hempty]; rfl⟩⟩
    rw [choiceContent_eq_deltaOf, get?_eq_lookupEntry, recordFields_deltaOf, hempty]
    rfl
  · refine ⟨fun rest hmem => ?_, fun hnone => (by cases hnone)⟩
    cases hmem
    have hread : choiceIndex? (withField choice (text "finish_reason") .null) = some index := by
      rw [choiceIndex?, get?_withField_of_ne hindex]
      exact h
    have hreason : finishOf (withField choice (text "finish_reason") .null) = [] := by
      rw [finishOf, get?_withField]
      rfl
    rw [readChoice, hread, hreason, otherFields, choiceContent, get?_withField_of_ne hdelta]
    rfl

/-! ## One choice of a chunk -/

/-- The content that a choice holds back. -/
def ChoiceState.held (c : ChoiceState) : Text :=
  if c.finished then [] else c.text.drop c.emittedLen

/-- The choice as the wrapper last saw it. -/
def ChoiceState.see (c : ChoiceState) (data choice : Json) : ChoiceState :=
  { c with lastChunk := some data, lastChoice := some choice }

/-- What one choice of a chunk becomes: its state, what is left of it in the chunk, the content
that is released behind the chunk, and whether the chunk has to be rewritten. -/
structure PassedChoice where
  after : ChoiceState
  output : Option Json
  tail : Text
  modified : Bool

/-- One choice of a chunk, as long as no marker has come. -/
def passChoice (c : ChoiceState) (choice : Json) : PassedChoice :=
  let received := receiveChoice c choice
  if isPresent (choice.get? (text "finish_reason")) && !c.finished then
    let tail := received.1.text.drop received.1.emittedLen
    ⟨{ received.1.finish with emittedLen := received.1.text.length },
      if tail = [] then received.2.1 else received.2.1.bind withoutFinishReason, tail, true⟩
  else ⟨received.1, received.2.1, [], received.2.2⟩

/-- The state of a choice without a marker: what could become one is held back. -/
structure Unmarked (c : ChoiceState) : Prop where
  passing : c.capturing = false
  miss : (scanForMarker c.text).hit = false
  emitted : c.finished = false → c.emittedLen = (scanForMarker c.text).safeLen

/-- What is safe to forward when content comes. -/
def safePart (c : ChoiceState) (content : Text) : Text :=
  ((c.text ++ content).take (scanForMarker (c.text ++ content)).safeLen).drop c.emittedLen

/-- What is held back then. -/
def heldPart (c : ChoiceState) (content : Text) : Text :=
  (c.text ++ content).drop (scanForMarker (c.text ++ content)).safeLen

variable {c : ChoiceState}

theorem safePart_append_heldPart {content : Text} (h : Unmarked c) (hopen : c.finished = false)
    (hmiss : (scanForMarker (c.text ++ content)).hit = false) :
    safePart c content ++ heldPart c content = c.held ++ content := by
  have hle := safeLen_le_length c.text
  have hmono := safeLen_mono h.miss hmiss
  have hheld : c.held ++ content = (c.text ++ content).drop c.emittedLen := by
    rw [ChoiceState.held, hopen, List.drop_append_of_le_length (by rw [h.emitted hopen]; exact hle)]
    rfl
  have hsplit : ∀ (t : Text) (n e : Nat), e ≤ (t.take n).length →
      (t.take n).drop e ++ t.drop n = t.drop e := by
    intro t n e he
    rw [← List.drop_append_of_le_length he, List.take_append_drop]
  have hle' := safeLen_le_length (c.text ++ content)
  rw [hheld, safePart, heldPart, hsplit]
  rw [List.length_take, h.emitted hopen]
  omega

/-- The content is safe as it came, and nothing was held back before it. -/
def passesAsCame (c : ChoiceState) (content : Text) : Bool :=
  decide (safePart c content = content) && decide (c.emittedLen = c.text.length)

theorem receiveContent_of_miss {content : Text} (h : Unmarked c)
    (hmiss : (scanForMarker (c.text ++ content)).hit = false) (choice : Json) :
    receiveContent c choice content
      = ({ c with
            text := c.text ++ content
            emittedLen := (scanForMarker (c.text ++ content)).safeLen },
          if safePart c content = [] then none
          else some (if passesAsCame c content then choice
            else withContent choice (safePart c content)),
          !passesAsCame c content) := by
  have hcap : ¬ c.capturing = true := by
    rw [h.passing]
    exact Bool.false_ne_true
  have hhit : ¬ (scanForMarker (c.text ++ content)).hit = true := by
    rw [hmiss]
    exact Bool.false_ne_true
  rw [receiveContent]
  rw [if_neg hcap, if_neg hhit]
  rfl

/-! ## What is carried on -/

/-- What the choice becomes states: what is left of it in the chunk, and the released content,
which is written with the other fields and the finish reason of the choice. -/
def PassedChoice.parts (p : PassedChoice) (choice : Json) : List ChoicePart :=
  readChoices p.output.toList
    ++ if p.tail = [] then [] else readChoice (withContent choice p.tail)

/-- The content of a choice, none when it states none. -/
def contentOf (choice : Json) : Text :=
  (choiceContent choice).getD []

/-- The whole content of the choice is held back. -/
def Withheld (c : ChoiceState) (choice : Json) : Prop :=
  ∃ content, choiceContent choice = some content ∧ safePart c content = []

instance (c : ChoiceState) (choice : Json) : Decidable (Withheld c choice) :=
  decidable_of_iff ((choiceContent choice).any fun content => decide (safePart c content = []))
    (by simp [Withheld, Option.any_eq_true])

/-- **Nothing is lost or repeated.** A choice that has finished states nothing more. One whose
content is held back whole states no other fields and no finish reason, unless the finish reason
releases content again. A finish reason that releases content behind the chunk comes without
other fields, when the rest of the choice stays in the chunk. -/
def EntryKept (c : ChoiceState) (choice : Json) : Prop :=
  if c.finished then contentOf choice = [] ∧ otherFields choice = [] ∧ finishOf choice = []
  else if finishOf choice = [] then Withheld c choice → otherFields choice = []
  else if heldPart c (contentOf choice) = [] then ¬ Withheld c choice
  else Withheld c choice ∨ otherFields choice = []

instance (c : ChoiceState) (choice : Json) : Decidable (EntryKept c choice) := by
  unfold EntryKept
  infer_instance

theorem isPresent_iff :
    isPresent (choice.get? (text "finish_reason")) = true ↔ finishOf choice ≠ [] := by
  rw [finishOf]
  match choice.get? (text "finish_reason") with
  | none => simp [isPresent]
  | some .null => simp [isPresent]
  | some (.bool _) | some (.num _) | some (.str _) | some (.arr _) | some (.obj _) =>
    simp [isPresent]

theorem receiveChoice_of_miss (h : Unmarked c) (hopen : c.finished = false)
    (hindex : choiceIndex? choice = some index)
    (hmiss : (scanForMarker (c.text ++ contentOf choice)).hit = false) :
    let r := receiveChoice c choice
    r.1.text = c.text ++ contentOf choice ∧ r.1.finished = false ∧ r.1.capturing = false ∧
      r.1.text.drop r.1.emittedLen = heldPart c (contentOf choice) ∧
      r.1.emittedLen = (scanForMarker (c.text ++ contentOf choice)).safeLen ∧
      r.1.lastChoice = c.lastChoice ∧ r.1.lastChunk = c.lastChunk ∧
      (r.2.1 = none ↔ Withheld c choice) ∧
      ∀ output ∈ r.2.1, choiceIndex? output = some index ∧ ∃ content,
        content ++ heldPart c (contentOf choice) = c.held ++ contentOf choice ∧
        readChoice output = [⟨index, content, otherFields choice, finishOf choice⟩] := by
  intro r
  have hnot : ¬ c.finished = true := by
    rw [hopen]
    exact Bool.false_ne_true
  have hsafe := safePart_append_heldPart h hopen hmiss
  cases hcontent : choiceContent choice with
  | none =>
    have hr : r = (c, some choice, false) := by
      simp only [r, receiveChoice, hcontent, if_neg hnot]
    have hnone : contentOf choice = [] := by rw [contentOf, hcontent]; rfl
    rw [hr, hnone, heldPart, List.append_nil, List.append_nil, h.emitted hopen]
    refine ⟨rfl, hopen, h.passing, rfl, rfl, rfl, rfl, ⟨fun h => (by cases h), ?_⟩, ?_⟩
    · rintro ⟨content, hsome, -⟩
      rw [hcontent] at hsome
      cases hsome
    · intro output hmem
      cases hmem
      refine ⟨hindex, [], ?_, ?_⟩
      · rw [ChoiceState.held, hopen, h.emitted hopen]
        rfl
      · rw [readChoice_of_index hindex, hcontent]
        rfl
  | some content =>
    have hsome : contentOf choice = content := by rw [contentOf, hcontent]; rfl
    rw [hsome] at hmiss hsafe ⊢
    have hr : r = receiveContent c choice content := by
      simp only [r, receiveChoice, hcontent, if_neg hnot]
    rw [hr, receiveContent_of_miss h hmiss]
    have hwithheld : Withheld c choice ↔ safePart c content = [] := by
      constructor
      · rintro ⟨content', hcontent', hempty⟩
        rw [hcontent] at hcontent'
        cases hcontent'
        exact hempty
      · exact fun hempty => ⟨content, hcontent, hempty⟩
    refine ⟨rfl, hopen, h.passing, rfl, rfl, rfl, rfl, ?_, ?_⟩
    · rw [hwithheld]
      split
      · rename_i hempty
        exact ⟨fun _ => hempty, fun _ => rfl⟩
      · rename_i hne
        exact ⟨fun h => (by cases h), fun h => absurd h hne⟩
    · intro output hmem
      split at hmem
      · cases hmem
      · cases hmem
        split
        · rename_i hsame
          rw [passesAsCame, Bool.and_eq_true, decide_eq_true_eq] at hsame
          refine ⟨hindex, content, ?_, ?_⟩
          · rw [← hsafe, hsame.1]
          · rw [readChoice_of_index hindex, hcontent]
            rfl
        · exact ⟨(choiceIndex?_withContent choice _).trans hindex, safePart c content, hsafe,
            readChoice_withContent hindex _⟩

theorem passChoice_of_finished (h : c.finished = true) (choice : Json) :
    passChoice c choice = ⟨c, none, [], false⟩ := by
  have hreceived : receiveChoice c choice = (c, none, false) := by rw [receiveChoice, if_pos h]
  rw [passChoice, hreceived, h]
  simp

theorem heldPart_of_withheld (h : Unmarked c) (hopen : c.finished = false)
    (hmiss : (scanForMarker (c.text ++ contentOf choice)).hit = false)
    (hwithheld : Withheld c choice) :
    heldPart c (contentOf choice) = c.held ++ contentOf choice := by
  obtain ⟨content, hcontent, hempty⟩ := hwithheld
  have hsome : contentOf choice = content := by rw [contentOf, hcontent]; rfl
  rw [hsome] at hmiss ⊢
  rw [← safePart_append_heldPart h hopen hmiss, hempty, List.nil_append]

/-- The content, the other fields and the finish reasons of parts of one choice. -/
structure PartsState (parts : List ChoicePart) (index : Number) (content : Text)
    (fields : List (Text × Json)) (finish : List Json) : Prop where
  index : ∀ p ∈ parts, p.index = index
  content : parts.flatMap ChoicePart.content = content
  fields : parts.flatMap ChoicePart.fields = fields
  finish : parts.flatMap ChoicePart.finish = finish

theorem PartsState.nil (index : Number) : PartsState [] index [] [] [] :=
  ⟨fun _ h => (by cases h), rfl, rfl, rfl⟩

theorem PartsState.singleton (p : ChoicePart) :
    PartsState [p] p.index p.content p.fields p.finish :=
  ⟨fun _ h => by rw [List.mem_singleton.mp h], List.flatMap_singleton _ _,
    List.flatMap_singleton _ _, List.flatMap_singleton _ _⟩

theorem PartsState.append {ps qs : List ChoicePart} {a b : Text} {c d : List (Text × Json)}
    {e f : List Json} (hp : PartsState ps index a c e) (hq : PartsState qs index b d f) :
    PartsState (ps ++ qs) index (a ++ b) (c ++ d) (e ++ f) where
  index p hmem := (List.mem_append.mp hmem).elim (hp.index p) (hq.index p)
  content := by rw [List.flatMap_append, hp.content, hq.content]
  fields := by rw [List.flatMap_append, hp.fields, hq.fields]
  finish := by rw [List.flatMap_append, hp.finish, hq.finish]

theorem passChoice_of_unfinished (c : ChoiceState) (hfinish : finishOf choice = []) :
    passChoice c choice = ⟨(receiveChoice c choice).1, (receiveChoice c choice).2.1, [],
      (receiveChoice c choice).2.2⟩ := by
  rw [passChoice]
  rw [if_neg]
  rw [Bool.and_eq_true, isPresent_iff, hfinish]
  exact fun hand => hand.1 rfl

theorem passChoice_of_finish (h : Unmarked c) (hopen : c.finished = false)
    (hindex : choiceIndex? choice = some index)
    (hmiss : (scanForMarker (c.text ++ contentOf choice)).hit = false)
    (hfinish : finishOf choice ≠ []) :
    passChoice c choice = ⟨{ (receiveChoice c choice).1.finish with
          emittedLen := (receiveChoice c choice).1.text.length },
        if heldPart c (contentOf choice) = [] then (receiveChoice c choice).2.1
          else (receiveChoice c choice).2.1.bind withoutFinishReason,
        heldPart c (contentOf choice), true⟩ := by
  obtain ⟨-, -, -, hdrop, -⟩ := receiveChoice_of_miss h hopen hindex hmiss
  rw [passChoice]
  rw [if_pos, hdrop]
  rw [Bool.and_eq_true, isPresent_iff, hopen]
  exact ⟨hfinish, rfl⟩

section Kept

variable {c : ChoiceState} (h : Unmarked c) (hopen : c.finished = false) {choice : Json}
  {index : Number} (hindex : choiceIndex? choice = some index)
  (hmiss : (scanForMarker (c.text ++ contentOf choice)).hit = false)
include h hopen hindex hmiss

theorem partsState_received {output : Json} (hreceived : (receiveChoice c choice).2.1 = some output) :
    ∃ content, content ++ heldPart c (contentOf choice) = c.held ++ contentOf choice ∧
      PartsState (readChoice output) index content (otherFields choice) (finishOf choice) := by
  obtain ⟨-, -, -, -, -, -, -, -, houtput⟩ := receiveChoice_of_miss h hopen hindex hmiss
  obtain ⟨-, content, hcontent, hread⟩ := houtput output hreceived
  rw [hread]
  exact ⟨content, hcontent, PartsState.singleton _⟩

theorem partsState_of_unfinished (hfinish : finishOf choice = [])
    (hkept : Withheld c choice → otherFields choice = []) :
    ∃ content, content ++ (passChoice c choice).after.held = c.held ++ contentOf choice ∧
      PartsState ((passChoice c choice).parts choice) index content (otherFields choice)
        (finishOf choice) := by
  obtain ⟨-, hopen', -, hdrop, -, -, -, hnone, -⟩ :=
    receiveChoice_of_miss h hopen hindex hmiss
  have hpass := passChoice_of_unfinished c hfinish
  have hheld : (passChoice c choice).after.held = heldPart c (contentOf choice) := by
    rw [hpass, ← hdrop, ChoiceState.held, hopen']
    rfl
  rw [hheld, hpass]
  cases hreceived : (receiveChoice c choice).2.1 with
  | none =>
    have hwithheld := hnone.mp hreceived
    rw [hkept hwithheld, hfinish]
    exact ⟨[], heldPart_of_withheld h hopen hmiss hwithheld, PartsState.nil index⟩
  | some output =>
    obtain ⟨content, hcontent, hparts⟩ := partsState_received h hopen hindex hmiss hreceived
    refine ⟨content, hcontent, ?_⟩
    show PartsState (readChoices [output] ++ []) index content _ _
    rw [readChoices_singleton, List.append_nil]
    exact hparts

theorem partsState_of_nothingHeld (hfinish : finishOf choice ≠ [])
    (hempty : heldPart c (contentOf choice) = []) (hkept : ¬ Withheld c choice) :
    ∃ content, content = c.held ++ contentOf choice ∧
      PartsState ((passChoice c choice).parts choice) index content (otherFields choice)
        (finishOf choice) := by
  obtain ⟨-, -, -, -, -, -, -, hnone, -⟩ := receiveChoice_of_miss h hopen hindex hmiss
  rw [passChoice_of_finish h hopen hindex hmiss hfinish]
  cases hreceived : (receiveChoice c choice).2.1 with
  | none => exact absurd (hnone.mp hreceived) hkept
  | some output =>
    obtain ⟨content, hcontent, hparts⟩ := partsState_received h hopen hindex hmiss hreceived
    rw [hempty] at hcontent ⊢
    refine ⟨content, by rw [← hcontent, List.append_nil], ?_⟩
    show PartsState (readChoices [output] ++ []) index content _ _
    rw [readChoices_singleton, List.append_nil]
    exact hparts

theorem partsState_of_released (hfinish : finishOf choice ≠ [])
    (hheld : heldPart c (contentOf choice) ≠ [])
    (hkept : Withheld c choice ∨ otherFields choice = []) :
    ∃ content, content = c.held ++ contentOf choice ∧
      PartsState ((passChoice c choice).parts choice) index content (otherFields choice)
        (finishOf choice) := by
  obtain ⟨-, -, -, -, -, -, -, hnone, houtput⟩ := receiveChoice_of_miss h hopen hindex hmiss
  have htail : (if heldPart c (contentOf choice) = [] then []
      else readChoice (withContent choice (heldPart c (contentOf choice))))
      = [⟨index, heldPart c (contentOf choice), otherFields choice, finishOf choice⟩] := by
    rw [if_neg hheld, readChoice_withContent hindex]
  rw [passChoice_of_finish h hopen hindex hmiss hfinish, if_neg hheld, PassedChoice.parts]
  rw [htail]
  cases hreceived : (receiveChoice c choice).2.1 with
  | none =>
    exact ⟨heldPart c (contentOf choice),
      heldPart_of_withheld h hopen hmiss (hnone.mp hreceived), PartsState.singleton _⟩
  | some output =>
    obtain ⟨houtindex, content, hcontent, hread⟩ := houtput output hreceived
    -- the fields would be stated in the chunk and behind it
    have hfields : otherFields choice = [] := by
      rcases hkept with hwithheld | hfields
      · rw [hnone.mpr hwithheld] at hreceived
        cases hreceived
      · exact hfields
    rw [readChoice_of_index houtindex] at hread
    injection hread with hpart
    injection hpart with _ houtcontent houtfields houtfinish
    obtain ⟨hrest, hremoved⟩ := readChoice_withoutFinishReason houtindex
    refine ⟨content ++ heldPart c (contentOf choice), hcontent, ?_⟩
    rw [hfields]
    cases hwithout : withoutFinishReason output with
    | none =>
      -- nothing else is left of the choice
      rw [(hremoved hwithout).1] at houtcontent
      rw [Option.bind_some, hwithout, ← houtcontent]
      exact PartsState.singleton _
    | some rest =>
      rw [Option.bind_some, hwithout]
      show PartsState (readChoices [rest] ++ _) index _ ([] ++ []) ([] ++ finishOf choice)
      rw [readChoices_singleton, hrest rest hwithout, houtcontent, houtfields, hfields]
      exact (PartsState.singleton _).append (PartsState.singleton _)

end Kept

variable {c : ChoiceState} {choice : Json} {index : Number}

variable (h : Unmarked c)

include h

variable (hindex : choiceIndex? choice = some index)

include hindex

/-- **What a choice that is kept becomes** states what it states, and of its content as much as
is not held back. -/
theorem passChoice_kept
    (hmiss : c.finished = false → (scanForMarker (c.text ++ contentOf choice)).hit = false)
    (hkept : EntryKept c choice) :
    ∃ content, content ++ (passChoice c choice).after.held = c.held ++ contentOf choice ∧
      PartsState ((passChoice c choice).parts choice) index content (otherFields choice)
        (finishOf choice) := by
  cases hopen : c.finished with
  | true =>
    rw [EntryKept, if_pos hopen] at hkept
    obtain ⟨hcontent, hfields, hfinish⟩ := hkept
    rw [passChoice_of_finished hopen, hcontent, hfields, hfinish]
    refine ⟨[], ?_, PartsState.nil index⟩
    rw [List.append_nil]
    rfl
  | false =>
    have hnot : ¬ c.finished = true := by
      rw [hopen]
      exact Bool.false_ne_true
    rw [EntryKept, if_neg hnot] at hkept
    by_cases hfinish : finishOf choice = []
    · rw [if_pos hfinish] at hkept
      exact partsState_of_unfinished h hopen hindex (hmiss hopen) hfinish hkept
    · rw [if_neg hfinish] at hkept
      -- nothing stays held back behind a finish reason
      have hheld : (passChoice c choice).after.held = [] := by
        rw [passChoice_of_finish h hopen hindex (hmiss hopen) hfinish]
        rfl
      simp only [hheld, List.append_nil]
      by_cases hempty : heldPart c (contentOf choice) = []
      · rw [if_pos hempty] at hkept
        exact partsState_of_nothingHeld h hopen hindex (hmiss hopen) hfinish hempty hkept
      · rw [if_neg hempty] at hkept
        exact partsState_of_released h hopen hindex (hmiss hopen) hfinish hempty hkept

theorem passChoice_index
    (hmiss : c.finished = false → (scanForMarker (c.text ++ contentOf choice)).hit = false) :
    ∀ p ∈ (passChoice c choice).parts choice, p.index = index := by
  cases hopen : c.finished with
  | true =>
    rw [passChoice_of_finished hopen]
    exact fun p hmem => (by cases hmem)
  | false =>
    obtain ⟨-, -, -, -, -, -, -, -, houtput⟩ := receiveChoice_of_miss h hopen hindex (hmiss hopen)
    have hreceived : ∀ p ∈ readChoices (receiveChoice c choice).2.1.toList, p.index = index := by
      intro p hmem
      cases hout : (receiveChoice c choice).2.1 with
      | none =>
        rw [hout] at hmem
        cases hmem
      | some output =>
        obtain ⟨-, content, -, hread⟩ := houtput output hout
        rw [hout, Option.toList_some, readChoices_singleton, hread] at hmem
        rw [List.mem_singleton.mp hmem]
    have hstripped : ∀ p ∈ readChoices ((receiveChoice c choice).2.1.bind withoutFinishReason).toList,
        p.index = index := by
      intro p hmem
      cases hout : (receiveChoice c choice).2.1 with
      | none =>
        rw [hout] at hmem
        cases hmem
      | some output =>
        obtain ⟨houtindex, -⟩ := houtput output hout
        cases hwithout : withoutFinishReason output with
        | none =>
          rw [hout, Option.bind_some, hwithout] at hmem
          cases hmem
        | some rest =>
          rw [hout, Option.bind_some, hwithout, Option.toList_some, readChoices_singleton,
            (readChoice_withoutFinishReason houtindex).1 rest hwithout] at hmem
          rw [List.mem_singleton.mp hmem]
    have htail : ∀ tail : Text, ∀ p ∈ (if tail = [] then [] else
        readChoice (withContent choice tail)), p.index = index := by
      intro tail p hmem
      split at hmem
      · cases hmem
      · rw [readChoice_withContent hindex] at hmem
        rw [List.mem_singleton.mp hmem]
    intro p hmem
    rw [passChoice] at hmem
    rcases List.mem_append.mp hmem with hout | hbehind
    · split at hout
      · dsimp only at hout
        split at hout
        · exact hreceived p hout
        · exact hstripped p hout
      · exact hreceived p hout
    · exact htail _ p hbehind

/-- **The state** of a choice after a chunk. -/
theorem passChoice_after
    (hmiss : c.finished = false → (scanForMarker (c.text ++ contentOf choice)).hit = false) :
    Unmarked (passChoice c choice).after ∧
      (passChoice c choice).after.lastChoice = c.lastChoice ∧
      (passChoice c choice).after.lastChunk = c.lastChunk ∧
      (c.finished = true → (passChoice c choice).after.finished = true) ∧
      ((passChoice c choice).tail ≠ [] → (passChoice c choice).after.finished = true) ∧
      ((passChoice c choice).after.finished = false →
        (passChoice c choice).after.text = c.text ++ contentOf choice ∧ finishOf choice = []) := by
  cases hopen : c.finished with
  | true =>
    rw [passChoice_of_finished hopen]
    refine ⟨h, rfl, rfl, fun _ => hopen, fun htail => absurd rfl htail, fun hnot => ?_⟩
    rw [hopen] at hnot
    cases hnot
  | false =>
    obtain ⟨htext, hopen', hcap, -, hemitted, hchoice, hchunk, -, -⟩ :=
      receiveChoice_of_miss h hopen hindex (hmiss hopen)
    have hunmarked : Unmarked (receiveChoice c choice).1 := by
      refine ⟨hcap, ?_, fun _ => ?_⟩
      · rw [htext]
        exact hmiss hopen
      · rw [hemitted, htext]
    rw [passChoice]
    split
    · exact ⟨⟨hcap, hunmarked.miss, fun hfalse => by cases hfalse⟩, hchoice, hchunk,
        fun hfalse => (by cases hfalse), fun _ => rfl, fun hfalse => (by cases hfalse)⟩
    · rename_i hnone
      refine ⟨hunmarked, hchoice, hchunk, fun hfalse => (by cases hfalse),
        fun htail => absurd rfl htail, fun _ => ⟨htext, ?_⟩⟩
      by_contra hfinish
      refine hnone ?_
      rw [Bool.and_eq_true, isPresent_iff]
      exact ⟨hfinish, by rw [hopen]; rfl⟩

omit hindex

/-- **A chunk that is not rewritten** carries what it states, and nothing is held back then of a
choice that states content. -/
theorem passChoice_unchanged
    (hmiss : c.finished = false → (scanForMarker (c.text ++ contentOf choice)).hit = false)
    (hsame : (passChoice c choice).modified = false) :
    contentOf choice ++ (passChoice c choice).after.held = c.held ++ contentOf choice := by
  cases hopen : c.finished with
  | true =>
    rw [passChoice_of_finished hopen, ChoiceState.held, if_pos hopen, List.append_nil,
      List.nil_append]
  | false =>
    have hnot : ¬ c.finished = true := by
      rw [hopen]
      exact Bool.false_ne_true
    rw [passChoice] at hsame ⊢
    split at hsame
    · cases hsame
    · rename_i hfinish
      rw [if_neg hfinish]
      cases hcontent : choiceContent choice with
      | none =>
        have hreceived : receiveChoice c choice = (c, some choice, false) := by
          simp only [receiveChoice, hcontent, if_neg hnot]
        have hnone : contentOf choice = [] := by rw [contentOf, hcontent]; rfl
        rw [hreceived, hnone, List.append_nil, List.nil_append]
      | some content =>
        have hsome : contentOf choice = content := by rw [contentOf, hcontent]; rfl
        have hmiss' := hmiss hopen
        rw [hsome] at hmiss' ⊢
        have hreceived : receiveChoice c choice = receiveContent c choice content := by
          simp only [receiveChoice, hcontent, if_neg hnot]
        rw [hreceived, receiveContent_of_miss h hmiss'] at hsame ⊢
        have hpasses : passesAsCame c content = true := by simpa using hsame
        rw [passesAsCame, Bool.and_eq_true, decide_eq_true_eq] at hpasses
        -- all of the content is safe, so nothing is held back behind it
        rw [← safePart_append_heldPart h hopen hmiss', hpasses.1, ChoiceState.held, if_neg hnot]
        rfl

omit h

/-- The chunk of the choice has to be rewritten: the choice ends, or its content is not passed on
as it came. -/
def EntryRewritten (c : ChoiceState) (choice : Json) : Prop :=
  c.finished = false ∧ (finishOf choice ≠ [] ∨
    ∃ content, choiceContent choice = some content ∧ passesAsCame c content = false)

instance (c : ChoiceState) (choice : Json) : Decidable (EntryRewritten c choice) :=
  decidable_of_iff (c.finished = false ∧ (finishOf choice ≠ [] ∨
      (choiceContent choice).any fun content => !passesAsCame c content))
    (by simp [EntryRewritten, Option.any_eq_true])

theorem entryRewritten_of_modified {c : ChoiceState} (h : Unmarked c) {choice : Json}
    (hmiss : c.finished = false → (scanForMarker (c.text ++ contentOf choice)).hit = false)
    (hmodified : (passChoice c choice).modified = true) : EntryRewritten c choice := by
  cases hopen : c.finished with
  | true =>
    rw [passChoice_of_finished hopen] at hmodified
    cases hmodified
  | false =>
    have hnot : ¬ c.finished = true := by
      rw [hopen]
      exact Bool.false_ne_true
    refine ⟨hopen, ?_⟩
    rw [passChoice] at hmodified
    split at hmodified
    · rename_i hfinish
      rw [Bool.and_eq_true, isPresent_iff] at hfinish
      exact .inl hfinish.1
    · cases hcontent : choiceContent choice with
      | none =>
        have hreceived : receiveChoice c choice = (c, some choice, false) := by
          simp only [receiveChoice, hcontent, if_neg hnot]
        rw [hreceived] at hmodified
        cases hmodified
      | some content =>
        have hsome : contentOf choice = content := by rw [contentOf, hcontent]; rfl
        have hmiss' := hmiss hopen
        rw [hsome] at hmiss'
        have hreceived : receiveChoice c choice = receiveContent c choice content := by
          simp only [receiveChoice, hcontent, if_neg hnot]
        rw [hreceived, receiveContent_of_miss h hmiss'] at hmodified
        exact .inr ⟨content, rfl, by simpa using hmodified⟩

end LlmRelay
