import LlmRelay.Messages.ResponsesRequest
import Mathlib.Data.List.Chain

/-!
# What the Responses mapper conserves

The turns of an accepted Responses request are its input items, in order: consecutive blocks
of one role share a turn, the roles of the turns alternate, no turn is empty, and only tool
results and replayed thinking move, to the head of their turn.

## Main definitions

* `inputBlocks`: the blocks that the input items state, each under its role;
* `systemTexts`: the texts that they state for the system;
* `Grouping`: a partition of blocks into turns.

## Main results

* `responses_turns_conserve`: the turns of an accepted request.
-/

namespace LlmRelay

namespace Responses

open Ecma

/-! ## What items state -/

/-- A text part, or a refusal, that is empty. -/
def isEmptyText (raw : Json) : Prop :=
  match partType? raw with
  | some .inputText | some .outputText | some .text => nameField raw "text" = none
  | some .refusal => nameField raw "refusal" = none
  | _ => False

/-- The block that a content part states. -/
def partBlock? (raw : Json) : Option ContentBlock :=
  match partType? raw with
  | some .inputText | some .outputText | some .text => (nameField raw "text").map .text
  | some .refusal => (nameField raw "refusal").map .text
  | some .inputImage => (imageBlock raw).toOption
  | some .inputFile => (documentBlock raw).toOption
  | none => none

/-- The blocks that a content field states, in order. -/
def statedBlocks (content : Option Json) : List ContentBlock :=
  match content with
  | some (.str s) => if s = [] then [] else [.text s]
  | some (.arr parts) => parts.filterMap partBlock?
  | _ => []

/-- The text that the content of a system item states. -/
def statedSystemText (content : Option Json) : Text :=
  match content with
  | some (.str s) => s
  | some (.arr parts) => Text.join (text "\n") (parts.filterMap (nameField · "text"))
  | _ => []

/-- The kinds of an input item. -/
inductive ItemKind where
  | functionCall | functionCallOutput | reasoning | system
  | message (role : Role)

/-- The kind of an item that is a message. -/
def messageKind? (raw : Json) : Option ItemKind :=
  (stringField raw "role").bind fun role =>
    if role = text "system" || role = text "developer" then some .system
    else (turnRole? role).map .message

/-- The kind of an item; absent for one that no branch names. -/
def itemKind? (raw : Json) : Option ItemKind :=
  match stringField raw "type" with
  | none => messageKind? raw
  | some type =>
    if type = text "function_call" then some .functionCall
    else if type = text "function_call_output" then some .functionCallOutput
    else if type = text "reasoning" then some .reasoning
    else if type = text "message" then messageKind? raw
    else none

/-- The content of a result that its output states. -/
def statedResult (output : Option Json) : ToolResultContent :=
  match output with
  | some (.str s) => .string s
  | output => if statedBlocks output = [] then .string [] else .blocks (statedBlocks output)

/-- The blocks that an item states, under their role: one for a call, one for a result, one
for each content part that is not an empty text, and the thinking that is replayed. -/
def itemBlocks (reasoning : ReasoningMode) (raw : Json) : List (Role × Block) :=
  match itemKind? raw with
  | some .functionCall => (toolUseBlock raw).toOption.toList.map (.assistant, ·)
  | some .functionCallOutput =>
    (nameField raw "call_id").toList.map fun id =>
      (.user, .toolResult id (statedResult (raw.get? (text "output"))))
  | some .reasoning =>
    if reasoning = .deepseek ∧ reasoningSummaryText raw ≠ [] then
      [(.assistant, .thinking (reasoningSummaryText raw))]
    else []
  | some (.message role) => (statedBlocks (raw.get? (text "content"))).map (role, .content ·)
  | some .system => []
  | none => []

/-- The system text that an item states. -/
def itemSystemText (raw : Json) : List Text :=
  match itemKind? raw with
  | some .system =>
    let stated := statedSystemText (raw.get? (text "content"))
    if stated = [] then [] else [stated]
  | _ => []

/-- Only empty texts of a content field state no block. -/
def OnlyEmptyTexts (content : Option Json) : Prop :=
  ∀ part ∈ blocksOf content, partBlock? part = none → isEmptyText part

/-- What an item says is in the blocks or the system text it states: a call and a result
have one block, and of a content field only empty texts are left out. -/
def Accounted (reasoning : ReasoningMode) (raw : Json) : Prop :=
  match itemKind? raw with
  | some .functionCall => ∃ block, itemBlocks reasoning raw = [block]
  | some .functionCallOutput =>
    (∃ block, itemBlocks reasoning raw = [block]) ∧ OnlyEmptyTexts (raw.get? (text "output"))
  | some .reasoning => True
  | some .system =>
    ∀ part ∈ blocksOf (raw.get? (text "content")), nameField part "text" = none → isEmptyText part
  | some (.message _) => OnlyEmptyTexts (raw.get? (text "content"))
  | none => False

/-- The blocks that an input states. -/
def inputBlocks (reasoning : ReasoningMode) (input : Option Json) : List (Role × Block) :=
  match input with
  | some (.str s) => (statedBlocks (some (.str s))).map (.user, .content ·)
  | input => (blocksOf input).flatMap (itemBlocks reasoning)

/-- The system texts that an input states. -/
def systemTexts (input : Option Json) : List Text :=
  (blocksOf input).flatMap itemSystemText

/-! ## Turns -/

/-- The blocks that move to the head of their turn. -/
def Block.leads : Block → Bool
  | toolResult _ _ => true
  | thinking _ => true
  | content _ => false
  | toolUse _ _ _ => false

/-- The blocks of a turn, with those at its head first. -/
def headed (blocks : List Block) : List Block :=
  blocks.filter (·.leads) ++ blocks.filter (!·.leads)

/-- A partition of blocks into turns: each has a block, and the roles alternate. -/
structure Grouping (blocks : List (Role × Block)) (groups : List (Role × List Block)) : Prop where
  flatten : groups.flatMap (fun group => group.2.map (group.1, ·)) = blocks
  nonempty : ∀ group ∈ groups, group.2 ≠ []
  alternate : (groups.map Prod.fst).IsChain (· ≠ ·)

/-- The turn of a group. -/
def turnOf (group : Role × List Block) : Turn :=
  ⟨group.1, headed group.2⟩

/-- A collector that has seen `blocks` and the system texts `texts`: all groups but the last
are turns, and the last one is in progress. -/
def Collected (blocks : List (Role × Block)) (texts : List Text) (c : Collector) : Prop :=
  c.systemParts = texts ∧
    ((blocks = [] ∧ c.messages = [] ∧ c.role = none ∧ c.leading = [] ∧ c.trailing = []) ∨
      ∃ groups role current, Grouping blocks (groups ++ [(role, current)]) ∧
        c.messages = groups.map turnOf ∧ c.role = some role ∧
        c.leading = current.filter (·.leads) ∧ c.trailing = current.filter (!·.leads))

section Accumulator

variable {blocks : List (Role × Block)} {texts : List Text} {c : Collector}

theorem headed_ne_nil {blocks : List Block} (h : blocks ≠ []) : headed blocks ≠ [] := by
  obtain ⟨block, hblock⟩ := List.exists_mem_of_ne_nil _ h
  refine List.ne_nil_of_mem (a := block) ?_
  rw [headed, List.mem_append, List.mem_filter, List.mem_filter]
  cases hleads : block.leads with
  | true => exact .inl ⟨hblock, rfl⟩
  | false => exact .inr ⟨hblock, rfl⟩

theorem filter_append_of_leads (current : List Block) {blocks : List Block} {first : Bool}
    (h : ∀ block ∈ blocks, block.leads = first) :
    (current ++ blocks).filter (·.leads)
        = (if first then current.filter (·.leads) ++ blocks else current.filter (·.leads)) ∧
      (current ++ blocks).filter (!·.leads)
        = (if first then current.filter (!·.leads) else current.filter (!·.leads) ++ blocks) := by
  cases first with
  | true =>
    have hall : blocks.filter (·.leads) = blocks := List.filter_eq_self.mpr h
    have hnone : blocks.filter (!·.leads) = [] := by
      refine List.filter_eq_nil_iff.mpr fun block hblock => ?_
      simp [h block hblock]
    constructor
    · rw [List.filter_append, hall, if_pos rfl]
    · rw [List.filter_append, hnone, List.append_nil, if_pos rfl]
  | false =>
    have hall : blocks.filter (!·.leads) = blocks := by
      refine List.filter_eq_self.mpr fun block hblock => ?_
      simp [h block hblock]
    have hnone : blocks.filter (·.leads) = [] := by
      refine List.filter_eq_nil_iff.mpr fun block hblock => ?_
      simp [h block hblock]
    constructor
    · rw [List.filter_append, hnone, List.append_nil]
      rfl
    · rw [List.filter_append, hall]
      rfl

theorem Collected.flush (h : Collected blocks texts c) :
    c.flush.systemParts = texts ∧ c.flush.leading = [] ∧ c.flush.trailing = [] ∧
      ∃ groups, Grouping blocks groups ∧ c.flush.messages = groups.map turnOf ∧
        ∀ last ∈ groups.getLast?, c.role = some last.1 := by
  obtain ⟨htexts, ⟨rfl, hmessages, hrole, -, -⟩ |
    ⟨groups, role, current, hgrouping, hmessages, hrole, hleading, htrailing⟩⟩ := h
  · refine ⟨htexts, rfl, rfl, [], ⟨rfl, by simp, .nil⟩, ?_, by simp⟩
    simp [Collector.flush, hrole, hmessages]
  · refine ⟨htexts, rfl, rfl, _, hgrouping, ?_, ?_⟩
    · have hne := headed_ne_nil (hgrouping.nonempty (role, current) (by simp))
      rw [headed] at hne
      simp only [Collector.flush, hrole, hleading, htrailing, if_neg hne, List.map_append,
        hmessages, List.map_cons, List.map_nil, turnOf, headed]
    · intro last hlast
      rw [List.getLast?_concat, Option.mem_some_iff] at hlast
      rw [hrole, ← hlast]

variable {groups : List (Role × List Block)}

theorem Grouping.extend {role : Role} {current more : List Block}
    (h : Grouping blocks (groups ++ [(role, current)])) :
    Grouping (blocks ++ more.map (role, ·)) (groups ++ [(role, current ++ more)]) where
  flatten := by
    rw [← h.flatten]
    simp
  nonempty := by
    intro group hgroup
    rcases List.mem_append.mp hgroup with hold | hlast
    · exact h.nonempty group (List.mem_append_left _ hold)
    · rw [List.mem_singleton.mp hlast]
      have hcurrent := h.nonempty (role, current) (by simp)
      exact fun hnil => hcurrent (List.append_eq_nil_iff.mp hnil).1
  alternate := by
    have halternate := h.alternate
    rw [List.map_append] at halternate ⊢
    exact halternate

theorem Grouping.begin {role : Role} {more : List Block} (h : Grouping blocks groups)
    (hmore : more ≠ []) (hrole : ∀ last ∈ groups.getLast?, last.1 ≠ role) :
    Grouping (blocks ++ more.map (role, ·)) (groups ++ [(role, more)]) where
  flatten := by
    rw [← h.flatten]
    simp
  nonempty := by
    intro group hgroup
    rcases List.mem_append.mp hgroup with hold | hlast
    · exact h.nonempty group hold
    · rw [List.mem_singleton.mp hlast]
      exact hmore
  alternate := by
    rw [List.map_append, List.isChain_append]
    refine ⟨h.alternate, List.isChain_singleton _, ?_⟩
    intro last hlast next hnext
    rw [List.getLast?_map, Option.mem_def, Option.map_eq_some_iff] at hlast
    obtain ⟨group, hgroup, rfl⟩ := hlast
    rw [List.map_cons, List.head?_cons, Option.mem_some_iff] at hnext
    rw [← hnext]
    exact hrole group hgroup

/-- **The accumulator step**: pushed blocks of one kind join the turn of their role, or
begin the next one. -/
theorem Collected.push (h : Collected blocks texts c) (role : Role) (more : List Block)
    (first : Bool) (hfirst : ∀ block ∈ more, block.leads = first) :
    Collected (blocks ++ more.map (role, ·)) texts (c.push role more first) := by
  by_cases hmore : more = []
  · rw [hmore, List.map_nil, List.append_nil, Collector.push]
    exact h
  rw [Collector.push, if_neg hmore]
  by_cases hrole : c.role = some role
  · -- the turn in progress has the role
    rw [if_neg (not_not.mpr hrole)]
    obtain ⟨htexts, ⟨-, -, hnone, -⟩ |
      ⟨groups, role', current, hgrouping, hmessages, hrole', hleading, htrailing⟩⟩ := h
    · rw [hnone] at hrole
      cases hrole
    · rw [hrole'] at hrole
      cases hrole
      obtain ⟨hhead, htail⟩ := filter_append_of_leads current hfirst
      rw [← hleading] at hhead
      rw [← htrailing] at htail
      cases first with
      | true =>
        exact ⟨htexts, .inr ⟨groups, role, current ++ more, hgrouping.extend, hmessages, hrole',
          hhead.symm, htail.symm⟩⟩
      | false =>
        exact ⟨htexts, .inr ⟨groups, role, current ++ more, hgrouping.extend, hmessages, hrole',
          hhead.symm, htail.symm⟩⟩
  · -- the turn in progress ends, and the next one begins with these blocks
    rw [if_pos hrole]
    obtain ⟨htexts, hleading, htrailing, groups, hgrouping, hmessages, hlast⟩ := h.flush
    have hbegin : Grouping (blocks ++ more.map (role, ·)) (groups ++ [(role, more)]) := by
      refine hgrouping.begin hmore fun last hmem heq => hrole ?_
      rw [hlast last hmem, heq]
    obtain ⟨hhead, htail⟩ := filter_append_of_leads [] hfirst
    cases first with
    | true =>
      exact ⟨htexts, .inr ⟨groups, role, more, hbegin, hmessages, rfl, hhead.symm, htail.symm⟩⟩
    | false =>
      exact ⟨htexts, .inr ⟨groups, role, more, hbegin, hmessages, rfl, hhead.symm, htail.symm⟩⟩

theorem Collected.addSystemText (h : Collected blocks texts c) (stated : Text) :
    Collected blocks (texts ++ [stated]) (c.addSystemText stated) := by
  obtain ⟨rfl, hturns⟩ := h
  exact ⟨rfl, hturns⟩

end Accumulator

/-! ## Content -/

theorem foldlM_append_eq {α β : Type} {f : α → Mapped (List β)} {g : α → List β}
    {P : α → Prop} (hstep : ∀ a out, f a = .ok out → out = g a ∧ P a) {l : List α}
    {acc out : List β}
    (h : l.foldlM (fun acc a => return acc ++ (← f a)) acc = (Except.ok out : Mapped (List β))) :
    out = acc ++ l.flatMap g ∧ ∀ a ∈ l, P a := by
  induction l generalizing acc with
  | nil =>
    cases h
    rw [List.flatMap_nil, List.append_nil]
    exact ⟨rfl, List.forall_mem_nil P⟩
  | cons a rest ih =>
    rw [List.foldlM_cons] at h
    cases hf : f a with
    | error e =>
      rw [hf] at h
      cases h
    | ok yielded =>
      rw [hf] at h
      obtain ⟨hout, hrest⟩ := ih h
      obtain ⟨hyielded, ha⟩ := hstep a yielded hf
      rw [hout, hyielded, List.append_assoc]
      exact ⟨rfl, List.forall_mem_cons.mpr ⟨ha, hrest⟩⟩

theorem textBlocks_stringField (raw : Json) (key : String) :
    textBlocks (stringField raw key) = ((nameField raw key).map .text).toList := by
  rw [textBlocks, nameField]
  cases (stringField raw key).filter (· ≠ []) <;> rfl

variable {out : List ContentBlock}

theorem contentPart_eq {opts : ContentOptions} {raw : Json} (h : contentPart opts raw = .ok out) :
    out = (partBlock? raw).toList ∧ (partBlock? raw = none → isEmptyText raw) := by
  unfold contentPart at h
  split at h
  · cases h
  unfold partBlock? isEmptyText
  cases htype : partType? raw with
  | none =>
    rw [htype] at h
    cases h
  | some type =>
    rw [htype] at h
    cases type with
    | inputText | outputText | text | refusal =>
      cases h
      exact ⟨textBlocks_stringField raw _, Option.map_eq_none_iff.mp⟩
    | inputImage =>
      cases hblock : imageBlock raw with
      | error e =>
        simp only [hblock] at h
        cases h
      | ok block =>
        simp only [hblock] at h
        cases h
        exact ⟨rfl, fun hnone => by cases hnone⟩
    | inputFile =>
      simp only at h
      split at h
      · cases h
      · cases hblock : documentBlock raw with
        | error e =>
          simp only [hblock] at h
          cases h
        | ok block =>
          simp only [hblock] at h
          cases h
          exact ⟨rfl, fun hnone => by cases hnone⟩

theorem contentBlocks_eq {opts : ContentOptions} {content : Option Json}
    (h : contentBlocks content opts = .ok out) :
    out = statedBlocks content ∧ OnlyEmptyTexts content := by
  match content with
  | none | some .null =>
    cases h
    exact ⟨rfl, fun part hpart => absurd hpart List.not_mem_nil⟩
  | some (.str s) =>
    cases h
    refine ⟨?_, fun part hpart => absurd hpart List.not_mem_nil⟩
    by_cases hs : s = []
    · simp [textBlocks, statedBlocks, hs]
    · simp [textBlocks, statedBlocks, hs]
  | some (.arr parts) =>
    obtain ⟨hout, hparts⟩ := foldlM_append_eq
      (P := fun raw => partBlock? raw = none → isEmptyText raw) (fun _ _ => contentPart_eq) h
    rw [← List.filterMap_eq_flatMap_toList] at hout
    exact ⟨hout, hparts⟩
  | some (.bool _) | some (.num _) | some (.obj _) => cases h

theorem systemPart_eq {raw : Json} {out : List Text} (h : systemPart raw = .ok out) :
    out = (nameField raw "text").toList ∧ (nameField raw "text" = none → isEmptyText raw) := by
  unfold systemPart at h
  split at h
  · cases h
  unfold isEmptyText
  cases htype : partType? raw with
  | none =>
    rw [htype] at h
    cases h
  | some type =>
    rw [htype] at h
    cases type with
    | inputText | outputText | text =>
      cases h
      exact ⟨rfl, id⟩
    | refusal | inputImage | inputFile => cases h

theorem systemTextOf_eq {content : Option Json} {out : Text} (h : systemTextOf content = .ok out) :
    out = statedSystemText content ∧
      ∀ part ∈ blocksOf content, nameField part "text" = none → isEmptyText part := by
  match content with
  | none | some .null | some (.str s) =>
    cases h
    exact ⟨rfl, fun part hpart => absurd hpart List.not_mem_nil⟩
  | some (.arr parts) =>
    unfold systemTextOf at h
    cases hfold : parts.foldlM (fun texts raw => return texts ++ (← systemPart raw)) []
        (m := Mapped) with
    | error e =>
      simp only [hfold] at h
      cases h
    | ok texts =>
      simp only [hfold] at h
      cases h
      obtain ⟨htexts, hparts⟩ := foldlM_append_eq
        (P := fun raw => nameField raw "text" = none → isEmptyText raw)
        (fun _ _ => systemPart_eq) hfold
      rw [List.nil_append, ← List.filterMap_eq_flatMap_toList] at htexts
      exact ⟨by rw [htexts, statedSystemText], hparts⟩
  | some (.bool _) | some (.num _) | some (.obj _) => cases h

theorem toolResultContent_eq {output : Option Json} {out : ToolResultContent}
    (h : toolResultContent output = .ok out) :
    out = statedResult output ∧ OnlyEmptyTexts output := by
  match output with
  | none | some .null | some (.str s) =>
    cases h
    exact ⟨rfl, fun part hpart => absurd hpart List.not_mem_nil⟩
  | some (.arr parts) =>
    unfold toolResultContent at h
    cases hblocks : contentBlocks (some (.arr parts)) ⟨false, text "a tool result"⟩ with
    | error e =>
      simp only [hblocks] at h
      cases h
    | ok blocks =>
      simp only [hblocks] at h
      cases h
      obtain ⟨rfl, hparts⟩ := contentBlocks_eq hblocks
      exact ⟨rfl, hparts⟩
  | some (.bool _) | some (.num _) | some (.obj _) => cases h

/-! ## Items -/

section Items

variable {blocks : List (Role × Block)} {texts : List Text} {c c' : Collector} {raw : Json}
  {reasoning : ReasoningMode}

/-- What an accepted item adds to a collector: the blocks and the system texts it states,
which account for all it says. -/
def Adds (reasoning : ReasoningMode) (blocks : List (Role × Block)) (texts : List Text)
    (raw : Json) (c' : Collector) : Prop :=
  Collected (blocks ++ itemBlocks reasoning raw) (texts ++ itemSystemText raw) c' ∧
    Accounted reasoning raw

variable {block : Block}

theorem Collected.push_one (h : Collected blocks texts c) (role : Role) {first : Bool}
    (hfirst : block.leads = first) :
    Collected (blocks ++ [(role, block)]) texts (c.push role [block] first) := by
  refine h.push role [block] first fun b hb => ?_
  rw [List.mem_singleton.mp hb, hfirst]

theorem leads_map_content (contents : List ContentBlock) :
    ∀ block ∈ contents.map Block.content, block.leads = false := by
  intro block hblock
  obtain ⟨content, -, rfl⟩ := List.mem_map.mp hblock
  rfl

theorem toolUseBlock_ok (h : toolUseBlock raw = .ok block) : block.leads = false := by
  unfold toolUseBlock at h
  cases hid : nameField raw "call_id" with
  | none =>
    simp only [hid] at h
    cases h
  | some id =>
    cases hname : nameField raw "name" with
    | none =>
      simp only [hid, hname] at h
      cases h
    | some name =>
      simp only [hid, hname] at h
      cases hinput : toolArguments (raw.get? (text "arguments")) name id with
      | error e =>
        rw [hinput] at h
        cases h
      | ok input =>
        rw [hinput] at h
        cases h
        rfl

theorem toolResultBlock_ok (h : toolResultBlock raw = .ok block) :
    ∃ id, nameField raw "call_id" = some id ∧
      block = .toolResult id (statedResult (raw.get? (text "output"))) ∧
      OnlyEmptyTexts (raw.get? (text "output")) := by
  unfold toolResultBlock at h
  cases hid : nameField raw "call_id" with
  | none =>
    simp only [hid] at h
    cases h
  | some id =>
    simp only [hid] at h
    cases hcontent : toolResultContent (raw.get? (text "output")) with
    | error e =>
      rw [hcontent] at h
      cases h
    | ok content =>
      rw [hcontent] at h
      cases h
      obtain ⟨rfl, hparts⟩ := toolResultContent_eq hcontent
      exact ⟨id, rfl, rfl, hparts⟩

variable (h : Collected blocks texts c)

include h

theorem processMessageItem_adds
    (hkind : itemKind? raw = messageKind? raw) (hok : processMessageItem c raw = .ok c') :
    Adds reasoning blocks texts raw c' := by
  unfold processMessageItem at hok
  cases hrole : stringField raw "role" with
  | none =>
    rw [hrole] at hok
    cases hok
  | some role =>
    rw [hrole] at hok
    simp only at hok
    split at hok
    · -- a system item
      rename_i hsystem
      have hkind' : itemKind? raw = some .system := by
        rw [hkind, messageKind?, hrole, Option.bind_some, if_pos hsystem]
      cases hstated : systemTextOf (raw.get? (text "content")) with
      | error e =>
        rw [hstated] at hok
        cases hok
      | ok stated =>
        rw [hstated] at hok
        cases hok
        obtain ⟨rfl, hparts⟩ := systemTextOf_eq hstated
        constructor
        · simp only [itemBlocks, itemSystemText, hkind', List.append_nil]
          split
          · rw [List.append_nil]
            exact h
          · exact h.addSystemText _
        · rw [Accounted, hkind']
          exact hparts
    · rename_i hsystem
      cases hturn : turnRole? role with
      | none =>
        rw [hturn] at hok
        cases hok
      | some role' =>
        rw [hturn] at hok
        have hkind' : itemKind? raw = some (.message role') := by
          rw [hkind, messageKind?, hrole, Option.bind_some, if_neg hsystem, hturn, Option.map_some]
        cases hblocks : contentBlocks (raw.get? (text "content")) (messageOptions role') with
        | error e =>
          simp only [hblocks] at hok
          cases hok
        | ok stated =>
          simp only [hblocks] at hok
          cases hok
          obtain ⟨rfl, hparts⟩ := contentBlocks_eq hblocks
          constructor
          · simp only [itemBlocks, itemSystemText, hkind', List.append_nil]
            have hpush := h.push role'
              ((statedBlocks (raw.get? (text "content"))).map .content) false
              (leads_map_content _)
            rw [List.map_map] at hpush
            exact hpush
          · rw [Accounted, hkind']
            exact hparts

/-- **One accepted item** adds the blocks and the system text it states. -/
theorem processResponsesInputItem_adds (hok : processResponsesInputItem reasoning c raw = .ok c') :
    Adds reasoning blocks texts raw c' := by
  unfold processResponsesInputItem at hok
  split at hok
  · cases hok
  cases htype : stringField raw "type" with
  | none =>
    rw [htype] at hok
    refine processMessageItem_adds h ?_ hok
    simp only [itemKind?, htype]
  | some type =>
    rw [htype] at hok
    simp only at hok
    split at hok
    · -- a call
      rename_i hcall
      have hkind : itemKind? raw = some .functionCall := by
        simp only [itemKind?, htype, if_pos hcall]
      cases hblock : toolUseBlock raw with
      | error e =>
        rw [hblock] at hok
        cases hok
      | ok block =>
        rw [hblock] at hok
        cases hok
        have hblocks : itemBlocks reasoning raw = [(.assistant, block)] := by
          simp only [itemBlocks, hkind, hblock]
          rfl
        have hpush := h.push_one .assistant (toolUseBlock_ok hblock)
        constructor
        · simpa only [hblocks, itemSystemText, hkind, List.append_nil] using hpush
        · rw [Accounted, hkind]
          exact ⟨_, hblocks⟩
    split at hok
    · -- a result, which moves to the head of its turn
      rename_i hcall hresult
      have hkind : itemKind? raw = some .functionCallOutput := by
        simp only [itemKind?, htype, if_neg hcall, if_pos hresult]
      cases hblock : toolResultBlock raw with
      | error e =>
        rw [hblock] at hok
        cases hok
      | ok block =>
        rw [hblock] at hok
        cases hok
        obtain ⟨id, hid, rfl, hparts⟩ := toolResultBlock_ok hblock
        have hblocks : itemBlocks reasoning raw
            = [(.user, .toolResult id (statedResult (raw.get? (text "output"))))] := by
          simp only [itemBlocks, hkind, hid]
          rfl
        constructor
        · simp only [hblocks, itemSystemText, hkind, List.append_nil]
          exact h.push_one .user rfl
        · rw [Accounted, hkind]
          exact ⟨⟨_, hblocks⟩, hparts⟩
    split at hok
    · -- reasoning, replayed or dropped
      rename_i hcall hresult hreasoning
      have hkind : itemKind? raw = some .reasoning := by
        simp only [itemKind?, htype, if_neg hcall, if_neg hresult, if_pos hreasoning]
      have haccounted : Accounted reasoning raw := by
        rw [Accounted, hkind]
        trivial
      refine ⟨?_, haccounted⟩
      split at hok
      · rename_i hreplayed
        cases hok
        simp only [itemBlocks, itemSystemText, hkind, if_pos hreplayed, List.append_nil]
        exact h.push_one .assistant rfl
      · rename_i hdropped
        cases hok
        simpa only [itemBlocks, itemSystemText, hkind, if_neg hdropped, List.append_nil] using h
    split at hok
    · rename_i hcall hresult hreasoning hmessage
      refine processMessageItem_adds h ?_ hok
      simp only [itemKind?, htype, if_neg hcall, if_neg hresult, if_neg hreasoning, if_pos hmessage]
    · cases hok

/-- **All accepted items** add the blocks and the system texts they state. -/
theorem foldlM_processResponsesInputItem {items : List Json}
    (hok : items.foldlM (processResponsesInputItem reasoning) c = .ok c') :
    Collected (blocks ++ items.flatMap (itemBlocks reasoning))
        (texts ++ items.flatMap itemSystemText) c' ∧
      ∀ item ∈ items, Accounted reasoning item := by
  induction items generalizing blocks texts c with
  | nil =>
    cases hok
    simpa using h
  | cons raw rest ih =>
    rw [List.foldlM_cons] at hok
    cases hstep : processResponsesInputItem reasoning c raw with
    | error e =>
      rw [hstep] at hok
      cases hok
    | ok next =>
      rw [hstep] at hok
      obtain ⟨hadded, hraw⟩ := processResponsesInputItem_adds h hstep
      obtain ⟨hrest, hall⟩ := ih hadded hok
      rw [List.flatMap_cons, List.flatMap_cons, ← List.append_assoc, ← List.append_assoc]
      exact ⟨hrest, List.forall_mem_cons.mpr ⟨hraw, hall⟩⟩

omit h

theorem processInput_adds {input : Option Json} (h : Collected [] texts c)
    (hok : processInput reasoning c input = .ok c') :
    Collected (inputBlocks reasoning input) (texts ++ systemTexts input) c' ∧
      ∀ item ∈ blocksOf input, Accounted reasoning item := by
  match input with
  | none | some .null =>
    cases hok
    rw [systemTexts]
    exact ⟨by simpa [inputBlocks, blocksOf, Json.array?] using h,
      fun item hitem => absurd hitem List.not_mem_nil⟩
  | some (.str s) =>
    refine ⟨?_, fun item hitem => absurd hitem List.not_mem_nil⟩
    cases hblocks : contentBlocks (some (.str s)) (messageOptions .user) with
    | error e =>
      simp only [processInput, hblocks] at hok
      cases hok
    | ok stated =>
      simp only [processInput, hblocks] at hok
      cases hok
      obtain ⟨rfl, -⟩ := contentBlocks_eq hblocks
      have hpush := h.push .user ((statedBlocks (some (.str s))).map .content) false
        (leads_map_content _)
      rw [List.map_map] at hpush
      have hnone : systemTexts (some (.str s)) = [] := rfl
      rw [hnone, List.append_nil]
      exact hpush
  | some (.arr items) =>
    obtain ⟨hall, haccounted⟩ := foldlM_processResponsesInputItem h hok
    exact ⟨hall, haccounted⟩
  | some (.bool _) | some (.num _) | some (.obj _) => cases hok

end Items

/-- The parts of the system text of a request. -/
def systemPartsOf (body : Json) : List Text :=
  (nameField body "instructions").toList ++ systemTexts (body.get? (text "input"))

/-- **The turns of an accepted request** are its input, in order. Their roles alternate and
none is empty; the blocks that the items state are partitioned, in order, into runs of one
role, and each turn holds one run, with the tool results and the replayed thinking at its
head. The system text holds what the system items state, and nothing else of an item is
left out than empty text and reasoning that is not replayed. -/
theorem responses_turns_conserve (reqJson : Json) (reasoning : ReasoningMode)
    (out : AnthropicRequest)
    (h : openaiResponsesRequestToAnthropic reqJson reasoning = .ok out) :
    (out.messages.map (·.role)).IsChain (· ≠ ·) ∧
      (∀ turn ∈ out.messages, turn.content ≠ []) ∧
      (∃ groups, Grouping (inputBlocks reasoning (reqJson.get? (text "input"))) groups ∧
        out.messages = groups.map turnOf) ∧
      out.system = (if systemPartsOf reqJson = [] then none
        else some (Text.join (text "\n") (systemPartsOf reqJson))) ∧
      ∀ item ∈ blocksOf (reqJson.get? (text "input")), Accounted reasoning item := by
  have hbody : ∀ key, ((Json.record? (some reqJson)).getD (.obj [])).get? key
      = reqJson.get? key := by
    intro key
    cases reqJson <;> rfl
  have hinstructions : nameField ((Json.record? (some reqJson)).getD (.obj [])) "instructions"
      = nameField reqJson "instructions" := by
    rw [nameField, nameField, stringField, stringField, hbody]
  simp only [openaiResponsesRequestToAnthropic, hbody] at h
  cases hunsupported : unsupportedRequest? ((Json.record? (some reqJson)).getD (.obj [])) with
  | some message =>
    simp only [hunsupported] at h
    cases h
  | none =>
    cases hinput : processInput reasoning
        (.initial ((Json.record? (some reqJson)).getD (.obj []))) (reqJson.get? (text "input")) with
    | error e =>
      simp only [hunsupported, hinput] at h
      cases h
    | ok c =>
      cases htools : mapTools (reqJson.get? (text "tools")) with
      | error e =>
        simp only [hunsupported, hinput, htools] at h
        cases h
      | ok tools =>
        simp only [hunsupported, hinput, htools] at h
        cases h
        have hinitial : Collected [] (nameField reqJson "instructions").toList
            (.initial ((Json.record? (some reqJson)).getD (.obj []))) :=
          ⟨congrArg Option.toList hinstructions, .inl ⟨rfl, rfl, rfl, rfl, rfl⟩⟩
        obtain ⟨hcollected, haccounted⟩ := processInput_adds hinitial hinput
        obtain ⟨htexts, -, -, groups, hgrouping, hmessages, -⟩ := hcollected.flush
        refine ⟨?_, ?_, ⟨groups, hgrouping, hmessages⟩, ?_, haccounted⟩
        · have halternate := hgrouping.alternate
          rw [hmessages, List.map_map]
          exact halternate
        · intro turn hturn
          rw [hmessages, List.mem_map] at hturn
          obtain ⟨group, hgroup, rfl⟩ := hturn
          exact headed_ne_nil (hgrouping.nonempty group hgroup)
        · rw [systemPartsOf, ← htexts]

/-! ## An example -/

/-- An item with string properties and some content. -/
def sampleItem (properties : List (String × String)) (content : List Json) : Json :=
  .obj (properties.map (fun p => (text p.1, .str (text p.2))) ++ [(text "content", .arr content)])

/-- A text, a call, reasoning, a result and a text: an assistant turn and a user turn. -/
def sampleInput : Json :=
  .obj [(text "input", .arr [
    sampleItem [("role", "assistant")] [sampleItem [("type", "output_text"), ("text", "a")] []],
    sampleItem [("type", "reasoning")] [],
    sampleItem [("type", "function_call"), ("call_id", "c"), ("name", "f")] [],
    sampleItem [("role", "user")] [sampleItem [("type", "input_text"), ("text", "b")] []],
    sampleItem [("type", "function_call_output"), ("call_id", "c"), ("output", "r")] []])]

/-- The turns of the sample. -/
def sampleTurns : List Turn :=
  [⟨.assistant, [.content (.text (text "a")), .toolUse (text "c") (text "f") (.obj [])]⟩,
    ⟨.user, [.toolResult (text "c") (.string (text "r")), .content (.text (text "b"))]⟩]

theorem responses_turns_conserve_sample :
    (sampleTurns.map (·.role)).IsChain (· ≠ ·) ∧ ∀ turn ∈ sampleTurns, turn.content ≠ [] := by
  have h : openaiResponsesRequestToAnthropic sampleInput .none
      = .ok ⟨sampleTurns, none, none, none, none, none, none, none, none⟩ := by
    decide +kernel
  obtain ⟨halternate, hnonempty, -⟩ := responses_turns_conserve sampleInput .none _ h
  exact ⟨halternate, hnonempty⟩

end Responses

end LlmRelay
