import LlmRelay.Ecma.JsonWeight
import LlmRelay.Messages.Emit

/-!
# Tool inputs that are encoded twice

Some models write a nested array or object of a tool's input as its JSON text, or the whole input
(`repair.ts`). `decodeDoubleEncodedInputs` parses such texts where the tool's schema asks for an
array or an object, and enters what it has parsed with the same schema.

## Main definitions

* `SchemaNode`, `schemaNode`: what is read of a schema;
* `decodeIfSchemaSays`, `decodeInPlace`, `decodeDoubleEncodedInputs`: the code;
* `DecodedFrom`: what a value may be turned into, place by place.

## Main results

* `decodeInPlace_decodedFrom`: only texts that the schema asks to be more are decoded;
* `decodeInPlace_again`: nothing is left to decode;
* `double_encoded_inputs_minimal_idempotent`: the same for the inputs of a message.
-/

namespace LlmRelay

open Ecma

deriving instance DecidableEq for AssistantMessage

/-! ## Schemas -/

/-- An array or a record. -/
def isObjectLike : Json → Bool
  | .arr _ | .obj _ => true
  | _ => false

theorem isObjectLike_eq_false {v : Json} (harr : ∀ items, v = .arr items → False)
    (hobj : ∀ fields, v = .obj fields → False) : isObjectLike v = false := by
  cases v with
  | arr items => exact (harr items rfl).elim
  | obj fields => exact (hobj fields rfl).elim
  | _ => rfl

structure SchemaNode where
  type : Option Text
  properties : Option Json
  items : Option Json

def schemaNode (v : Option Json) : Option SchemaNode :=
  (v.filter isObjectLike).map fun o =>
    { type := Json.string? (o.get? (text "type"))
      properties := (o.get? (text "properties")).filter isObjectLike
      items := o.get? (text "items") }

/-- `props[key]`. What an object inherits tells nothing about a value, and so counts as absent. -/
def childSchema (props : Json) (key : Text) : Option Json :=
  match props with
  | .obj fields => lookupEntry key fields
  | .arr items => (arrayIndex? key).bind (items[·]?)
  | _ => none

/-- The schema of the elements; that of a tuple is not followed. -/
def itemSchema (schema : Option SchemaNode) : Option Json :=
  match schema.bind (·.items) with
  | some (.arr _) | none => none
  | some items => some items

/-! ## Decoding -/

/-- Whether a value is of the kind that a schema asks for. -/
def isOfType (want : Text) : Json → Bool
  | .arr _ => want == text "array"
  | .obj _ => want == text "object"
  | _ => false

def decodeIfSchemaSays (value : Text) (schema : Option SchemaNode) : Option Json :=
  match schema.bind (·.type) with
  | none => none
  | some want =>
    if want ≠ text "array" ∧ want ≠ text "object" then none
    else
      let trimmed := Text.trim value
      if !(trimmed.startsWith (text "[") || trimmed.startsWith (text "\x7b")) then none
      else (Json.parse trimmed).filter (isOfType want)

theorem length_trim_le (t : Text) : (Text.trim t).length ≤ t.length := by
  unfold Text.trim Text.trimEnd Text.trimStart
  rw [List.length_reverse]
  exact (List.dropWhile_sublist _).length_le.trans
    ((List.length_reverse).trans_le (List.dropWhile_sublist _).length_le)

variable {schema : Option SchemaNode} {inner : Json}

theorem decodeIfSchemaSays_eq_some {value : Text}
    (h : decodeIfSchemaSays value schema = some inner) :
    Json.parse (Text.trim value) = some inner
      ∧ ∃ want, schema.bind (·.type) = some want ∧ isOfType want inner = true := by
  unfold decodeIfSchemaSays at h
  split at h
  · cases h
  · rename_i want hwant
    split at h
    · cases h
    · dsimp only at h
      split at h
      · cases h
      · obtain ⟨hparse, htype⟩ := Option.filter_eq_some_iff.mp h
        exact ⟨hparse, want, hwant, htype⟩

theorem weight_lt_of_decodeIfSchemaSays {value : Text}
    (h : decodeIfSchemaSays value schema = some inner) :
    inner.weight < (Json.str value).weight := by
  rw [Json.weight, Nat.lt_succ_iff]
  exact (Json.weight_le_of_parse (decodeIfSchemaSays_eq_some h).1).trans (length_trim_le value)

mutual
/-- The walk through a value beside its schema, with whether anything was decoded. -/
def decodeInPlace (node : Json) (schemaRaw : Option Json) : Json × Bool :=
  match node with
  | .arr items =>
    match itemSchema (schemaNode schemaRaw) with
    | none => (.arr items, false)
    | some schema => (.arr (decodeItems items schema).1, (decodeItems items schema).2)
  | .obj fields =>
    match (schemaNode schemaRaw).bind (·.properties) with
    | none => (.obj fields, false)
    | some props => (.obj (decodeEntries fields props).1, (decodeEntries fields props).2)
  | node => (node, false)
termination_by 3 * node.weight
decreasing_by all_goals simp only [Json.weight]; omega

/-- One turn of the loops. -/
def decodeSlot : Json → Json → Json × Bool
  | .str s, schemaRaw =>
    match _h : decodeIfSchemaSays s (schemaNode (some schemaRaw)) with
    | some decoded => ((decodeInPlace decoded (some schemaRaw)).1, true)
    | none => (.str s, false)
  | value, schemaRaw => decodeInPlace value (some schemaRaw)
termination_by value => 3 * value.weight + 1
decreasing_by
  · have hlt := weight_lt_of_decodeIfSchemaSays _h
    omega
  · omega

def decodeItems (items : List Json) (schema : Json) : List Json × Bool :=
  match items with
  | [] => ([], false)
  | value :: items =>
    ((decodeSlot value schema).1 :: (decodeItems items schema).1,
      (decodeSlot value schema).2 || (decodeItems items schema).2)
termination_by 3 * Json.weightItems items + 2
decreasing_by all_goals have hpos := Json.weight_pos value; simp only [Json.weightItems]; omega

def decodeEntries (fields : List (Text × Json)) (props : Json) : List (Text × Json) × Bool :=
  match fields with
  | [] => ([], false)
  | (key, value) :: fields =>
    match childSchema props key with
    -- an unknown key has no schema to justify a change
    | none => ((key, value) :: (decodeEntries fields props).1, (decodeEntries fields props).2)
    | some child =>
      ((key, (decodeSlot value child).1) :: (decodeEntries fields props).1,
        (decodeSlot value child).2 || (decodeEntries fields props).2)
termination_by 3 * Json.weightFields fields + 2
decreasing_by all_goals have hpos := Json.weight_pos value; simp only [Json.weightFields]; omega
end

/-! ### One step of the walk -/

variable {schemaRaw : Option Json} {props : Json}

theorem decodeInPlace_arr {schema : Json} (h : itemSchema (schemaNode schemaRaw) = some schema)
    (items : List Json) :
    decodeInPlace (.arr items) schemaRaw
      = (.arr (decodeItems items schema).1, (decodeItems items schema).2) := by
  rw [decodeInPlace, h]

theorem decodeInPlace_arr_of_none (h : itemSchema (schemaNode schemaRaw) = none)
    (items : List Json) : decodeInPlace (.arr items) schemaRaw = (.arr items, false) := by
  rw [decodeInPlace, h]

theorem decodeInPlace_obj (h : (schemaNode schemaRaw).bind (·.properties) = some props)
    (fields : List (Text × Json)) :
    decodeInPlace (.obj fields) schemaRaw
      = (.obj (decodeEntries fields props).1, (decodeEntries fields props).2) := by
  rw [decodeInPlace, h]

theorem decodeInPlace_obj_of_none (h : (schemaNode schemaRaw).bind (·.properties) = none)
    (fields : List (Text × Json)) :
    decodeInPlace (.obj fields) schemaRaw = (.obj fields, false) := by
  rw [decodeInPlace, h]

theorem decodeInPlace_of_scalar {node : Json} (h : isObjectLike node = false)
    (schemaRaw : Option Json) : decodeInPlace node schemaRaw = (node, false) := by
  cases node with
  | arr _ => cases h
  | obj _ => cases h
  | _ => rw [decodeInPlace] <;> exact nofun

theorem decodeItems_cons (value : Json) (items : List Json) (schema : Json) :
    decodeItems (value :: items) schema
      = ((decodeSlot value schema).1 :: (decodeItems items schema).1,
        (decodeSlot value schema).2 || (decodeItems items schema).2) := by
  rw [decodeItems]

theorem decodeEntries_unknown {key : Text} (h : childSchema props key = none) (value : Json)
    (fields : List (Text × Json)) :
    decodeEntries ((key, value) :: fields) props
      = ((key, value) :: (decodeEntries fields props).1, (decodeEntries fields props).2) := by
  rw [decodeEntries, h]

theorem decodeEntries_known {child : Json} {key : Text} (h : childSchema props key = some child)
    (value : Json) (fields : List (Text × Json)) :
    decodeEntries ((key, value) :: fields) props
      = ((key, (decodeSlot value child).1) :: (decodeEntries fields props).1,
        (decodeSlot value child).2 || (decodeEntries fields props).2) := by
  rw [decodeEntries, h]

section Slots

variable {schemaRaw : Json}

theorem decodeSlot_of_decoded {s : Text}
    (h : decodeIfSchemaSays s (schemaNode (some schemaRaw)) = some inner) :
    decodeSlot (.str s) schemaRaw = ((decodeInPlace inner (some schemaRaw)).1, true) := by
  rw [decodeSlot]
  split
  · rename_i decoded hdecoded
    rw [h] at hdecoded
    rw [Option.some.inj hdecoded]
  · rename_i hnone
    rw [h] at hnone
    cases hnone

theorem decodeSlot_of_kept {s : Text}
    (h : decodeIfSchemaSays s (schemaNode (some schemaRaw)) = none) :
    decodeSlot (.str s) schemaRaw = (.str s, false) := by
  rw [decodeSlot]
  split
  · rename_i decoded hdecoded
    rw [h] at hdecoded
    cases hdecoded
  · rfl

theorem decodeSlot_of_ne_str {value : Json} (h : ∀ s, value ≠ .str s) :
    decodeSlot value schemaRaw = decodeInPlace value (some schemaRaw) := by
  rw [decodeSlot]
  exact h

end Slots

/-! ## What is changed -/

mutual
/-- What a value may be turned into, place by place: a text that the schema asks to be an array
or an object may become what it says, and what becomes of that. -/
inductive DecodedFrom : Option Json → Json → Json → Prop
  | same (schemaRaw : Option Json) (v : Json) : DecodedFrom schemaRaw v v
  | text {schemaRaw : Option Json} {s want : Text} {inner v : Json}
      (hwant : (schemaNode schemaRaw).bind (·.type) = some want)
      (hparse : Json.parse (Text.trim s) = some inner) (htype : isOfType want inner = true)
      (hinner : DecodedFrom schemaRaw inner v) : DecodedFrom schemaRaw (.str s) v
  | arr {schemaRaw : Option Json} {schema : Json} {items items' : List Json}
      (hschema : itemSchema (schemaNode schemaRaw) = some schema)
      (hitems : ItemsDecodedFrom schema items items') :
      DecodedFrom schemaRaw (.arr items) (.arr items')
  | obj {schemaRaw : Option Json} {props : Json} {fields fields' : List (Text × Json)}
      (hprops : (schemaNode schemaRaw).bind (·.properties) = some props)
      (hfields : EntriesDecodedFrom props fields fields') :
      DecodedFrom schemaRaw (.obj fields) (.obj fields')

inductive ItemsDecodedFrom : Json → List Json → List Json → Prop
  | nil (schema : Json) : ItemsDecodedFrom schema [] []
  | cons {schema v v' : Json} {items items' : List Json}
      (hv : DecodedFrom (some schema) v v') (hitems : ItemsDecodedFrom schema items items') :
      ItemsDecodedFrom schema (v :: items) (v' :: items')

inductive EntriesDecodedFrom : Json → List (Text × Json) → List (Text × Json) → Prop
  | nil (props : Json) : EntriesDecodedFrom props [] []
  | unknown {props : Json} {key : Text} (v : Json) {fields fields' : List (Text × Json)}
      (hkey : childSchema props key = none) (hfields : EntriesDecodedFrom props fields fields') :
      EntriesDecodedFrom props ((key, v) :: fields) ((key, v) :: fields')
  | known {props child : Json} {key : Text} {v v' : Json} {fields fields' : List (Text × Json)}
      (hkey : childSchema props key = some child) (hv : DecodedFrom (some child) v v')
      (hfields : EntriesDecodedFrom props fields fields') :
      EntriesDecodedFrom props ((key, v) :: fields) ((key, v') :: fields')
end

/-- **Only texts that the schema asks to be more** are decoded. -/
theorem decodeInPlace_decodedFrom (node : Json) (schemaRaw : Option Json) :
    DecodedFrom schemaRaw node (decodeInPlace node schemaRaw).1 := by
  apply decodeInPlace.induct
    (fun node schemaRaw => DecodedFrom schemaRaw node (decodeInPlace node schemaRaw).1)
    (fun fields props => EntriesDecodedFrom props fields (decodeEntries fields props).1)
    (fun value schemaRaw => DecodedFrom (some schemaRaw) value (decodeSlot value schemaRaw).1)
    (fun items schema => ItemsDecodedFrom schema items (decodeItems items schema).1)
  case case1 =>
    intro schemaRaw items hschema
    rw [decodeInPlace_arr_of_none hschema]
    exact .same _ _
  case case2 =>
    intro schemaRaw items schema hschema ih
    rw [decodeInPlace_arr hschema]
    exact .arr hschema ih
  case case3 =>
    intro schemaRaw fields hprops
    rw [decodeInPlace_obj_of_none hprops]
    exact .same _ _
  case case4 =>
    intro schemaRaw fields props hprops ih
    rw [decodeInPlace_obj hprops]
    exact .obj hprops ih
  case case5 =>
    intro node schemaRaw harr hobj
    rw [decodeInPlace_of_scalar (isObjectLike_eq_false harr hobj)]
    exact .same _ _
  case case6 =>
    intro props
    rw [decodeEntries]
    exact .nil _
  case case7 =>
    intro props key value fields hkey ih
    rw [decodeEntries_unknown hkey]
    exact .unknown value hkey ih
  case case8 =>
    intro props key value fields child hkey hvalue ih
    rw [decodeEntries_known hkey]
    exact .known hkey hvalue ih
  case case9 =>
    intro schemaRaw s inner hinner ih
    obtain ⟨hparse, want, hwant, htype⟩ := decodeIfSchemaSays_eq_some hinner
    rw [decodeSlot_of_decoded hinner]
    exact .text hwant hparse htype ih
  case case10 =>
    intro schemaRaw s hkept
    rw [decodeSlot_of_kept hkept]
    exact .same _ _
  case case11 =>
    intro value schemaRaw hne ih
    rw [decodeSlot_of_ne_str hne]
    exact ih
  case case12 =>
    intro schema
    rw [decodeItems]
    exact .nil _
  case case13 =>
    intro schema value items hvalue ih
    rw [decodeItems_cons]
    exact .cons hvalue ih

/-! ## What is left -/

@[simp] theorem isObjectLike_decodeInPlace (node : Json) (schemaRaw : Option Json) :
    isObjectLike (decodeInPlace node schemaRaw).1 = isObjectLike node := by
  cases node with
  | arr items =>
    rw [decodeInPlace]
    split <;> rfl
  | obj fields =>
    rw [decodeInPlace]
    split <;> rfl
  | _ => rw [decodeInPlace_of_scalar rfl]

theorem decodeInPlace_ne_str {node : Json} (h : ∀ s, node ≠ .str s) (schemaRaw : Option Json)
    (s : Text) : (decodeInPlace node schemaRaw).1 ≠ .str s := by
  intro heq
  cases hnode : isObjectLike node with
  | false =>
    rw [decodeInPlace_of_scalar hnode] at heq
    exact h s heq
  | true =>
    rw [← isObjectLike_decodeInPlace node schemaRaw, heq] at hnode
    cases hnode

theorem isObjectLike_of_isOfType {want : Text} {v : Json} (h : isOfType want v = true) :
    isObjectLike v = true := by
  cases v with
  | arr _ => rfl
  | obj _ => rfl
  | _ => cases h

/-- **Nothing is left to decode.** -/
theorem decodeInPlace_again (node : Json) (schemaRaw : Option Json) :
    decodeInPlace (decodeInPlace node schemaRaw).1 schemaRaw
      = ((decodeInPlace node schemaRaw).1, false) := by
  apply decodeInPlace.induct
    (fun node schemaRaw => decodeInPlace (decodeInPlace node schemaRaw).1 schemaRaw
      = ((decodeInPlace node schemaRaw).1, false))
    (fun fields props => decodeEntries (decodeEntries fields props).1 props
      = ((decodeEntries fields props).1, false))
    (fun value schemaRaw => decodeSlot (decodeSlot value schemaRaw).1 schemaRaw
      = ((decodeSlot value schemaRaw).1, false))
    (fun items schema => decodeItems (decodeItems items schema).1 schema
      = ((decodeItems items schema).1, false))
  case case1 =>
    intro schemaRaw items hschema
    rw [decodeInPlace_arr_of_none hschema, decodeInPlace_arr_of_none hschema]
  case case2 =>
    intro schemaRaw items schema hschema ih
    rw [decodeInPlace_arr hschema, decodeInPlace_arr hschema, ih]
  case case3 =>
    intro schemaRaw fields hprops
    rw [decodeInPlace_obj_of_none hprops, decodeInPlace_obj_of_none hprops]
  case case4 =>
    intro schemaRaw fields props hprops ih
    rw [decodeInPlace_obj hprops, decodeInPlace_obj hprops, ih]
  case case5 =>
    intro node schemaRaw harr hobj
    have hscalar := isObjectLike_eq_false harr hobj
    rw [decodeInPlace_of_scalar hscalar, decodeInPlace_of_scalar hscalar]
  case case6 =>
    intro props
    rw [decodeEntries, decodeEntries]
  case case7 =>
    intro props key value fields hkey ih
    rw [decodeEntries_unknown hkey, decodeEntries_unknown hkey, ih]
  case case8 =>
    intro props key value fields child hkey hvalue ih
    rw [decodeEntries_known hkey, decodeEntries_known hkey, ih, hvalue]
    rfl
  case case9 =>
    intro schemaRaw s inner hinner ih
    obtain ⟨-, want, -, htype⟩ := decodeIfSchemaSays_eq_some hinner
    rw [decodeSlot_of_decoded hinner, decodeSlot_of_ne_str, ih]
    -- what was parsed is no text
    apply decodeInPlace_ne_str
    rintro t rfl
    cases isObjectLike_of_isOfType htype
  case case10 =>
    intro schemaRaw s hkept
    rw [decodeSlot_of_kept hkept, decodeSlot_of_kept hkept]
  case case11 =>
    intro value schemaRaw hne ih
    rw [decodeSlot_of_ne_str hne, decodeSlot_of_ne_str (decodeInPlace_ne_str hne _), ih]
  case case12 =>
    intro schema
    rw [decodeItems, decodeItems]
  case case13 =>
    intro schema value items hvalue ih
    rw [decodeItems_cons, decodeItems_cons, ih, hvalue]
    rfl

/-! ## Messages -/

/-- The declared tools; one without a schema has `null`. -/
abbrev ToolMap := OrderedMap Text (Option Json)

/-- `tools.get(block.name) ?? undefined`. -/
def blockSchema (tools : ToolMap) (block : Json) : Option Json :=
  ((Json.string? (block.get? (text "name"))).bind tools.get?).join

/-- The object whose own text an input is. Without a schema, since an input must be an object. -/
def decodeWholeInput (input : Json) : Option Json :=
  match input with
  | .str s =>
    let trimmed := Text.trim s
    if trimmed.startsWith (text "\x7b") then (Json.parse trimmed).filter Json.isRecord else none
  | _ => none

/-- The decoded input; absent where nothing was decoded. -/
def decodeInput (input : Json) (schema : Option Json) : Option Json :=
  let whole := decodeWholeInput input
  let input := whole.getD input
  -- the copy is used only if something was decoded in it
  if isObjectLike input && (decodeInPlace input schema).2 then
    some (decodeInPlace input schema).1
  else whole

/-- `{ ...block, input }`. -/
def withInput (block input : Json) : Json :=
  match block with
  | .obj fields => .obj (setProperty fields (text "input") input)
  | block => block

/-- The decoded block; absent where nothing was decoded. -/
def decodeBlock (tools : ToolMap) (block : Json) : Option Json :=
  if isToolUseBlock block then
    ((block.get? (text "input")).bind (decodeInput · (blockSchema tools block))).map
      (withInput block)
  else none

/-- The message with its inputs decoded; absent where nothing was decoded. -/
def decodeDoubleEncodedInputs (message : AssistantMessage) (tools : ToolMap) :
    Option AssistantMessage :=
  if message.content.any fun block => (decodeBlock tools block).isSome then
    some { message with
      content := message.content.map fun block => (decodeBlock tools block).getD block }
  else none

/-- What the input of a call may be turned into. -/
inductive InputDecodedFrom (schema : Option Json) : Json → Json → Prop
  | inPlace {input input' : Json} (hlike : isObjectLike input = true)
      (h : DecodedFrom schema input input') : InputDecodedFrom schema input input'
  | whole {s : Text} {inner input' : Json} (hparse : Json.parse (Text.trim s) = some inner)
      (hrecord : inner.isRecord = true) (h : DecodedFrom schema inner input') :
      InputDecodedFrom schema (.str s) input'

/-- A block stays, or it is a call of which only the input is decoded. -/
def BlockDecodedFrom (tools : ToolMap) (block block' : Json) : Prop :=
  block' = block ∨ isToolUseBlock block = true ∧ ∃ input input',
    block.get? (text "input") = some input
      ∧ InputDecodedFrom (blockSchema tools block) input input'
      ∧ block' = withInput block input'

/-! ### Inputs -/

theorem isObjectLike_of_isRecord {v : Json} (h : v.isRecord = true) : isObjectLike v = true := by
  cases v with
  | obj _ => rfl
  | _ => cases h

variable {input : Json}

theorem decodeWholeInput_eq_some (h : decodeWholeInput input = some inner) :
    ∃ s, input = .str s ∧ Json.parse (Text.trim s) = some inner ∧ inner.isRecord = true := by
  unfold decodeWholeInput at h
  split at h
  · rename_i s
    dsimp only at h
    split at h
    · obtain ⟨hparse, hrecord⟩ := Option.filter_eq_some_iff.mp h
      exact ⟨s, rfl, hparse, hrecord⟩
    · cases h
  · cases h

theorem decodeWholeInput_of_isObjectLike (h : isObjectLike input = true) :
    decodeWholeInput input = none := by
  cases input with
  | str s => cases h
  | _ => rfl

theorem decodeInput_of_isObjectLike (h : isObjectLike input = true) (schema : Option Json) :
    decodeInput input schema
      = if (decodeInPlace input schema).2 then some (decodeInPlace input schema).1 else none := by
  unfold decodeInput
  rw [decodeWholeInput_of_isObjectLike h]
  simp only [Option.getD_none, h, Bool.true_and]

theorem decodeInput_decodedFrom {input' : Json} {schema : Option Json}
    (h : decodeInput input schema = some input') : InputDecodedFrom schema input input' := by
  unfold decodeInput at h
  cases hwhole : decodeWholeInput input with
  | none =>
    rw [hwhole] at h
    dsimp only [Option.getD_none] at h
    split at h
    · rename_i hchanged
      rw [← Option.some.inj h]
      rw [Bool.and_eq_true] at hchanged
      exact .inPlace hchanged.1 (decodeInPlace_decodedFrom input schema)
    · cases h
  | some inner =>
    obtain ⟨s, rfl, hparse, hrecord⟩ := decodeWholeInput_eq_some hwhole
    rw [hwhole] at h
    dsimp only [Option.getD_some] at h
    split at h
    · rw [← Option.some.inj h]
      exact .whole hparse hrecord (decodeInPlace_decodedFrom inner schema)
    · rw [← Option.some.inj h]
      exact .whole hparse hrecord (.same schema inner)

theorem decodeInput_again {input' : Json} {schema : Option Json}
    (h : decodeInput input schema = some input') : decodeInput input' schema = none := by
  unfold decodeInput at h
  dsimp only at h
  split at h
  · rename_i hchanged
    rw [Bool.and_eq_true] at hchanged
    obtain rfl := Option.some.inj h
    rw [decodeInput_of_isObjectLike, decodeInPlace_again]
    · rfl
    · rw [isObjectLike_decodeInPlace]
      exact hchanged.1
  · rename_i hchanged
    obtain ⟨s, -, -, hrecord⟩ := decodeWholeInput_eq_some h
    rw [h, Option.getD_some, isObjectLike_of_isRecord hrecord, Bool.true_and] at hchanged
    rw [decodeInput_of_isObjectLike (isObjectLike_of_isRecord hrecord), if_neg hchanged]

/-! ### Blocks -/

section Blocks

variable {block input : Json}

theorem get?_withInput (hinput : block.get? (text "input") = some input) (input' : Json)
    (key : Text) :
    (withInput block input').get? key
      = if text "input" = key then some input' else block.get? key := by
  cases block with
  | obj fields => exact lookupEntry_setProperty fields _ _ _
  | _ => cases hinput

theorem isToolUseBlock_withInput (hinput : block.get? (text "input") = some input)
    (input' : Json) : isToolUseBlock (withInput block input') = isToolUseBlock block := by
  rw [isToolUseBlock, isToolUseBlock, get?_withInput hinput, if_neg (by decide)]

theorem blockSchema_withInput (tools : ToolMap) (hinput : block.get? (text "input") = some input)
    (input' : Json) : blockSchema tools (withInput block input') = blockSchema tools block := by
  rw [blockSchema, blockSchema, get?_withInput hinput, if_neg (by decide)]

end Blocks

theorem decodeBlock_eq_some {tools : ToolMap} {block block' : Json}
    (h : decodeBlock tools block = some block') :
    isToolUseBlock block = true ∧ ∃ input input', block.get? (text "input") = some input
      ∧ decodeInput input (blockSchema tools block) = some input'
      ∧ block' = withInput block input' := by
  unfold decodeBlock at h
  split at h
  · rename_i htool
    obtain ⟨input', hinput', rfl⟩ := Option.map_eq_some_iff.mp h
    obtain ⟨input, hinput, hdecoded⟩ := Option.bind_eq_some_iff.mp hinput'
    exact ⟨htool, input, input', hinput, hdecoded, rfl⟩
  · cases h

theorem decodeBlock_decodedFrom (tools : ToolMap) (block : Json) :
    BlockDecodedFrom tools block ((decodeBlock tools block).getD block) := by
  cases h : decodeBlock tools block with
  | none => exact .inl rfl
  | some block' =>
    obtain ⟨htool, input, input', hinput, hdecoded, rfl⟩ := decodeBlock_eq_some h
    exact .inr ⟨htool, input, input', hinput, decodeInput_decodedFrom hdecoded, rfl⟩

theorem decodeBlock_again (tools : ToolMap) (block : Json) :
    decodeBlock tools ((decodeBlock tools block).getD block) = none := by
  cases h : decodeBlock tools block with
  | none => exact h
  | some block' =>
    obtain ⟨htool, input, input', hinput, hdecoded, rfl⟩ := decodeBlock_eq_some h
    rw [Option.getD_some, decodeBlock, isToolUseBlock_withInput hinput, if_pos htool,
      get?_withInput hinput, if_pos rfl, blockSchema_withInput tools hinput, Option.bind_some,
      decodeInput_again hdecoded]
    rfl

/-- **Decoding is minimal and idempotent**: the message stays but for its blocks, of each block at
most texts in the input are decoded, and a second run reports nothing. -/
theorem double_encoded_inputs_minimal_idempotent {message message' : AssistantMessage}
    {tools : ToolMap} (h : decodeDoubleEncodedInputs message tools = some message') :
    { message' with content := message.content } = message
      ∧ List.Forall₂ (BlockDecodedFrom tools) message.content message'.content
      ∧ decodeDoubleEncodedInputs message' tools = none := by
  unfold decodeDoubleEncodedInputs at h
  split at h
  · obtain rfl := Option.some.inj h
    refine ⟨rfl, ?_, ?_⟩
    · dsimp only
      rw [List.forall₂_map_right_iff, List.forall₂_same]
      exact fun block _ => decodeBlock_decodedFrom tools block
    · rw [decodeDoubleEncodedInputs, if_neg]
      rw [List.any_map, List.any_eq_true]
      rintro ⟨block, -, hsome⟩
      dsimp only [Function.comp_apply] at hsome
      rw [decodeBlock_again] at hsome
      cases hsome
  · cases h

/-- A list that is written as its text, with a list in a text inside. -/
theorem double_encoded_inputs_minimal_idempotent_plan :
    ∃ message message' tools, decodeDoubleEncodedInputs message tools = some message'
      ∧ { message' with content := message.content } = message
      ∧ List.Forall₂ (BlockDecodedFrom tools) message.content message'.content
      ∧ decodeDoubleEncodedInputs message' tools = none := by
  let schema : Json := .obj [(text "properties", .obj [(text "plan",
    .obj [(text "type", .str (text "array")),
      (text "items", .obj [(text "type", .str (text "array"))])])])]
  let tools : ToolMap := OrderedMap.empty.set (text "update") (some schema)
  let call (plan : Json) : AssistantMessage :=
    { id := none
      model := none
      content := [.obj [(text "type", .str (text "tool_use")), (text "name", .str (text "update")),
        (text "input", .obj [(text "plan", plan)])]]
      stopReason := .null
      stopSequence := none
      usage := none }
  have hrun : decodeDoubleEncodedInputs (call (.str (text "[\"[]\"]"))) tools
      = some (call (.arr [.arr []])) := by
    decide +kernel
  exact ⟨_, _, _, hrun, double_encoded_inputs_minimal_idempotent hrun⟩

end LlmRelay
