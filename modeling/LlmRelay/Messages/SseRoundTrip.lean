import LlmRelay.Ecma.JsonAssignment
import LlmRelay.Messages.ReadEvents

/-!
# The round trip of a message through its stream

A message that `emitSse` writes and `reconstructFromSse` reads back.

## Main definitions

* `WellFormedBlock`, `WellFormedMessage`: the blocks and messages of `anthropic.ts`;
* `SameBlock`, `RoundTrips`: the same block, and the same message;
* `Faithful`: nothing of the message is lost or made up.

## Main results

* `runEvents_block`, `runEvents_blocks`: a block through its events, and all of them;
* `readable_emitSse`: the events of a message can be read back;
* `emitSse_eq_head_append`: the head and the tail of a stream;
* `sse_round_trip_iff`: the message read back is the message written exactly when it is faithful.
-/

namespace LlmRelay

open Ecma

/-! ## Blocks -/

/-- The text of a property that is a string. -/
def textField (v : Json) (key : Text) : Option Text :=
  Json.string? (v.get? key)

/-- A text block. -/
def isTextBlock (block : Json) : Bool :=
  textField block (text "type") == some (text "text")

/-- A content block of `anthropic.ts`: a text block states its text, a tool call its id, its name
and an object as its input; of any other block only the type is known. -/
structure WellFormedBlock (block : Json) : Prop where
  normal : block.Normal
  typed : (textField block (text "type")).isSome = true
  texted : isTextBlock block = true → (textField block (text "text")).isSome = true
  called : isToolUseBlock block = true → (textField block (text "id")).isSome = true ∧
    (textField block (text "name")).isSome = true ∧
    (Json.record? (block.get? (text "input"))).isSome = true

/-- The same properties, in whatever order. -/
def SameBlock (block block' : Json) : Prop :=
  block.isRecord = true ∧ block'.isRecord = true ∧ ∀ key, block.get? key = block'.get? key

/-- A text block or a tool call has no property that the proxy does not model. -/
def Closed (block : Json) : Prop :=
  (isTextBlock block = true →
      ∀ key, (block.get? key).isSome = true → key ∈ [text "type", text "text"]) ∧
    (isToolUseBlock block = true →
      ∀ key, (block.get? key).isSome = true →
        key ∈ [text "type", text "id", text "name", text "input"])

theorem textField_eq_some_iff {v : Json} {key s : Text} :
    textField v key = some s ↔ v.get? key = some (.str s) := by
  rw [textField, Json.string?_eq_some_iff]

variable {key : Text}

theorem isRecord_of_textField {v : Json} (h : (textField v key).isSome = true) :
    v.isRecord = true := by
  match v with
  | .obj fields => rfl
  | .null | .bool _ | .num _ | .str _ | .arr _ => cases h

theorem sameBlock_iff {fields : List (Text × Json)} {block : Json} (hrecord : block.isRecord = true)
    (hfields : ∀ p ∈ fields, block.get? p.1 = some p.2) :
    SameBlock (.obj fields) block
      ↔ ∀ key, (block.get? key).isSome = true → key ∈ fields.map Prod.fst := by
  have hkeys : ∀ key, lookupEntry key fields = none ↔ key ∉ fields.map Prod.fst := fun key =>
    lookupEntry_eq_none_iff
  constructor
  · rintro ⟨-, -, hsame⟩ key hsome
    by_contra hnot
    rw [← hsame key, show (Json.obj fields).get? key = lookupEntry key fields from rfl,
      (hkeys key).mpr hnot] at hsome
    cases hsome
  · intro hclosed
    refine ⟨rfl, hrecord, fun key => ?_⟩
    show lookupEntry key fields = block.get? key
    cases hlookup : lookupEntry key fields with
    | some v => exact (hfields (key, v) (mem_of_lookupEntry hlookup)).symm
    | none =>
      cases hblock : block.get? key with
      | none => rfl
      | some v =>
        have hmem := hclosed key (by rw [hblock]; rfl)
        exact absurd hmem ((hkeys key).mp hlookup)

section Events

variable {r : Reconstruction}

theorem foldEvent_start (n : Nat) {content : Json} (hrecord : content.isRecord = true) :
    foldEvent r (Emission.json ⟨text "content_block_start",
        [(text "index", natJson n), (text "content_block", content)]⟩)
      = some { r with blocks := r.blocks.set (.fin n) (.ofSeed content) } := by
  match content with
  | .obj fields => rfl
  | .null | .bool _ | .num _ | .str _ | .arr _ => cases hrecord

theorem foldEvent_delta {n : Nat} {acc : BlockAccumulator}
    (hacc : r.blocks.get? (.fin n) = some acc) (fields : List (Text × Json)) :
    foldEvent r (Emission.json ⟨text "content_block_delta",
        [(text "index", natJson n), (text "delta", .obj fields)]⟩)
      = some { r with blocks := r.blocks.set (.fin n) (acc.addDelta (.obj fields)) } := by
  have hevent : foldEvent r (Emission.json ⟨text "content_block_delta",
      [(text "index", natJson n), (text "delta", .obj fields)]⟩)
      = some (r.contentBlockDelta (Emission.json ⟨text "content_block_delta",
        [(text "index", natJson n), (text "delta", .obj fields)]⟩)) := rfl
  have hindex : eventIndex (Emission.json ⟨text "content_block_delta",
      [(text "index", natJson n), (text "delta", .obj fields)]⟩) = .fin n := rfl
  rw [hevent, Reconstruction.contentBlockDelta, hindex, hacc]
  rfl

theorem foldEvent_stop (n : Nat) :
    foldEvent r (Emission.json ⟨text "content_block_stop", [(text "index", natJson n)]⟩) = some r :=
  rfl

end Events

variable {block : Json} {fields : List (Text × Json)}

theorem isToolUseBlock_iff :
    isToolUseBlock block = true ↔ textField block (text "type") = some (text "tool_use") := by
  rw [isToolUseBlock, beq_iff_eq]
  rfl

theorem isTextBlock_iff :
    isTextBlock block = true ↔ textField block (text "type") = some (text "text") := by
  rw [isTextBlock, beq_iff_eq]

variable (r : Reconstruction)

/-- **A block with one delta** through its events. -/
theorem runEvents_oneDelta (n : Nat) (seed : Json)
    (hrecord : seed.isRecord = true) (fields : List (Text × Json)) :
    runEvents r
        [ ⟨text "content_block_start", [(text "index", natJson n), (text "content_block", seed)]⟩,
          ⟨text "content_block_delta", [(text "index", natJson n), (text "delta", .obj fields)]⟩,
          ⟨text "content_block_stop", [(text "index", natJson n)]⟩ ]
      = some { r with
          blocks := r.blocks.set (.fin n) ((BlockAccumulator.ofSeed seed).addDelta (.obj fields)) } := by
  rw [runEvents_cons, foldEvent_start n hrecord, Option.bind_some, runEvents_cons,
    foldEvent_delta (OrderedMap.get?_set_self _ _ _), Option.bind_some, runEvents_cons,
    foldEvent_stop, Option.bind_some, runEvents_nil, OrderedMap.set_set]

/-- **A tool call** through its events. -/
theorem runEvents_toolUse (n : Nat) (h : WellFormedBlock block)
    (htool : isToolUseBlock block = true) :
    ∃ acc, runEvents r (blockEvents block n)
        = some { r with blocks := r.blocks.set (.fin n) acc } ∧
      (SameBlock (finalizeBlock acc) block ↔ Closed block) := by
  obtain ⟨hid, hname, hinput⟩ := h.called htool
  obtain ⟨id, hid⟩ := Option.isSome_iff_exists.mp hid
  obtain ⟨name, hname⟩ := Option.isSome_iff_exists.mp hname
  obtain ⟨input, hinput⟩ := Option.isSome_iff_exists.mp hinput
  obtain ⟨hinput, hobject⟩ := Option.filter_eq_some_iff.mp hinput
  rw [textField_eq_some_iff] at hid hname
  have htype := isToolUseBlock_iff.mp htool
  have hnottext : isTextBlock block = false := by
    rw [← Bool.not_eq_true, isTextBlock_iff, htype]
    decide
  have hvalue : orElse (block.get? (text "input")) (.obj []) = input := by
    rw [hinput]
    cases input with
    | obj fields => rfl
    | _ => cases hobject
  have hnormal : input.Normal := h.normal.get? hinput
  have hne : input.stringify ≠ [] :=
    List.ne_nil_of_length_pos (Json.length_stringify_pos hnormal)
  let seed : Json := .obj [(text "type", .str (text "tool_use")), (text "id", .str id),
    (text "name", .str name), (text "input", .obj [])]
  -- the whole input comes in one fragment, and is parsed when the block is finalized
  let acc : BlockAccumulator :=
    { type := text "tool_use", text := [], partialJson := input.stringify, thinking := [],
      signature := [], id := some id, name := some name, seedInput := some (.obj []), seed := seed }
  have hinput' : acc.input = input := by
    rw [BlockAccumulator.input, if_neg hne, Json.parse_stringify hnormal]
    rfl
  have hfinal : finalizeBlock acc = .obj [(text "type", .str (text "tool_use")),
      (text "id", .str id), (text "name", .str name), (text "input", input)] := by
    rw [finalizeBlock, if_neg (show text "tool_use" ≠ text "text" by decide), if_pos rfl, hinput']
    rfl
  refine ⟨acc, ?_, ?_⟩
  · rw [blockEvents]
    dsimp only
    rw [if_pos htool, hvalue, hid, hname]
    exact runEvents_oneDelta r n seed rfl _
  · rw [hfinal, sameBlock_iff (isRecord_of_textField h.typed), Closed, hnottext]
    · exact ⟨fun hkeys => ⟨nofun, fun _ => hkeys⟩, fun hclosed => hclosed.2 htool⟩
    · simp only [List.forall_mem_cons]
      exact ⟨textField_eq_some_iff.mp htype, hid, hname, hinput, nofun⟩

/-- **A text block** through its events. -/
theorem runEvents_text (n : Nat) (h : WellFormedBlock block) (htext : isTextBlock block = true) :
    ∃ acc, runEvents r (blockEvents block n)
        = some { r with blocks := r.blocks.set (.fin n) acc } ∧
      (SameBlock (finalizeBlock acc) block ↔ Closed block) := by
  obtain ⟨content, hcontent⟩ := Option.isSome_iff_exists.mp (h.texted htext)
  rw [textField_eq_some_iff] at hcontent
  have htype := isTextBlock_iff.mp htext
  have hnottool : ¬ isToolUseBlock block = true := by
    rw [isToolUseBlock_iff, htype]
    decide
  let seed : Json := .obj [(text "type", .str (text "text")), (text "text", .str [])]
  let acc : BlockAccumulator :=
    { BlockAccumulator.ofSeed seed with text := content }
  have hfinal : finalizeBlock acc
      = .obj [(text "type", .str (text "text")), (text "text", .str content)] := rfl
  refine ⟨acc, ?_, ?_⟩
  · rw [blockEvents]
    dsimp only
    rw [if_neg hnottool, if_pos (show Json.string? (block.get? (text "type")) = _ from htype),
      hcontent]
    exact runEvents_oneDelta r n seed rfl _
  · rw [hfinal, sameBlock_iff (isRecord_of_textField h.typed), Closed]
    · exact ⟨fun hkeys => ⟨fun _ => hkeys, fun htool => absurd htool hnottool⟩,
        fun hclosed => hclosed.1 htext⟩
    · simp only [List.forall_mem_cons]
      exact ⟨textField_eq_some_iff.mp htype, hcontent, nofun⟩

theorem lookupEntry_overlay {key s : Text} (h : s ≠ [] → lookupEntry key fields = some (.str s))
    (k : Text) :
    lookupEntry k (if s = [] then fields else setProperty fields key (.str s))
      = lookupEntry k fields := by
  split
  · rfl
  · rename_i hne
    rw [lookupEntry_setProperty]
    split
    · rename_i hk
      rw [← hk, h hne]
    · rfl

/-- **An opaque block** through its events keeps every property. -/
theorem runEvents_opaque (n : Nat) (h : WellFormedBlock block)
    (hnottext : ¬ isTextBlock block = true) (hnottool : ¬ isToolUseBlock block = true) :
    ∃ acc, runEvents r (blockEvents block n)
        = some { r with blocks := r.blocks.set (.fin n) acc } ∧
      (SameBlock (finalizeBlock acc) block ↔ Closed block) := by
  have hrecord := isRecord_of_textField h.typed
  obtain ⟨type, htype⟩ := Option.isSome_iff_exists.mp h.typed
  obtain ⟨fields, rfl⟩ : ∃ fields, block = .obj fields := by
    match block with
    | .obj fields => exact ⟨fields, rfl⟩
    | .null | .bool _ | .num _ | .str _ | .arr _ => cases hrecord
  have hacc : (BlockAccumulator.ofSeed (.obj fields)).type = type := by
    show (textField (.obj fields) (text "type")).getD _ = type
    rw [htype]
    rfl
  have hnodup := h.normal.nodup_keys
  have hlookup : lookupEntry (text "type") fields = some (.str type) :=
    textField_eq_some_iff.mp htype
  -- the type comes first, and the rest of the properties behind it
  have hspread : ∀ key, lookupEntry key (spreadInto
      [(text "type", .str (BlockAccumulator.ofSeed (.obj fields)).type)]
      (fields.filter fun p => p.1 ≠ text "type")) = lookupEntry key fields := by
    intro key
    have hrest : ((fields.filter fun p => p.1 ≠ text "type").map Prod.fst).Nodup :=
      hnodup.sublist (List.filter_sublist.map Prod.fst)
    rw [hacc, spreadInto, lookupEntry_foldl_setProperty key hrest, lookupEntry_filter_ne,
      lookupEntry]
    by_cases hkey : text "type" = key
    · rw [if_pos hkey, if_pos hkey, ← hkey, hlookup]
      rfl
    · rw [if_neg hkey, if_neg hkey]
      exact Option.or_none
  have hstring : ∀ key s, s ≠ [] → (textField (.obj fields) key).getD [] = s →
      lookupEntry key fields = some (.str s) := by
    intro key s hne hs
    cases hfield : textField (.obj fields) key with
    | none =>
      rw [hfield] at hs
      exact absurd hs.symm hne
    | some s' =>
      rw [hfield] at hs
      rw [← hs]
      exact textField_eq_some_iff.mp hfield
  -- the overlays write what the start event carried
  have hthinking := lookupEntry_overlay fun hne =>
    (hspread (text "thinking")).trans
      (hstring _ (BlockAccumulator.ofSeed (.obj fields)).thinking hne rfl)
  have hsignature := lookupEntry_overlay fun hne =>
    (hthinking (text "signature")).trans ((hspread (text "signature")).trans
      (hstring _ (BlockAccumulator.ofSeed (.obj fields)).signature hne rfl))
  have hfields : ∀ key, lookupEntry key (BlockAccumulator.ofSeed (.obj fields)).opaqueFields
      = lookupEntry key fields := fun key =>
    (hsignature key).trans ((hthinking key).trans (hspread key))
  have htype' : Json.string? ((Json.obj fields).get? (text "type")) ≠ some (text "text") :=
    fun heq => hnottext (isTextBlock_iff.mpr heq)
  refine ⟨.ofSeed (.obj fields), ?_, ?_⟩
  · rw [blockEvents]
    dsimp only
    rw [if_neg hnottool, if_neg htype', runEvents_cons, foldEvent_start n rfl, Option.bind_some,
      runEvents_cons, foldEvent_stop, Option.bind_some, runEvents_nil]
  · have htext : ¬ (BlockAccumulator.ofSeed (.obj fields)).type = text "text" := by
      rw [hacc]
      rintro rfl
      exact hnottext (isTextBlock_iff.mpr htype)
    have htool : ¬ (BlockAccumulator.ofSeed (.obj fields)).type = text "tool_use" := by
      rw [hacc]
      rintro rfl
      exact hnottool (isToolUseBlock_iff.mpr htype)
    rw [finalizeBlock, if_neg htext, if_neg htool]
    exact iff_of_true ⟨rfl, rfl, hfields⟩
      ⟨fun h => absurd h hnottext, fun h => absurd h hnottool⟩

/-- **One block.** -/
theorem runEvents_block (n : Nat) (h : WellFormedBlock block) :
    ∃ acc, runEvents r (blockEvents block n)
        = some { r with blocks := r.blocks.set (.fin n) acc } ∧
      (SameBlock (finalizeBlock acc) block ↔ Closed block) := by
  by_cases htool : isToolUseBlock block = true
  · exact runEvents_toolUse r n h htool
  · by_cases htext : isTextBlock block = true
    · exact runEvents_text r n h htext
    · exact runEvents_opaque r n h htext htool

/-! ## All the blocks -/

/-- The blocks with the positions they are written at. -/
def placed (accs : List BlockAccumulator) (n : Nat) : List (Number × BlockAccumulator) :=
  (accs.zipIdx n).map fun p => (.fin p.2, p.1)

theorem placed_cons (acc : BlockAccumulator) (accs : List BlockAccumulator) (n : Nat) :
    placed (acc :: accs) n = (.fin n, acc) :: placed accs (n + 1) := rfl

/-- **The blocks of a message**, one after the other. -/
theorem runEvents_blocks {blocks : List Json}
    (h : ∀ block ∈ blocks, WellFormedBlock block) (n : Nat)
    (hnew : ∀ key ∈ r.blocks.keys, ∃ m < n, key = .fin m) :
    ∃ bs accs, runEvents r ((blocks.zipIdx n).flatMap fun p => blockEvents p.1 p.2)
        = some { r with blocks := bs } ∧
      bs.entries = r.blocks.entries ++ placed accs n ∧
      List.Forall₂ (fun acc block => SameBlock (finalizeBlock acc) block ↔ Closed block)
        accs blocks := by
  induction blocks generalizing r n with
  | nil => exact ⟨r.blocks, [], rfl, (List.append_nil _).symm, .nil⟩
  | cons block rest ih =>
    obtain ⟨acc, hrun, hsame⟩ := runEvents_block r n (h block List.mem_cons_self)
    have hnone : r.blocks.get? (.fin n) = none := by
      by_contra hsome
      obtain ⟨m, hm, heq⟩ := hnew _ ((OrderedMap.mem_keys_iff _).mpr
        (Option.isSome_iff_ne_none.mpr hsome))
      rw [Number.fin.injEq, Nat.cast_inj] at heq
      omega
    have hentries := OrderedMap.entries_set_of_none acc hnone
    have hnew' : ∀ key ∈ (r.blocks.set (.fin n) acc).keys, ∃ m < n + 1, key = .fin m := by
      intro key hkey
      rw [OrderedMap.keys, hentries, List.map_append, List.mem_append] at hkey
      rcases hkey with hkey | hkey
      · obtain ⟨m, hm, rfl⟩ := hnew key hkey
        exact ⟨m, Nat.lt_succ_of_lt hm, rfl⟩
      · exact ⟨n, Nat.lt_succ_self n, List.mem_singleton.mp hkey⟩
    obtain ⟨bs, accs, hrest, hbs, hall⟩ := ih { r with blocks := r.blocks.set (.fin n) acc }
      (fun b hb => h b (List.mem_cons_of_mem block hb)) (n + 1) hnew'
    refine ⟨bs, acc :: accs, ?_, ?_, .cons hsame hall⟩
    · rw [List.zipIdx_cons, List.flatMap_cons, runEvents_append, hrun]
      exact hrest
    · rw [hbs, hentries, placed_cons, List.append_assoc, List.singleton_append]

theorem mergeSort_placed (accs : List BlockAccumulator) :
    (placed accs 0).mergeSort (fun a b => Number.le a.1 b.1) = placed accs 0 := by
  apply List.mergeSort_of_pairwise
  rw [placed, List.pairwise_map]
  have hsnd : ((accs.zipIdx 0).map Prod.snd).Pairwise (· < ·) := by
    rw [List.zipIdx_map_snd]
    exact List.pairwise_lt_range'
  refine (List.pairwise_map.mp hsnd).imp fun {a b} hlt => ?_
  show decide ((a.2 : ℚ) ≤ b.2) = true
  rw [decide_eq_true_eq, Nat.cast_le]
  exact Nat.le_of_lt hlt

theorem forall₂_iff {α β : Type} {P : α → β → Prop} {Q : β → Prop} {as : List α} {bs : List β}
    (h : List.Forall₂ (fun a b => P a b ↔ Q b) as bs) : List.Forall₂ P as bs ↔ ∀ b ∈ bs, Q b := by
  induction h with
  | nil => simp
  | cons hab _ ih => rw [List.forall₂_cons, hab, ih, List.forall_mem_cons]

/-! ## The data of the events are normal -/

/-- Keys of an object literal: none twice, and none an index. -/
def LiteralKeys (keys : List Text) : Prop :=
  keys.Nodup ∧ ∀ key ∈ keys, arrayIndex? key = none

instance (keys : List Text) : Decidable (LiteralKeys keys) :=
  inferInstanceAs (Decidable (_ ∧ _))

theorem normal_of_keys (keys : List Text) (h : LiteralKeys keys)
    (hsub : (fields.map Prod.fst).Sublist keys) (hvalues : ∀ p ∈ fields, p.2.Normal) :
    (Json.obj fields).Normal :=
  Json.normal_literal (fun _ hp => h.2 _ (hsub.subset (List.mem_map_of_mem hp)))
    (h.1.sublist hsub) hvalues

theorem normal_natJson {n : Nat} (h : n ≤ maxSafeInteger) : (natJson n).Normal :=
  ⟨n, rfl, isDouble_natCast h⟩

/-- An event that can be read back. -/
def Readable (e : Emission) : Prop :=
  Printable e.type ∧ e.json.Normal

theorem readable_of_keys {type : Text} (htype : Printable type) (keys : List Text)
    (hkeys : LiteralKeys (text "type" :: keys)) {data : List (Text × Json)}
    (hsub : (data.map Prod.fst).Sublist keys) (hvalues : ∀ p ∈ data, p.2.Normal) :
    Readable ⟨type, data⟩ := by
  refine ⟨htype, normal_of_keys _ hkeys (hsub.cons_cons _) fun p hp => ?_⟩
  rcases List.mem_cons.mp hp with rfl | hp
  · trivial
  · exact hvalues p hp

theorem keys_definedField (key : Text) (v : Option Json) :
    ((definedField key v).map Prod.fst).Sublist [key] := by
  cases v with
  | none => exact List.nil_sublist _
  | some v => exact .refl _

theorem normal_definedField {value : Option Json} (h : ∀ v ∈ value, v.Normal) :
    ∀ p ∈ definedField key value, p.2.Normal := by
  intro p hp
  cases value with
  | none => cases hp
  | some v =>
    rw [List.mem_singleton.mp hp]
    exact h v rfl

section BlockEvents

variable {n : Nat} (hn : n ≤ maxSafeInteger)
include hn

theorem readable_indexed {type key : Text} (htype : Printable type)
    (hkeys : LiteralKeys [text "type", text "index", key]) {content : Json}
    (hcontent : content.Normal) : Readable ⟨type, [(text "index", natJson n), (key, content)]⟩ := by
  refine readable_of_keys htype [text "index", key] hkeys (.refl _) fun p hp => ?_
  rcases List.mem_pair.mp hp with rfl | rfl
  · exact normal_natJson hn
  · exact hcontent

theorem readable_stop : Readable ⟨text "content_block_stop", [(text "index", natJson n)]⟩ := by
  refine readable_of_keys (by decide) [text "index"] (by decide) (.refl _) fun p hp => ?_
  rw [List.mem_singleton.mp hp]
  exact normal_natJson hn

theorem readable_oneDelta {seed delta : Json} (hseed : seed.Normal) (hdelta : delta.Normal) :
    ∀ e ∈ [Emission.mk (text "content_block_start")
          [(text "index", natJson n), (text "content_block", seed)],
        ⟨text "content_block_delta", [(text "index", natJson n), (text "delta", delta)]⟩,
        ⟨text "content_block_stop", [(text "index", natJson n)]⟩], Readable e := by
  simp only [List.forall_mem_cons]
  exact ⟨readable_indexed hn (by decide) (by decide) hseed,
    readable_indexed hn (by decide) (by decide) hdelta, readable_stop hn, nofun⟩

theorem readable_blockEvents {block : Json} (h : WellFormedBlock block) :
    ∀ e ∈ blockEvents block n, Readable e := by
  have hdefined : ∀ key, ∀ p ∈ definedField key (block.get? key), p.2.Normal := fun key =>
    normal_definedField fun v hv => h.normal.get? hv
  rw [blockEvents]
  dsimp only
  split
  · -- a tool call: its input comes in a fragment
    refine readable_oneDelta hn ?_ ?_
    · refine normal_of_keys ([text "type"] ++ [text "id"] ++ [text "name"] ++ [text "input"])
        (by decide) ?_ fun p hp => ?_
      · rw [List.map_append, List.map_append, List.map_append]
        exact (((List.Sublist.refl _).append (keys_definedField _ _)).append
          (keys_definedField _ _)).append (.refl _)
      · simp only [List.mem_append] at hp
        rcases hp with ((hp | hp) | hp) | hp
        · rw [List.mem_singleton.mp hp]
          trivial
        · exact hdefined _ p hp
        · exact hdefined _ p hp
        · rw [List.mem_singleton.mp hp]
          exact ⟨rfl, trivial⟩
    · refine normal_of_keys [text "type", text "partial_json"] (by decide) (.refl _)
        fun p hp => ?_
      rcases List.mem_pair.mp hp with rfl | rfl <;> trivial
  split
  · refine readable_oneDelta hn ?_ ?_
    · refine normal_of_keys [text "type", text "text"] (by decide) (.refl _) fun p hp => ?_
      rcases List.mem_pair.mp hp with rfl | rfl <;> trivial
    · refine normal_of_keys [text "type", text "text"] (by decide)
        ((keys_definedField _ _).cons_cons _) fun p hp => ?_
      rcases List.mem_cons.mp hp with rfl | hp
      · trivial
      · exact hdefined _ p hp
  · simp only [List.forall_mem_cons]
    exact ⟨readable_indexed hn (by decide) (by decide) h.normal, readable_stop hn, nofun⟩

end BlockEvents

/-! ## Messages -/

/-- The usage fields that the proxy models. -/
def usageKeys : List Text :=
  [text "input_tokens", text "cache_creation_input_tokens", text "cache_read_input_tokens",
    text "output_tokens"]

/-- What a message states of its usage. -/
def usageField (msg : AssistantMessage) (key : Text) : Option Json :=
  msg.usage.bind (·.get? key)

/-- A message of `anthropic.ts`. -/
structure WellFormedMessage (msg : AssistantMessage) : Prop where
  blocks : ∀ block ∈ msg.content, WellFormedBlock block
  /-- Arrays are no longer than that. -/
  length : msg.content.length < 2 ^ 32
  stopReason : msg.stopReason = .null ∨ ∃ s, msg.stopReason = .str s
  stopSequence : ∀ v ∈ msg.stopSequence, v = .null ∨ ∃ s, v = .str s
  usage : ∀ u ∈ msg.usage, u.Normal ∧ u.isRecord = true
  counts : ∀ key ∈ usageKeys, ∀ v, usageField msg key = some v → ∃ x, v = .num x

/-- The message read back is the same: its identity where it states one, its blocks, why it
stopped, and its usage, where what is absent is still absent. -/
structure RoundTrips (msg out : AssistantMessage) : Prop where
  id : ∀ id, id ≠ [] → msg.id = some id → out.id = some id
  model : msg.model ≠ some [] → out.model = msg.model
  content : List.Forall₂ SameBlock out.content msg.content
  stopReason : msg.stopReason ≠ .null → out.stopReason = msg.stopReason
  stopSequence : out.stopSequence = msg.stopSequence
  usage : ∀ key ∈ usageKeys, usageField out key = usageField msg key

/-- No block has a property that is not modelled, the stop sequence is stated (possibly as null),
and so are the output tokens when there is a usage. -/
structure Faithful (msg : AssistantMessage) : Prop where
  closed : ∀ block ∈ msg.content, Closed block
  stopSequence : msg.stopSequence.isSome = true
  outputTokens : msg.usage.isSome = true → (usageField msg (text "output_tokens")).isSome = true

section Message

variable {msg : AssistantMessage} (h : WellFormedMessage msg)
include h

variable {key : Text}

theorem normal_usageField {v : Json} (hv : usageField msg key = some v) : v.Normal := by
  obtain ⟨u, hu, hkey⟩ := Option.bind_eq_some_iff.mp hv
  exact (h.usage u hu).1.get? hkey

theorem numberField_eq (hkey : key ∈ usageKeys) :
    numberField msg.usage key = definedField key (usageField msg key) := by
  rw [numberField]
  cases hv : usageField msg key with
  | none =>
    rw [show msg.usage.bind (·.get? key) = none from hv]
    rfl
  | some v =>
    obtain ⟨x, rfl⟩ := h.counts key hkey v hv
    rw [show msg.usage.bind (·.get? key) = some (.num x) from hv]
    rfl

theorem truthy_usage : Json.truthy msg.usage = msg.usage.isSome := by
  cases husage : msg.usage with
  | none => rfl
  | some u =>
    have hrecord := (h.usage u husage).2
    match u with
    | .obj fields => rfl
    | .null | .bool _ | .num _ | .str _ | .arr _ => cases hrecord

theorem startUsage_eq :
    startUsage msg
      = definedField (text "input_tokens") (usageField msg (text "input_tokens"))
        ++ definedField (text "cache_creation_input_tokens")
          (usageField msg (text "cache_creation_input_tokens"))
        ++ definedField (text "cache_read_input_tokens")
          (usageField msg (text "cache_read_input_tokens"))
        ++ definedField (text "output_tokens") (if msg.usage.isSome then some (.num 0) else none) := by
  rw [startUsage, numberField_eq h (by decide), numberField_eq h (by decide),
    numberField_eq h (by decide), truthy_usage h]
  congr 1
  cases msg.usage.isSome <;> rfl

theorem keys_startUsage : ((startUsage msg).map Prod.fst).Sublist usageKeys := by
  rw [startUsage_eq h, List.map_append, List.map_append, List.map_append]
  exact (((keys_definedField _ _).append (keys_definedField _ _)).append
    (keys_definedField _ _)).append (keys_definedField _ _)

theorem normal_startUsage : ∀ p ∈ startUsage msg, p.2.Normal := by
  have hdefined : ∀ key, ∀ p ∈ definedField key (usageField msg key), p.2.Normal := fun key =>
    normal_definedField fun v hv => normal_usageField h hv
  intro p hp
  rw [startUsage_eq h] at hp
  simp only [List.mem_append] at hp
  rcases hp with ((hp | hp) | hp) | hp
  · exact hdefined _ p hp
  · exact hdefined _ p hp
  · exact hdefined _ p hp
  · split at hp
    · rw [List.mem_singleton.mp hp]
      exact normal_natJson (Nat.zero_le _)
    · cases hp

theorem lookupEntry_startUsage (hkey : key ∈ usageKeys) :
    lookupEntry key (startUsage msg)
      = if key = text "output_tokens" then if msg.usage.isSome then some (.num 0) else none
        else usageField msg key := by
  have hdefined : ∀ key' v, lookupEntry key (definedField key' v) = if key' = key then v else none := by
    intro key' v
    cases v with
    | none => simp [definedField, lookupEntry]
    | some v => rfl
  rw [startUsage_eq h]
  simp only [lookupEntry_append, hdefined]
  simp only [usageKeys, List.mem_cons, List.not_mem_nil, or_false] at hkey
  rcases hkey with rfl | rfl | rfl | rfl
  · rw [if_pos rfl, if_neg (by decide), if_neg (by decide), if_neg (by decide), if_neg (by decide)]
    simp
  · rw [if_neg (by decide), if_pos rfl, if_neg (by decide), if_neg (by decide), if_neg (by decide)]
    simp
  · rw [if_neg (by decide), if_neg (by decide), if_pos rfl, if_neg (by decide), if_neg (by decide)]
    simp
  · rw [if_neg (by decide), if_neg (by decide), if_neg (by decide), if_pos rfl, if_pos rfl]
    simp

theorem endDelta_eq : endDelta msg
    = (text "delta", .obj
        [(text "stop_reason", orElse (some msg.stopReason) (.str (text "end_turn"))),
          (text "stop_sequence", orElse msg.stopSequence .null)])
      :: definedField (text "usage") ((usageField msg (text "output_tokens")).map fun v =>
          .obj [(text "output_tokens", v)]) := by
  rw [endDelta, numberField_eq h (by decide)]
  cases usageField msg (text "output_tokens") <;> rfl

theorem readable_endDelta : Readable ⟨text "message_delta", endDelta msg⟩ := by
  have hdelta : (Json.obj
      [(text "stop_reason", orElse (some msg.stopReason) (.str (text "end_turn"))),
        (text "stop_sequence", orElse msg.stopSequence .null)]).Normal := by
    refine normal_of_keys [text "stop_reason", text "stop_sequence"] (by decide) (.refl _)
      fun p hp => ?_
    rcases List.mem_pair.mp hp with rfl | rfl
    · rcases h.stopReason with hnull | ⟨s, hs⟩
      · rw [hnull]
        trivial
      · rw [hs]
        trivial
    · cases hsequence : msg.stopSequence with
      | none => trivial
      | some v =>
        rcases h.stopSequence v hsequence with rfl | ⟨s, rfl⟩ <;> trivial
  refine readable_of_keys (by decide) [text "delta", text "usage"] (by decide) ?_ ?_
  · rw [endDelta_eq h]
    exact (keys_definedField _ _).cons_cons _
  · intro p hp
    rw [endDelta_eq h, List.mem_cons] at hp
    rcases hp with rfl | hp
    · exact hdelta
    · refine normal_definedField (fun v hv => ?_) p hp
      obtain ⟨count, hcount, rfl⟩ := Option.map_eq_some_iff.mp hv
      refine normal_of_keys [text "output_tokens"] (by decide) (.refl _) fun q hq => ?_
      rw [List.mem_singleton.mp hq]
      exact normal_usageField h hcount

/-- The events of a well-formed message can be read back. -/
theorem readable_emitSse (syntheticId : Text) : ∀ e ∈ emitSse syntheticId msg, Readable e := by
  have hblocks : ∀ e ∈ blocksFrom 0 msg.content, Readable e := by
    intro e he
    obtain ⟨⟨block, n⟩, hmem, he⟩ := List.mem_flatMap.mp he
    obtain ⟨-, hn, hblock⟩ := List.mem_zipIdx hmem
    split at he
    · cases he
    · refine readable_blockEvents ?_ (h.blocks block ?_) e he
      · have hlength := h.length
        rw [maxSafeInteger]
        omega
      · rw [hblock]
        exact List.getElem_mem _
  intro e he
  rw [emitSse, List.cons_append, List.mem_cons, List.mem_append] at he
  rcases he with rfl | he | he
  · refine readable_of_keys (by decide) [text "message"] (by decide) (.refl _) fun p hp => ?_
    rw [List.mem_singleton.mp hp]
    refine normal_of_keys [text "id", text "type", text "role", text "model", text "content",
      text "stop_reason", text "stop_sequence", text "usage"] (by decide) (.refl _) fun p hp => ?_
    simp only [List.mem_cons, List.not_mem_nil, or_false] at hp
    rcases hp with rfl | rfl | rfl | rfl | rfl | rfl | rfl | rfl
    iterate 7 trivial
    exact normal_of_keys usageKeys (by decide) (keys_startUsage h) (normal_startUsage h)
  · exact hblocks e he
  · rcases List.mem_pair.mp he with rfl | rfl
    · exact readable_endDelta h
    · exact readable_of_keys (by decide) [] (by decide) (.refl _) fun p hp => by cases hp

/-- **The whole stream** of a message, folded. -/
theorem runEvents_emitSse (syntheticId : Text) :
    ∃ bs accs, bs.entries = placed accs 0 ∧
      List.Forall₂ (fun acc block => SameBlock (finalizeBlock acc) block ↔ Closed block)
        accs msg.content ∧
      runEvents .new (emitSse syntheticId msg) = some
        { blocks := bs
          stopReason := orElse (some (orElse (some msg.stopReason) (.str (text "end_turn")))) .null
          stopSequence := some (orElse msg.stopSequence .null)
          usage := some (.obj (spreadInto (startUsage msg)
            (definedField (text "output_tokens") (usageField msg (text "output_tokens")))))
          id := (nonEmpty? (some (.str (msg.id.getD syntheticId)))).or none
          model := (nonEmpty? (some (.str (msg.model.getD [])))).or none } := by
  -- a spread copies the fields as they are
  have hspread : spreadInto [] (startUsage msg) = startUsage msg :=
    (normal_of_keys usageKeys (by decide) (keys_startUsage h) (normal_startUsage h)).1
  let r : Reconstruction :=
    { Reconstruction.new with
      usage := some (.obj (startUsage msg))
      id := (nonEmpty? (some (.str (msg.id.getD syntheticId)))).or none
      model := (nonEmpty? (some (.str (msg.model.getD [])))).or none }
  obtain ⟨bs, accs, hrun, hentries, hall⟩ := runEvents_blocks r h.blocks 0 fun _ hmem =>
    (by cases hmem)
  refine ⟨bs, accs, hentries, hall, ?_⟩
  have hblocks : blocksFrom 0 msg.content
      = msg.content.zipIdx.flatMap fun p => blockEvents p.1 p.2 := by
    rw [blocksFrom]
    refine List.flatMap_congr fun p _ => if_neg ?_
    show ¬ decide ((p.2 : ℚ) < (0 : Nat)) = true
    rw [decide_eq_true_eq, not_lt]
    exact Nat.cast_le.mpr (Nat.zero_le _)
  have hstart : foldEvent .new (Emission.json ⟨text "message_start",
      [(text "message", .obj
        [(text "id", .str (msg.id.getD syntheticId)), (text "type", .str (text "message")),
          (text "role", .str (text "assistant")), (text "model", .str (msg.model.getD [])),
          (text "content", .arr []), (text "stop_reason", .null), (text "stop_sequence", .null),
          (text "usage", .obj (startUsage msg))])]⟩) = some r := by
    show some ({ r with usage := some (.obj (spreadInto [] (startUsage msg))) } : Reconstruction) = _
    rw [hspread]
  rw [emitSse, List.cons_append, runEvents_cons, hblocks, hstart, Option.bind_some,
    runEvents_append, hrun, Option.bind_some, terminators, endDelta_eq h]
  cases usageField msg (text "output_tokens") with
  | none => rfl
  | some v =>
    show some ({ r with
      blocks := bs
      stopReason := orElse (some (orElse (some msg.stopReason) (.str (text "end_turn")))) .null
      stopSequence := some (orElse msg.stopSequence .null)
      usage := some (.obj (spreadInto (spreadInto [] (startUsage msg))
        [(text "output_tokens", v)])) } : Reconstruction) = _
    rw [hspread]
    rfl

theorem lookupEntry_finalUsage (hkey : key ∈ usageKeys) :
    lookupEntry key (spreadInto (startUsage msg)
        (definedField (text "output_tokens") (usageField msg (text "output_tokens"))))
      = if key = text "output_tokens" then
          (usageField msg key).or (if msg.usage.isSome then some (.num 0) else none)
        else usageField msg key := by
  have hnodup : ((definedField (text "output_tokens")
      (usageField msg (text "output_tokens"))).map Prod.fst).Nodup :=
    (List.nodup_singleton _).sublist (keys_definedField _ _)
  rw [spreadInto, lookupEntry_foldl_setProperty key hnodup, lookupEntry_startUsage h hkey]
  by_cases heq : key = text "output_tokens"
  · rw [if_pos heq, if_pos heq, heq]
    cases usageField msg (text "output_tokens") <;> rfl
  · rw [if_neg heq, if_neg heq]
    have hnone : lookupEntry key (definedField (text "output_tokens")
        (usageField msg (text "output_tokens"))) = none := by
      refine lookupEntry_eq_none_iff.mpr fun hmem => heq ?_
      exact List.mem_singleton.mp ((keys_definedField _ _).subset hmem)
    rw [hnone]
    rfl

end Message

/-- The events of a stream before a block: those that the client has got already. -/
def emitSseHead (syntheticId : Text) (msg : AssistantMessage) (startIndex : Number) :
    List Emission :=
  (emitSse syntheticId msg).take 1 ++ msg.content.zipIdx.flatMap fun p =>
    if Number.lt (.fin p.2) startIndex then blockEvents p.1 p.2 else []

theorem flatMap_zipIdx_split (f : Json × Nat → List Emission) (startIndex : Number)
    (blocks : List Json) (n : Nat) :
    (blocks.zipIdx n).flatMap f
      = ((blocks.zipIdx n).flatMap fun p =>
          if Number.lt (.fin p.2) startIndex then f p else [])
        ++ (blocks.zipIdx n).flatMap fun p =>
          if Number.lt (.fin p.2) startIndex then [] else f p := by
  have hmono : ∀ {m m' : Nat}, m ≤ m' → ¬ Number.lt (.fin m) startIndex = true →
      ¬ Number.lt (.fin m') startIndex = true := by
    intro m m' hle hnot
    cases startIndex with
    | nan => exact Bool.false_ne_true
    | negInf => exact Bool.false_ne_true
    | posInf => exact absurd rfl hnot
    | fin q =>
      have hcast : (m : ℚ) ≤ m' := Nat.cast_le.mpr hle
      have hnot : ¬ decide ((m : ℚ) < q) = true := hnot
      show ¬ decide ((m' : ℚ) < q) = true
      rw [decide_eq_true_eq, not_lt] at hnot ⊢
      exact hnot.trans hcast
  induction blocks generalizing n with
  | nil => rfl
  | cons block rest ih =>
    by_cases hlt : Number.lt (.fin n) startIndex = true
    · rw [List.zipIdx_cons, List.flatMap_cons, List.flatMap_cons, List.flatMap_cons, if_pos hlt,
        if_pos hlt, List.nil_append, List.append_assoc, ← ih]
    · -- the block is in the tail, and so are all that follow
      have hafter : ∀ p ∈ (block :: rest).zipIdx n, ¬ Number.lt (.fin p.2) startIndex = true :=
        fun p hp => hmono (List.mem_zipIdx hp).1 hlt
      have hhead : (((block :: rest).zipIdx n).flatMap fun p =>
          if Number.lt (.fin p.2) startIndex then f p else []) = [] :=
        List.flatMap_eq_nil_iff.mpr fun p hp => if_neg (hafter p hp)
      rw [hhead, List.nil_append]
      exact List.flatMap_congr fun p hp => (if_neg (hafter p hp)).symm

/-- **Head and tail** make up the stream. -/
theorem emitSse_eq_head_append (syntheticId : Text) (msg : AssistantMessage) (startIndex : Number) :
    emitSse syntheticId msg
      = emitSseHead syntheticId msg startIndex ++ emitSseTail msg startIndex := by
  have hblocks : blocksFrom 0 msg.content
      = (msg.content.zipIdx.flatMap fun p =>
          if Number.lt (.fin p.2) startIndex then blockEvents p.1 p.2 else [])
        ++ blocksFrom startIndex msg.content := by
    rw [blocksFrom, blocksFrom, ← flatMap_zipIdx_split (fun p => blockEvents p.1 p.2)]
    refine List.flatMap_congr fun p _ => if_neg ?_
    show ¬ decide ((p.2 : ℚ) < (0 : Nat)) = true
    rw [decide_eq_true_eq, not_lt]
    exact Nat.cast_le.mpr (Nat.zero_le _)
  rw [emitSseHead, emitSse, emitSseTail, hblocks]
  simp only [List.cons_append, List.take_succ_cons, List.take_zero, List.nil_append,
    List.append_assoc]

/-- **The round trip.** The message that is read back from its stream is the same, and the tail of
the stream from any index on completes its head, exactly when no block has a property that is not
modelled, the stop sequence is stated, and a stated usage states the output tokens. -/
theorem sse_round_trip_iff (syntheticId : Text) (msg : AssistantMessage)
    (h : WellFormedMessage msg) :
    (∃ out, reconstructFromSse (encodeAll (emitSse syntheticId msg)) = some out ∧
        RoundTrips msg out ∧
        ∀ startIndex, emitSseHead syntheticId msg startIndex ++ emitSseTail msg startIndex
          = emitSse syntheticId msg)
      ↔ Faithful msg := by
  obtain ⟨bs, accs, hentries, hall, hrun⟩ := runEvents_emitSse h syntheticId
  have hread := reconstructFromSse_encodeAll (readable_emitSse h syntheticId)
  rw [hrun, Option.map_some] at hread
  have hcontent : (bs.entries.mergeSort fun a b => Number.le a.1 b.1).map (fun p => finalizeBlock p.2)
      = accs.map finalizeBlock := by
    rw [hentries, mergeSort_placed, placed, List.map_map]
    show accs.zipIdx.map (finalizeBlock ∘ Prod.fst) = _
    rw [← List.map_map, List.zipIdx_map_fst]
  have hclosed : List.Forall₂ SameBlock (accs.map finalizeBlock) msg.content
      ↔ ∀ block ∈ msg.content, Closed block := by
    rw [List.forall₂_map_left_iff]
    exact forall₂_iff hall
  have husage : ∀ key ∈ usageKeys, lookupEntry key (spreadInto (startUsage msg)
      (definedField (text "output_tokens") (usageField msg (text "output_tokens"))))
      = if key = text "output_tokens" then
          (usageField msg key).or (if msg.usage.isSome then some (.num 0) else none)
        else usageField msg key := fun key hkey => lookupEntry_finalUsage h hkey
  rw [hread]
  constructor
  · rintro ⟨out, hout, hsame, -⟩
    cases hout
    refine ⟨hclosed.mp (hcontent ▸ hsame.content), ?_, fun hstated => ?_⟩
    · rw [← hsame.stopSequence]
      rfl
    · -- an absent figure would come back as zero
      have htokens := (husage (text "output_tokens") (by decide)).symm.trans
        (hsame.usage (text "output_tokens") (by decide))
      rw [if_pos rfl, if_pos hstated] at htokens
      rw [← htokens]
      cases usageField msg (text "output_tokens") <;> rfl
  · intro hfaithful
    refine ⟨_, rfl, ⟨?_, ?_, ?_, ?_, ?_, ?_⟩, fun startIndex =>
      (emitSse_eq_head_append syntheticId msg startIndex).symm⟩
    · intro id hne hid
      show (nonEmpty? (some (.str (msg.id.getD syntheticId)))).or none = some id
      rw [hid, Option.getD_some, nonEmpty?]
      simp [Json.string?, hne]
    · intro hne
      show (nonEmpty? (some (.str (msg.model.getD [])))).or none = msg.model
      cases hmodel : msg.model with
      | none => rfl
      | some model =>
        have hmodelne : model ≠ [] := fun heq => hne (by rw [hmodel, heq])
        rw [Option.getD_some, nonEmpty?]
        simp [Json.string?, hmodelne]
    · show List.Forall₂ SameBlock ((bs.entries.mergeSort fun a b => Number.le a.1 b.1).map
        fun p => finalizeBlock p.2) msg.content
      rw [hcontent]
      exact hclosed.mpr hfaithful.closed
    · intro hne
      show orElse (some (orElse (some msg.stopReason) (.str (text "end_turn")))) .null
        = msg.stopReason
      rcases h.stopReason with hnull | ⟨s, hs⟩
      · exact absurd hnull hne
      · rw [hs]
        rfl
    · show some (orElse msg.stopSequence .null) = msg.stopSequence
      obtain ⟨v, hv⟩ := Option.isSome_iff_exists.mp hfaithful.stopSequence
      rcases h.stopSequence v hv with rfl | ⟨s, rfl⟩ <;> rw [hv] <;> rfl
    · intro key hkey
      show lookupEntry key _ = _
      rw [husage key hkey]
      split
      · rename_i heq
        cases hstated : msg.usage.isSome with
        | false =>
          rw [if_neg Bool.false_ne_true, Option.or_none]
        | true =>
          obtain ⟨v, hv⟩ := Option.isSome_iff_exists.mp (hfaithful.outputTokens hstated)
          rw [heq, hv]
          rfl
      · rfl

/-- A message without blocks that states some of its usage. -/
def usageMessage (counts : List (Text × Json)) : AssistantMessage where
  id := some (text "msg_1")
  model := some (text "m")
  content := []
  stopReason := .str (text "end_turn")
  stopSequence := some .null
  usage := some (.obj counts)

theorem usageMessage_wellFormed (hkey : key ∈ usageKeys) {n : Nat}
    (hn : n ≤ maxSafeInteger) : WellFormedMessage (usageMessage [(key, natJson n)]) where
  blocks _ hmem := absurd hmem List.not_mem_nil
  length := Nat.two_pow_pos 32
  stopReason := .inr ⟨_, rfl⟩
  stopSequence v hv := .inl (Option.some.inj hv).symm
  usage u hu := by
    cases hu
    refine ⟨normal_of_keys usageKeys (by decide) (List.singleton_sublist.mpr hkey) fun p hp => ?_, rfl⟩
    rw [List.mem_singleton.mp hp]
    exact normal_natJson hn
  counts key' _ v hv := by
    rw [show usageField (usageMessage [(key, natJson n)]) key'
      = if key = key' then some (natJson n) else none from rfl] at hv
    split at hv
    · cases hv
      exact ⟨_, rfl⟩
    · cases hv

/-- The output tokens that are stated are read back. -/
theorem output_tokens_round_trip :
    ∃ out, reconstructFromSse (encodeAll (emitSse [] (usageMessage
        [(text "output_tokens", natJson 17)]))) = some out ∧
      RoundTrips (usageMessage [(text "output_tokens", natJson 17)]) out := by
  obtain ⟨out, hout, hsame, -⟩ := (sse_round_trip_iff []
    (usageMessage [(text "output_tokens", natJson 17)])
    (usageMessage_wellFormed (by decide) (by decide))).mpr ⟨nofun, rfl, fun _ => rfl⟩
  exact ⟨out, hout, hsame⟩

/-- Output tokens that are not stated are read back as zero. -/
theorem output_tokens_made_up :
    WellFormedMessage (usageMessage [(text "input_tokens", natJson 41)]) ∧
      usageField (usageMessage [(text "input_tokens", natJson 41)]) (text "output_tokens") = none ∧
      (reconstructFromSse (encodeAll (emitSse [] (usageMessage
          [(text "input_tokens", natJson 41)])))).bind
        (fun out => usageField out (text "output_tokens")) = some (.num 0) :=
  ⟨usageMessage_wellFormed (by decide) (by decide), by decide, by decide +kernel⟩

end LlmRelay
