import LlmRelay.Ecma.JsonAssignment
import LlmRelay.Messages.ToolUseIds
import LlmRelay.Streams.WrittenEvents

/-!
# Unique ids of tool calls in a stream

`rewriteToolUseIdsInStream` (`tool-use-ids.ts`) rewrites the events of a translated stream that
start a `tool_use` block, and forwards every other event as it came. It is one of the transforms
over the read loop of `createSseTransformStream` (`sse-frames.ts`).

## Main definitions

* `ByteStream.sseFrames`, `transformStream`: the frames of a stream, and the read loop;
* `replaceEventData`, `rewriteOne`: an event with other data, and what one event becomes;
* `rewriteToolUseIdsInStream`: the transform;
* `startedIn`: the id of the `tool_use` block that an event starts;
* `WrittenEvent`: the events the translators write.

## Main results

* `rewriteOne_spec`: one event takes the id that the minter gives;
* `startedIn_rewriteToolUseIdsInStream`: so do the events of a stream;
* `tool_use_ids_unique`: the ids of a response are unique, and a stream gets the ids that the
  buffered message gets.
-/

namespace LlmRelay

open Ecma

/-! ## The read loop -/

/-- The complete frames of a stream, and the text after them. -/
def ByteStream.sseFrames (upstream : ByteStream) : List SseFrame × Text :=
  let decoded := Utf8Decoder.new.decode upstream.bytes
  let drained := ((decodedFrames upstream.bytes).append decoded.1.flush).drain
  (drained.1, drained.2.buffered)

/-- `createSseTransformStream` for a visitor that holds nothing back: the state after the frames,
and the text that is forwarded after them. On either ending the decoder is flushed and the frames
it completes are handled. -/
def transformStream {σ : Type} (step : σ → SseFrame → σ) (init : σ) (upstream : ByteStream) :
    σ × Text :=
  let fed := feedChunks step init upstream.chunks
  let drained := (fed.frames.append fed.decoder.flush).drain
  (drained.1.foldl step fed.state, (drained.2.takeRemainder []).1)

/-- **The loop** handles the frames of the stream, however its bytes are cut. -/
theorem transformStream_eq {σ : Type} (step : σ → SseFrame → σ) (init : σ) (upstream : ByteStream) :
    transformStream step init upstream
      = (upstream.sseFrames.1.foldl step init, upstream.sseFrames.2) := by
  have hdrained := BufferedSseFrames.drain_append (decodedFrames upstream.bytes)
    (Utf8Decoder.new.decode upstream.bytes).1.flush
  rw [transformStream, feedChunks_eq, ByteStream.sseFrames]
  show (_, _ ++ []) = _
  rw [hdrained, List.foldl_append, List.append_nil]
  rfl

/-! ## One event -/

/-- The data of a frame as JSON. -/
def frameData? (block : Text) : Option Json :=
  let dataLines := (sseEventFields block).dataLines.map Text.trim
  if dataLines = [] then none else Json.parse (Text.join [lf] dataLines)

/-- The id of the `tool_use` block that the data start. -/
def startedToolUseId? (data : Json) : Option Text :=
  if Json.string? (data.get? (text "type")) = some (text "content_block_start") then
    (data.get? (text "content_block")).bind toolUseId?
  else none

/-- The lines with one `data:` line, which stands at the place of the first one. -/
def replaceDataLines (data : Text) : Bool → List Text → List Text
  | _, [] => []
  | emitted, line :: rest =>
    if !Text.startsWith line (text "data:") then line :: replaceDataLines data emitted rest
    else if emitted then replaceDataLines data emitted rest
    else (text "data: " ++ data) :: replaceDataLines data true rest

/-- `replaceEventData`: every other line keeps its place. -/
def replaceEventData (block data : Text) : Text :=
  let eol := if block.includes (text "\r\n") then text "\r\n" else text "\n"
  Text.join eol (replaceDataLines data false block.splitLines)

/-- The data with another id of the block that they start. -/
def withStartedId (parsed : Json) (id : Text) : Json :=
  withField parsed (text "content_block")
    (withField ((parsed.get? (text "content_block")).getD .null) (text "id") (.str id))

/-- `rewriteOne`: the rewritten event, absent where the event stays, and the minter, which is
made for the first `tool_use` block. -/
def rewriteOne (taken : Finset Text) (minter : Option ToolUseIdMinter) (block : Text) :
    Option Text × Option ToolUseIdMinter :=
  -- a cheap gate: the translators spell the type literally
  if !block.includes (text "tool_use") then (none, minter)
  else
    match frameData? block with
    | none => (none, minter)
    | some parsed =>
      match startedToolUseId? parsed with
      | none => (none, minter)
      | some id =>
        let minted := (minter.getD (.new taken)).mint id
        if minted.1 = id then (none, some minted.2)
        else (some (replaceEventData block (withStartedId parsed minted.1).stringify),
          some minted.2)

/-! ## The transform -/

/-- The transform between two frames: its minter, the frames it wrote, and the counts it
reported. -/
structure ToolUseIdStream where
  minter : Option ToolUseIdMinter
  pushes : List SseFrame
  reported : List Nat

namespace ToolUseIdStream

def new : ToolUseIdStream :=
  ⟨none, [], []⟩

/-- One frame. -/
def step (taken : Finset Text) (s : ToolUseIdStream) (f : SseFrame) : ToolUseIdStream :=
  let out := rewriteOne taken s.minter f.frame
  let block := out.1.getD f.frame
  ⟨out.2, s.pushes ++ [⟨block, f.separator, block ++ f.separator⟩],
    s.reported ++ if out.1.isSome then (out.2.map ToolUseIdMinter.count).toList else []⟩

end ToolUseIdStream

/-- `rewriteToolUseIdsInStream`: the state after the frames, and the text after the frames it
wrote: the remainder of the stream, and an error event when the stream failed. -/
def rewriteToolUseIdsInStream (upstream : ByteStream) (taken : Finset Text) (failure : Text) :
    ToolUseIdStream × Text :=
  let out := transformStream (ToolUseIdStream.step taken) .new upstream
  (out.1, out.2 ++ match upstream.ending with
    | .done => []
    | .failed => sseEvent (text "error") [(text "error", .obj
        [(text "type", .str (text "api_error")),
          (text "message", .str (text "llm-relay: stream failed: " ++ failure))])])

/-- The id of the `tool_use` block that an event starts. -/
def startedIn (block : Text) : Option Text :=
  (frameData? block).bind startedToolUseId?

/-! ## Written events -/

/-- The event is as the translators write it: its name, and the text of a record. -/
def WrittenEvent (block : Text) : Prop :=
  ∃ name fields, Printable name ∧ (Json.obj fields).Normal ∧
    block = text "event: " ++ name ++ text "\ndata: " ++ (Json.obj fields).stringify

theorem frameData?_written {name : Text} {fields : List (Text × Json)} (hname : Printable name)
    (hfields : (Json.obj fields).Normal) :
    frameData? (text "event: " ++ name ++ text "\ndata: " ++ (Json.obj fields).stringify)
      = some (.obj fields) := by
  have hlines := splitLines_written hname (Json.printable_stringify (.obj fields))
  have hdata : (sseEventFields (text "event: " ++ name ++ text "\ndata: "
      ++ (Json.obj fields).stringify)).dataLines = [space :: (Json.obj fields).stringify] := by
    rw [sseEventFields, hlines]
    rfl
  have htrim : Text.trim (space :: (Json.obj fields).stringify) = (Json.obj fields).stringify :=
    -- the space goes first, and nothing else is white space
    Json.trim_stringify_obj fields
  rw [frameData?, hdata]
  simp only [List.map_cons, List.map_nil, htrim]
  rw [Text.join, List.intercalate_singleton]
  exact Json.parse_stringify hfields

theorem replaceEventData_written {name data : Text} (hname : Printable name)
    (hdata : Printable data) (data' : Text) :
    replaceEventData (text "event: " ++ name ++ text "\ndata: " ++ data) data'
      = text "event: " ++ name ++ text "\ndata: " ++ data' := by
  have hnocr : (text "event: " ++ name ++ text "\ndata: " ++ data).includes (text "\r\n")
      = false := by
    rw [← Bool.not_eq_true, Text.includes_iff]
    intro hwithin
    have hcr : cr ∈ text "event: " ++ name ++ text "\ndata: " ++ data :=
      hwithin.subset (List.mem_cons_self : cr ∈ text "\r\n")
    simp only [List.mem_append] at hcr
    rcases hcr with ((hcr | hcr) | hcr) | hcr
    · revert hcr
      decide
    · exact hname.not_mem (by decide) hcr
    · revert hcr
      decide
    · exact hdata.not_mem (by decide) hcr
  have hline : Text.startsWith (text "data: " ++ data) (text "data:") = true := rfl
  rw [replaceEventData, hnocr, splitLines_written hname hdata]
  simp only [replaceDataLines, not_startsWith_data, hline, Bool.not_false, Bool.not_true,
    Bool.false_eq_true, if_true, if_false]
  rw [Text.join, List.intercalate_cons_cons, List.intercalate_singleton]
  simp only [List.append_assoc]
  rfl

/-! ## The id of an event -/

variable {data : Json} {id : Text}

theorem startedToolUseId?_eq_some_iff :
    startedToolUseId? data = some id ↔
      data.get? (text "type") = some (.str (text "content_block_start")) ∧
        ∃ block, data.get? (text "content_block") = some block ∧
          block.get? (text "type") = some (.str (text "tool_use")) ∧
          block.get? (text "id") = some (.str id) := by
  rw [startedToolUseId?]
  split
  · rename_i htype
    rw [Json.string?_eq_some_iff] at htype
    rw [Option.bind_eq_some_iff]
    simp only [toolUseId?_eq_some_iff, htype, true_and]
  · rename_i htype
    rw [Json.string?_eq_some_iff] at htype
    simp only [htype, false_and, reduceCtorEq]

theorem tool_use_infix_of_started (h : startedToolUseId? data = some id) :
    text "tool_use" <:+: data.stringify := by
  obtain ⟨-, block, hblock, htype, -⟩ := startedToolUseId?_eq_some_iff.mp h
  have hquoted : Json.quoteBody (text "tool_use") = text "tool_use" := by decide +kernel
  rw [← hquoted]
  exact (Json.quoteBody_infix_stringify htype).trans (Json.infix_stringify hblock)

theorem startedToolUseId?_withStartedId
    (h : startedToolUseId? data = some id) (hnormal : data.Normal) (out : Text) :
    ∃ fields, withStartedId data out = .obj fields ∧ (Json.obj fields).Normal ∧
      startedToolUseId? (.obj fields) = some out := by
  obtain ⟨htype, block, hblock, htool, hid⟩ := startedToolUseId?_eq_some_iff.mp h
  match data, block, hblock, hid with
  | .obj fields, .obj inner, hblock, hid =>
    have hinner : (withField (.obj inner) (text "id") (.str out)).Normal :=
      (hnormal.get? hblock).assign hid trivial
    have hkeys : ¬ text "content_block" = text "type" := by decide
    have hwith : withStartedId (.obj fields) out = withField (.obj fields) (text "content_block")
        (withField (.obj inner) (text "id") (.str out)) := by
      rw [withStartedId, hblock, Option.getD_some]
    refine ⟨_, hwith, hnormal.assign hblock hinner, ?_⟩
    rw [startedToolUseId?_eq_some_iff]
    refine ⟨?_, withField (.obj inner) (text "id") (.str out), ?_, ?_⟩
    · show (withField (.obj fields) (text "content_block") _).get? _ = _
      rw [get?_withField]
      exact htype
    · show (withField (.obj fields) (text "content_block") _).get? _ = _
      rw [get?_withField, if_pos rfl]
    · rw [← toolUseId?_eq_some_iff]
      exact toolUseId?_withField (toolUseId?_eq_some_iff.mpr ⟨htool, hid⟩) out

theorem rewriteOne_of_none {taken : Finset Text} {minter : Option ToolUseIdMinter} {block : Text}
    (h : startedIn block = none) : rewriteOne taken minter block = (none, minter) := by
  rw [rewriteOne]
  split
  · rfl
  cases hdata : frameData? block with
  | none => rfl
  | some data =>
    rw [startedIn, hdata, Option.bind_some] at h
    simp only [h]

/-- **An event** that starts a `tool_use` block takes the id that the minter gives. -/
theorem rewriteOne_spec {taken : Finset Text} {minter : Option ToolUseIdMinter} {block id : Text}
    (hwritten : WrittenEvent block) (h : startedIn block = some id) :
    (rewriteOne taken minter block).2 = some ((minter.getD (.new taken)).mint id).2 ∧
      startedIn ((rewriteOne taken minter block).1.getD block)
        = some ((minter.getD (.new taken)).mint id).1 := by
  obtain ⟨name, fields, hname, hnormal, rfl⟩ := hwritten
  have hdata := frameData?_written hname hnormal
  have hstarted : startedToolUseId? (.obj fields) = some id := by
    rw [startedIn, hdata] at h
    exact h
  have hgate : (text "event: " ++ name ++ text "\ndata: " ++ (Json.obj fields).stringify).includes
      (text "tool_use") = true :=
    Text.includes_iff.mpr
      ((tool_use_infix_of_started hstarted).trans (List.suffix_append _ _).isInfix)
  rw [rewriteOne, hgate, hdata]
  simp only [hstarted, Bool.not_true, Bool.false_eq_true, if_false]
  split
  · rename_i hkept
    refine ⟨rfl, ?_⟩
    rw [Option.getD_none, h, hkept]
  · refine ⟨rfl, ?_⟩
    obtain ⟨fields', hfields', hnormal', hstarted'⟩ := startedToolUseId?_withStartedId hstarted
      hnormal ((minter.getD (.new taken)).mint id).1
    rw [Option.getD_some, hfields', replaceEventData_written hname (Json.printable_stringify _),
      startedIn, frameData?_written hname hnormal']
    exact hstarted'

/-! ## The stream -/

/-- The ids of the `tool_use` blocks that the frames start, in order. -/
def startedIds (frames : List SseFrame) : List Text :=
  frames.filterMap fun f => startedIn f.frame

theorem startedIds_foldl_step (taken : Finset Text) (s : ToolUseIdStream) {frames : List SseFrame}
    (h : ∀ f ∈ frames, startedIn f.frame ≠ none → WrittenEvent f.frame) :
    startedIds (frames.foldl (ToolUseIdStream.step taken) s).pushes
      = startedIds s.pushes ++ (s.minter.getD (.new taken)).mintAll (startedIds frames) := by
  induction frames generalizing s with
  | nil =>
    show startedIds s.pushes = startedIds s.pushes ++ []
    rw [List.append_nil]
  | cons f rest ih =>
    have hrest : ∀ g ∈ rest, startedIn g.frame ≠ none → WrittenEvent g.frame := fun g hg =>
      h g (List.mem_cons_of_mem f hg)
    have hpush : startedIds (ToolUseIdStream.step taken s f).pushes = startedIds s.pushes
        ++ (startedIn ((rewriteOne taken s.minter f.frame).1.getD f.frame)).toList := by
      show startedIds (s.pushes ++ [_]) = _
      rw [startedIds, List.filterMap_append]
      refine congrArg (startedIds s.pushes ++ ·) ?_
      cases hout : startedIn ((rewriteOne taken s.minter f.frame).1.getD f.frame) with
      | none => exact List.filterMap_cons_none hout
      | some out => exact List.filterMap_cons_some hout
    rw [List.foldl_cons, ih _ hrest, hpush]
    show _ ++ _ ++ ((rewriteOne taken s.minter f.frame).2.getD _).mintAll _ = _
    cases hstarted : startedIn f.frame with
    | none =>
      have hids : startedIds (f :: rest) = startedIds rest := List.filterMap_cons_none hstarted
      rw [rewriteOne_of_none hstarted, hids]
      rw [Option.getD_none, hstarted, Option.toList_none, List.append_nil]
    | some id =>
      have hids : startedIds (f :: rest) = id :: startedIds rest :=
        List.filterMap_cons_some hstarted
      have hwritten : WrittenEvent f.frame := by
        refine h f List.mem_cons_self ?_
        rw [hstarted]
        exact Option.some_ne_none id
      obtain ⟨hminter, hout⟩ := @rewriteOne_spec taken s.minter f.frame id hwritten hstarted
      rw [hminter, hout, hids, List.append_assoc]
      rfl

/-- **The events of a stream** take the ids that are minted for theirs. -/
theorem startedIn_rewriteToolUseIdsInStream {upstream : ByteStream} (taken : Finset Text)
    (failure : Text)
    (h : ∀ f ∈ upstream.sseFrames.1, startedIn f.frame ≠ none → WrittenEvent f.frame) :
    startedIds (rewriteToolUseIdsInStream upstream taken failure).1.pushes
      = (ToolUseIdMinter.new taken).mintAll (startedIds upstream.sseFrames.1) := by
  rw [rewriteToolUseIdsInStream, transformStream_eq]
  exact startedIds_foldl_step taken .new h

/-- **The ids of a response are unique.** For every set of taken ids and every sequence of ids,
the minted ids are pairwise distinct and none of them is taken; each is the id itself, when
that is free, or the id with the smallest free number, which is found within as many steps as
ids are taken. A buffered message with these ids gets the minted ones, and so does every stream
whose `tool_use` blocks have them. -/
theorem tool_use_ids_unique (taken : Finset Text) (ids : List Text) :
    let minted := (ToolUseIdMinter.new taken).mintAll ids
    minted.length = ids.length ∧ minted.Nodup ∧ (∀ out ∈ minted, out ∉ taken) ∧
      (∀ i id out, ids[i]? = some id → minted[i]? = some out →
        MintedFrom (taken ∪ (minted.take i).toFinset) id out) ∧
      (∀ blocks, toolUseIds blocks = ids →
        toolUseIds (rewriteToolUseIds (some (.arr blocks)) taken).content = minted) ∧
      ∀ (upstream : ByteStream) (failure : Text),
        (∀ f ∈ upstream.sseFrames.1, startedIn f.frame ≠ none → WrittenEvent f.frame) →
        startedIds upstream.sseFrames.1 = ids →
        startedIds (rewriteToolUseIdsInStream upstream taken failure).1.pushes = minted := by
  intro minted
  refine ⟨ToolUseIdMinter.length_mintAll _ ids, ToolUseIdMinter.nodup_mintAll _ ids,
    fun out hout => ToolUseIdMinter.not_mem_of_mem_mintAll hout,
    fun i id out hid hout => ToolUseIdMinter.mintAll_spec _ ids hid hout, ?_, ?_⟩
  · rintro blocks rfl
    exact toolUseIds_rewriteToolUseIds blocks taken
  · rintro upstream failure hwritten rfl
    exact startedIn_rewriteToolUseIdsInStream taken failure hwritten

end LlmRelay
