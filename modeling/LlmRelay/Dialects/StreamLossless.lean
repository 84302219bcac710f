import LlmRelay.Dialects.StreamAgreement

/-!
# The text of a stream without a marker

The wrapper of a stream (`dialect-stream.ts`) holds back the end of a block while it could still
grow into a marker. The events release it: `content_block_stop` always, and the first
`message_stop`. The end of the stream does not, and neither does a new block.

## Main definitions

* `BlockTexts`, `blockTexts`: the text of each block, as a client reads it; a block is what
  stands between two `content_block_start` events;
* `HeldBlock`, `UpstreamBlocks`, `upstreamBlocks`: the blocks of the upstream, each with the
  length of its text when it was last released;
* `HeldBlock.Released`: nothing of the block is held back at its end.

## Main results

* `Forwarded.read`: what one event keeps;
* `blockTexts_recoverDialectInStream`: what the wrapper forwards of each block;
* `stream_text_lossless_iff`: it forwards the text of every block exactly when every block is
  released.
-/

namespace LlmRelay

open Ecma

/-! ## The text of the blocks -/

/-- The events of a push, as a client reads them. -/
def StreamPush.read : StreamPush → List SseEvent
  | raw frame => (parseSseEvent frame.frame).toList
  | events es => es.map fun e => ⟨e.type, some (.obj e.data)⟩

/-- The texts of the blocks before the open one, and of the open one. -/
structure BlockTexts where
  closed : List Text
  current : Text
  deriving DecidableEq

namespace BlockTexts

def new : BlockTexts :=
  ⟨[], []⟩

/-- One event. -/
def read (b : BlockTexts) (ev : SseEvent) : BlockTexts :=
  if ev.type = text "content_block_start" then ⟨b.closed ++ [b.current], []⟩
  else ⟨b.closed, b.current ++ ev.prose⟩

/-- Every text, from what stands before the first block on. -/
def texts (b : BlockTexts) : List Text :=
  b.closed ++ [b.current]

end BlockTexts

/-- The text of each block of a stream of events. -/
def blockTexts (evs : List SseEvent) : List Text :=
  (evs.foldl BlockTexts.read .new).texts

/-! ## The blocks of the upstream -/

/-- A block: its text, and how long the text was when it was last released. -/
structure HeldBlock where
  text : Text
  released : Nat
  deriving DecidableEq

namespace HeldBlock

/-- What is forwarded of a block without a marker. -/
def forwarded (b : HeldBlock) : Text :=
  b.text.take (max b.released (scanForMarker b.text).safeLen)

/-- Nothing is held back at the end of the block: no text came after the last release, or the
text does not end in what could become a marker. -/
def Released (b : HeldBlock) : Prop :=
  b.text.length ≤ b.released ∨ (scanForMarker b.text).safeLen = b.text.length

instance (b : HeldBlock) : Decidable b.Released :=
  inferInstanceAs (Decidable (_ ∨ _))

theorem forwarded_eq_iff (b : HeldBlock) : b.forwarded = b.text ↔ b.Released := by
  have hle := safeLen_le_length b.text
  rw [forwarded, List.take_eq_self_iff, Released]
  omega

end HeldBlock

/-- The blocks so far, and whether a `message_stop` came. -/
structure UpstreamBlocks where
  closed : List HeldBlock
  current : HeldBlock
  stopped : Bool
  deriving DecidableEq

namespace UpstreamBlocks

def new : UpstreamBlocks :=
  ⟨[], ⟨[], 0⟩, false⟩

/-- One event. The second `message_stop` releases nothing. -/
def read (u : UpstreamBlocks) (ev : SseEvent) : UpstreamBlocks :=
  if ev.type = text "content_block_start" then ⟨u.closed ++ [u.current], ⟨[], 0⟩, u.stopped⟩
  else if ev.type = text "content_block_stop" then
    ⟨u.closed, ⟨u.current.text, u.current.text.length⟩, u.stopped⟩
  else if ev.type = text "message_stop" then
    if u.stopped then u else ⟨u.closed, ⟨u.current.text, u.current.text.length⟩, true⟩
  else ⟨u.closed, ⟨u.current.text ++ ev.prose, u.current.released⟩, u.stopped⟩

/-- Every block, from what stands before the first one on. -/
def blocks (u : UpstreamBlocks) : List HeldBlock :=
  u.closed ++ [u.current]

/-- No block has a marker. -/
def MarkerFree (u : UpstreamBlocks) : Prop :=
  ∀ b ∈ u.blocks, (scanForMarker b.text).hit = false

end UpstreamBlocks

/-- The events of frames; a blank block is none. -/
def frameEvents (frames : List SseFrame) : List SseEvent :=
  frames.flatMap fun f => (parseSseEvent f.frame).toList

theorem frameEvents_snoc (frames : List SseFrame) (f : SseFrame) :
    frameEvents (frames ++ [f]) = frameEvents frames ++ (parseSseEvent f.frame).toList := by
  rw [frameEvents, List.flatMap_append, List.flatMap_singleton]
  rfl

/-- The events of a byte stream. -/
def ByteStream.events (upstream : ByteStream) : List SseEvent :=
  frameEvents (decodedFrames upstream.bytes).drain.1

/-- The blocks of a byte stream. -/
def upstreamBlocks (upstream : ByteStream) : List HeldBlock :=
  (upstream.events.foldl UpstreamBlocks.read .new).blocks

theorem SseEvent.prose_eq_nil {ev : SseEvent} (h : ev.type ≠ text "content_block_delta") :
    ev.prose = [] :=
  if_neg h

namespace UpstreamBlocks

theorem texts_read (u : UpstreamBlocks) (b : BlockTexts) (ev : SseEvent)
    (h : b.texts = u.blocks.map HeldBlock.text) :
    (b.read ev).texts = (u.read ev).blocks.map HeldBlock.text := by
  obtain ⟨hclosed, hcurrent⟩ : b.closed = u.closed.map HeldBlock.text ∧
      b.current = u.current.text := by
    rw [blocks, List.map_append] at h
    obtain ⟨hclosed, hlast⟩ := List.append_inj' h rfl
    exact ⟨hclosed, (List.cons.inj hlast).1⟩
  have hstop : text "content_block_stop" ≠ text "content_block_delta" := by decide
  have hmessage : text "message_stop" ≠ text "content_block_delta" := by decide
  rw [BlockTexts.read, read]
  split
  · simp [BlockTexts.texts, blocks, hclosed, hcurrent]
  split
  · rename_i htype
    rw [SseEvent.prose_eq_nil (htype ▸ hstop)]
    simp [BlockTexts.texts, blocks, hclosed, hcurrent]
  split
  · rename_i htype
    rw [SseEvent.prose_eq_nil (htype ▸ hmessage)]
    split <;> simp [BlockTexts.texts, blocks, hclosed, hcurrent]
  · simp [BlockTexts.texts, blocks, hclosed, hcurrent]

theorem texts_foldl (evs : List SseEvent) :
    blockTexts evs = (evs.foldl read new).blocks.map HeldBlock.text := by
  induction evs using List.reverseRecOn with
  | nil => rfl
  | append_singleton evs ev ih =>
    rw [blockTexts, List.foldl_append, List.foldl_append]
    exact texts_read _ _ ev ih

theorem MarkerFree.of_read {u : UpstreamBlocks} {ev : SseEvent} (h : (u.read ev).MarkerFree) :
    u.MarkerFree := by
  intro b hb
  rw [read] at h
  split at h
  · exact h b (List.mem_append_left _ hb)
  -- the other events only add text to the open block
  rcases List.mem_append.mp hb with hclosed | hcurrent
  · refine h b (List.mem_append_left _ ?_)
    split
    · exact hclosed
    split
    · split
      · exact hclosed
      · exact hclosed
    · exact hclosed
  · rw [List.mem_singleton.mp hcurrent]
    split at h
    · have hcur := h _ (List.mem_append_right _ (List.mem_singleton_self _))
      exact hcur
    split at h
    · split at h
      · have hcur := h _ (List.mem_append_right _ (List.mem_singleton_self _))
        exact hcur
      · have hcur := h _ (List.mem_append_right _ (List.mem_singleton_self _))
        exact hcur
    · exact miss_of_append (h _ (List.mem_append_right _ (List.mem_singleton_self _)))

end UpstreamBlocks

/-! ## What is forwarded -/

/-- Pushes that a client reads as more text of the open block. -/
def ReadsAs (ps : List StreamPush) (t : Text) : Prop :=
  ∀ b : BlockTexts, (ps.flatMap StreamPush.read).foldl BlockTexts.read b
    = ⟨b.closed, b.current ++ t⟩

theorem readsAs_sseDelta (index : Number) (t : Text) : ReadsAs [sseDelta index t] t := by
  intro b
  have hstart : text "content_block_delta" ≠ text "content_block_start" := by decide
  have hprose := prose_sseDelta index t
  rw [sseDelta, StreamPush.prose, List.flatMap_singleton] at hprose
  rw [List.flatMap_singleton, sseDelta, StreamPush.read, List.map_singleton, List.foldl_cons,
    List.foldl_nil, BlockTexts.read, if_neg hstart, hprose]

theorem forward_reads (s : RescueState) (stop : Nat) :
    ∃ ps, s.forward stop
        = { s with pushes := s.pushes ++ ps, emittedLen := max s.emittedLen stop }
      ∧ ReadsAs ps ((s.blockText.take stop).drop s.emittedLen) := by
  rw [RescueState.forward]
  split
  · rename_i hlt
    refine ⟨[_], ?_, readsAs_sseDelta s.blockIndex _⟩
    rw [max_eq_right hlt.le]
    rfl
  · rename_i hle
    refine ⟨[], ?_, fun b => ?_⟩
    · rw [max_eq_left (not_lt.mp hle), List.append_nil]
    · rw [List.drop_eq_nil_of_le (by rw [List.length_take]; omega), List.append_nil]
      rfl

theorem take_append_forward {t : Text} {e stop : Nat} :
    t.take e ++ (t.take stop).drop e = t.take (max e stop) := by
  rcases le_total e stop with h | h
  · rw [max_eq_right h]
    have htake : t.take e = (t.take stop).take e := by rw [List.take_take, min_eq_left h]
    rw [htake, List.take_append_drop]
  · rw [max_eq_left h, List.drop_eq_nil_of_le, List.append_nil]
    rw [List.length_take]
    omega

/-- The wrapper without a marker so far, by the blocks of the upstream. -/
structure Forwarded (u : UpstreamBlocks) (s : RescueState) : Prop where
  passing : s.capturing = false
  stopped : s.finished = u.stopped
  blockText : s.blockText = u.current.text
  released : u.current.released ≤ u.current.text.length
  emitted : s.emittedLen = max u.current.released (scanForMarker u.current.text).safeLen
  read : (s.pushes.flatMap StreamPush.read).foldl BlockTexts.read .new
    = ⟨u.closed.map HeldBlock.forwarded, u.current.forwarded⟩

namespace Forwarded

theorem new : Forwarded .new .new where
  passing := rfl
  stopped := rfl
  blockText := rfl
  released := le_rfl
  emitted := by decide +kernel
  read := by decide +kernel

variable {u : UpstreamBlocks} {s : RescueState} {f : SseFrame} {ev : SseEvent}

variable (h : Forwarded u s)

include h

theorem push_raw (hev : parseSseEvent f.frame = some ev)
    (hstart : ev.type ≠ text "content_block_start") (hprose : ev.prose = []) :
    Forwarded u (s.push (.raw f)) where
  passing := h.passing
  stopped := h.stopped
  blockText := h.blockText
  released := h.released
  emitted := h.emitted
  read := by
    show ((s.pushes ++ [StreamPush.raw f]).flatMap StreamPush.read).foldl BlockTexts.read .new = _
    rw [List.flatMap_append, List.foldl_append, h.read, List.flatMap_singleton, StreamPush.read,
      hev]
    show BlockTexts.read _ ev = _
    rw [BlockTexts.read, if_neg hstart, hprose, List.append_nil]

/-- Text is released. -/
theorem release :
    Forwarded ⟨u.closed, ⟨u.current.text, u.current.text.length⟩, u.stopped⟩
      (s.forward s.blockText.length) := by
  obtain ⟨ps, heq, hps⟩ := forward_reads s s.blockText.length
  rw [heq]
  refine ⟨h.passing, h.stopped, h.blockText, le_rfl, ?_, ?_⟩
  · show max s.emittedLen s.blockText.length
      = max u.current.text.length (scanForMarker u.current.text).safeLen
    have hreleased := h.released
    rw [h.emitted, h.blockText]
    omega
  · show ((s.pushes ++ ps).flatMap StreamPush.read).foldl BlockTexts.read .new = _
    rw [List.flatMap_append, List.foldl_append, h.read, hps, h.blockText]
    show BlockTexts.mk _ (u.current.forwarded ++ _) = BlockTexts.mk _ (HeldBlock.forwarded _)
    rw [HeldBlock.forwarded, HeldBlock.forwarded, ← h.emitted, take_append_forward]
    have hmax : max s.emittedLen u.current.text.length
        = max u.current.text.length (scanForMarker u.current.text).safeLen := by
      have hreleased := h.released
      rw [h.emitted]
      omega
    rw [hmax]

theorem textDelta {delta : Text} (hmiss : (scanForMarker (u.current.text ++ delta)).hit = false) :
    Forwarded ⟨u.closed, ⟨u.current.text ++ delta, u.current.released⟩, u.stopped⟩
      (rescueTextDelta s delta) := by
  have htext : (s.receive delta).blockText = u.current.text ++ delta := by
    rw [← h.blockText]
    rfl
  have hcapturing : ¬ (s.receive delta).capturing = true := by
    rw [show (s.receive delta).capturing = s.capturing from rfl, h.passing]
    exact Bool.false_ne_true
  have hhit : ¬ (scanForMarker (u.current.text ++ delta)).hit = true := by
    rw [hmiss]
    exact Bool.false_ne_true
  have hmono := safeLen_mono (miss_of_append hmiss) hmiss
  have hsafe := safeLen_le_length u.current.text
  have hreleased := h.released
  rw [rescueTextDelta]
  rw [if_neg hcapturing, htext, if_neg hhit]
  obtain ⟨ps, heq, hps⟩ :=
    forward_reads (s.receive delta) (scanForMarker (u.current.text ++ delta)).safeLen
  rw [heq]
  have hemitted : max s.emittedLen (scanForMarker (u.current.text ++ delta)).safeLen
      = max u.current.released (scanForMarker (u.current.text ++ delta)).safeLen := by
    rw [h.emitted]
    omega
  refine ⟨h.passing, h.stopped, htext, ?_, hemitted, ?_⟩
  · show u.current.released ≤ (u.current.text ++ delta).length
    rw [List.length_append]
    omega
  · show ((s.pushes ++ ps).flatMap StreamPush.read).foldl BlockTexts.read .new = _
    rw [List.flatMap_append, List.foldl_append, h.read, hps, htext]
    show BlockTexts.mk _ (u.current.forwarded ++ _) = BlockTexts.mk _ (HeldBlock.forwarded _)
    have hbefore : u.current.forwarded = (u.current.text ++ delta).take s.emittedLen := by
      rw [HeldBlock.forwarded, ← h.emitted, List.take_append_of_le_length]
      rw [h.emitted]
      omega
    rw [hbefore, show (s.receive delta).emittedLen = s.emittedLen from rfl, take_append_forward,
      hemitted]
    rfl

/-- A new block. The open one keeps what it held back. -/
theorem start (hev : parseSseEvent f.frame = some ev)
    (htype : ev.type = text "content_block_start") (index : Number) :
    Forwarded ⟨u.closed ++ [u.current], ⟨[], 0⟩, u.stopped⟩
      (({ s with blockIndex := index, blockText := [], emittedLen := 0 } : RescueState).push
        (.raw f)) where
  passing := h.passing
  stopped := h.stopped
  blockText := rfl
  released := le_rfl
  emitted := Forwarded.new.emitted
  read := by
    show ((s.pushes ++ [StreamPush.raw f]).flatMap StreamPush.read).foldl BlockTexts.read .new = _
    rw [List.flatMap_append, List.foldl_append, h.read, List.flatMap_singleton, StreamPush.read,
      hev]
    show BlockTexts.read _ ev = _
    rw [BlockTexts.read, if_pos htype, List.map_append]
    rfl

omit h

variable (schemas : ToolSchemas) (isDestructive : Text → Bool)

/-- **One event** of a stream without a marker. -/
theorem rescueFrame (h : Forwarded u s) (hev : parseSseEvent f.frame = some ev)
    (hfree : (u.read ev).MarkerFree) :
    Forwarded (u.read ev) (LlmRelay.rescueFrame schemas isDestructive s f) := by
  have hcapturing : ¬ s.capturing = true := by
    rw [h.passing]
    exact Bool.false_ne_true
  rw [LlmRelay.rescueFrame, hev]
  dsimp only
  by_cases hstart : ev.type = text "content_block_start"
  · rw [if_pos hstart, UpstreamBlocks.read, if_pos hstart]
    exact h.start hev hstart _
  rw [if_neg hstart]
  by_cases hdelta : ev.type = text "content_block_delta"
  · have hstop : ev.type ≠ text "content_block_stop" := by
      rw [hdelta]
      decide
    have hmessage : ev.type ≠ text "message_stop" := by
      rw [hdelta]
      decide
    rw [UpstreamBlocks.read, if_neg hstart, if_neg hstop, if_neg hmessage] at hfree ⊢
    rw [if_pos hdelta]
    cases htext : ev.textDelta? with
    | none =>
      have hprose : ev.prose = [] := by
        rw [SseEvent.prose, if_pos hdelta, htext]
        rfl
      rw [hprose, List.append_nil]
      exact h.push_raw hev hstart hprose
    | some delta =>
      have hprose : ev.prose = delta := by
        rw [SseEvent.prose, if_pos hdelta, htext]
        rfl
      rw [hprose] at hfree ⊢
      exact h.textDelta (hfree _ (List.mem_append_right _ (List.mem_singleton_self _)))
  have hprose : ev.prose = [] := SseEvent.prose_eq_nil hdelta
  rw [if_neg hdelta, UpstreamBlocks.read, if_neg hstart]
  by_cases hstop : ev.type = text "content_block_stop"
  · rw [if_pos hstop, if_pos hstop, if_neg hcapturing]
    exact h.release.push_raw hev hstart hprose
  rw [if_neg hstop, if_neg hstop]
  by_cases hmessageDelta : ev.type = text "message_delta"
  · have hmessage : ev.type ≠ text "message_stop" := by
      rw [hmessageDelta]
      decide
    have hseen : Forwarded u { s with messageDeltaSeen := ev.data } :=
      ⟨h.passing, h.stopped, h.blockText, h.released, h.emitted, h.read⟩
    rw [if_pos hmessageDelta, if_neg hmessage, if_neg hcapturing, hprose, List.append_nil]
    exact hseen.push_raw hev hstart hprose
  rw [if_neg hmessageDelta]
  by_cases hmessage : ev.type = text "message_stop"
  · rw [if_pos hmessage, if_pos hmessage]
    have hfinish : Forwarded (if u.stopped then u
        else ⟨u.closed, ⟨u.current.text, u.current.text.length⟩, true⟩)
        (finish schemas isDestructive s) := by
      rw [finish, h.stopped]
      split
      · exact h
      · -- the guard is set, and what is held back is released
        have hset : Forwarded ⟨u.closed, u.current, true⟩ { s with finished := true } :=
          ⟨h.passing, rfl, h.blockText, h.released, h.emitted, h.read⟩
        have hnot : (!s.capturing) = true := by
          rw [h.passing]
          rfl
        rw [if_pos hnot]
        exact hset.release
    have hpassing : ¬ (finish schemas isDestructive s).capturing = true := by
      rw [hfinish.passing]
      exact Bool.false_ne_true
    rw [if_neg hpassing]
    exact hfinish.push_raw hev hstart hprose
  · rw [if_neg hmessage, if_neg hmessage, hprose, List.append_nil]
    exact h.push_raw hev hstart hprose

/-- **A run** over the frames of a stream without a marker. -/
theorem foldl_rescueFrame {frames : List SseFrame}
    (hfree : ((frameEvents frames).foldl UpstreamBlocks.read .new).MarkerFree) :
    Forwarded ((frameEvents frames).foldl UpstreamBlocks.read .new)
      (frames.foldl (LlmRelay.rescueFrame schemas isDestructive) .new) := by
  induction frames using List.reverseRecOn with
  | nil => exact Forwarded.new
  | append_singleton frames f ih =>
    rw [frameEvents_snoc, List.foldl_append] at hfree ⊢
    rw [List.foldl_append, List.foldl_cons]
    cases hev : parseSseEvent f.frame with
    | none =>
      -- a blank block is declined
      have hskip : LlmRelay.rescueFrame schemas isDestructive
          (frames.foldl (LlmRelay.rescueFrame schemas isDestructive) .new) f
            = frames.foldl (LlmRelay.rescueFrame schemas isDestructive) .new := by
        rw [LlmRelay.rescueFrame, hev]
      rw [hev] at hfree
      rw [hskip]
      exact ih hfree
    | some ev =>
      rw [hev] at hfree
      exact (ih (UpstreamBlocks.MarkerFree.of_read hfree)).rescueFrame schemas isDestructive
        hev hfree

end Forwarded

/-! ## The stream -/

/-- What a client reads of the text that the wrapper writes. -/
def recoveredTexts (schemas : ToolSchemas) (isDestructive : Text → Bool) (upstream : ByteStream)
    (failure : Text) : List Text :=
  blockTexts ((recoverDialectInStream schemas isDestructive upstream failure).pushes.flatMap
    StreamPush.read)

theorem blockTexts_events (upstream : ByteStream) :
    blockTexts upstream.events = (upstreamBlocks upstream).map HeldBlock.text :=
  UpstreamBlocks.texts_foldl upstream.events

/-- **What is forwarded** of each block of a stream without a marker, whether it ends or fails. -/
theorem blockTexts_recoverDialectInStream (schemas : ToolSchemas) (isDestructive : Text → Bool)
    {upstream : ByteStream} (failure : Text)
    (hfree : ∀ t ∈ blockTexts upstream.events, (scanForMarker t).hit = false) :
    recoveredTexts schemas isDestructive upstream failure
      = (upstreamBlocks upstream).map HeldBlock.forwarded := by
  have hblocks : (upstream.events.foldl UpstreamBlocks.read .new).MarkerFree := by
    intro b hb
    refine hfree b.text ?_
    rw [blockTexts_events]
    exact List.mem_map_of_mem hb
  have hrun := Forwarded.foldl_rescueFrame schemas isDestructive hblocks
  have hstate : (feedChunks (rescueFrame schemas isDestructive) .new upstream.chunks).state
      = (decodedFrames upstream.bytes).drain.1.foldl (rescueFrame schemas isDestructive) .new := by
    rw [feedChunks_eq]
    rfl
  rw [← hstate] at hrun
  have hread : recoveredTexts schemas isDestructive upstream failure
      = (((feedChunks (rescueFrame schemas isDestructive) .new upstream.chunks).state.pushes.flatMap
          StreamPush.read).foldl BlockTexts.read .new).texts := by
    rw [recoveredTexts, recoverDialectInStream]
    cases upstream.ending with
    | done =>
      rw [if_neg]
      · rfl
      · rw [hrun.passing]
        exact Bool.false_ne_true
    | failed =>
      -- the error event is no text
      have herror : ∀ (message : Text) (b : BlockTexts),
          ([sseError (text "api_error") message].flatMap StreamPush.read).foldl
            BlockTexts.read b = b := by
        intro message b
        have hstart : text "error" ≠ text "content_block_start" := by decide
        have hdelta : text "error" ≠ text "content_block_delta" := by decide
        rw [List.flatMap_singleton, sseError, StreamPush.read, List.map_singleton,
          List.foldl_cons, List.foldl_nil, BlockTexts.read, if_neg hstart,
          SseEvent.prose_eq_nil hdelta, List.append_nil]
      dsimp only [RescueState.push]
      rw [blockTexts, List.flatMap_append, List.foldl_append, herror]
  rw [hread, hrun.read, upstreamBlocks, UpstreamBlocks.blocks, List.map_append]
  rfl

/-- **Losslessness.** Of a stream without a marker, complete or cut off, the text of every block
is forwarded whole exactly when every block is released before the next one and the end. -/
theorem stream_text_lossless_iff (schemas : ToolSchemas) (isDestructive : Text → Bool)
    (upstream : ByteStream) (failure : Text)
    (hfree : ∀ t ∈ blockTexts upstream.events, (scanForMarker t).hit = false) :
    recoveredTexts schemas isDestructive upstream failure = blockTexts upstream.events
      ↔ ∀ b ∈ upstreamBlocks upstream, b.Released := by
  rw [blockTexts_recoverDialectInStream schemas isDestructive failure hfree, blockTexts_events,
    List.map_inj_left]
  exact forall₂_congr fun b _ => b.forwarded_eq_iff

/-- The events of a block with one text, up to its end or not. -/
def heldStream (closed : Bool) : ByteStream :=
  let index : Text × Json := (text "index", .num 0)
  let events : List Emission :=
    [ ⟨text "content_block_start", [index, (text "content_block",
        .obj [(text "type", .str (text "text")), (text "text", .str [])])]⟩,
      ⟨text "content_block_delta", [index, (text "delta",
        .obj [(text "type", .str (text "text_delta")), (text "text", .str (text "a <"))])]⟩ ]
  let stop : List Emission := if closed then [⟨text "content_block_stop", [index]⟩] else []
  ⟨[encodeUtf8 (encodeAll (events ++ stop))], .done⟩

/-- A block that is closed is forwarded whole, though its text ends like a marker. -/
theorem held_stream_closed :
    recoveredTexts (fun _ => none) (fun _ => false) (heldStream true) []
      = blockTexts (heldStream true).events :=
  (stream_text_lossless_iff (fun _ => none) (fun _ => false) (heldStream true) []
    (by decide +kernel)).mpr (by decide +kernel)

/-- A block that is cut off is not: what was held back is lost. -/
theorem held_stream_cut :
    (∀ t ∈ blockTexts (heldStream false).events, (scanForMarker t).hit = false) ∧
      recoveredTexts (fun _ => none) (fun _ => false) (heldStream false) []
        = [[], text "a "] ∧
      blockTexts (heldStream false).events = [[], text "a <"] := by
  decide +kernel

end LlmRelay
