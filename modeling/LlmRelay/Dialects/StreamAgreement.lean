import LlmRelay.Dialects.StreamRecovery

/-!
# Streamed recovery agrees with buffered recovery

For a text that arrives in deltas, the wrappers forward the text before the
envelope, and hand the rest to the recovery, as long as no delta ends inside the
first marker right behind a tag opener.

## Main definitions

* `CleanCut`: no delta boundary splits the first marker behind a tag opener;
* `StreamPush.prose`: the text a push forwards;
* `TextStream`: the frames of a stream with one text block that ends normally;
* `Rescued`: the wrapper after some of the deltas.

## Main results

* `rescued_deltas`: the wrapper after all of the deltas;
* `recoverDialectInStream_agrees`: what the Anthropic wrapper writes.
-/

namespace LlmRelay

open Ecma

/-- No boundary between two deltas splits the first marker behind a tag opener. -/
def CleanCut (deltas : List Text) : Prop :=
  ∀ a b, deltas = a ++ b → ¬ SplitsMarker deltas.flatten a.flatten.length

/-! ## Forwarded text -/

/-- The text an event adds to a message. -/
def SseEvent.prose (ev : SseEvent) : Text :=
  if ev.type = text "content_block_delta" then ev.textDelta?.getD [] else []

/-- The text a push forwards. -/
def StreamPush.prose : StreamPush → Text
  | raw frame => ((parseSseEvent frame.frame).map SseEvent.prose).getD []
  | events es => es.flatMap fun e => SseEvent.prose ⟨e.type, some (.obj e.data)⟩

/-- The text several pushes forward. -/
def forwardedProse (ps : List StreamPush) : Text :=
  ps.flatMap StreamPush.prose

@[simp] theorem forwardedProse_append (ps qs : List StreamPush) :
    forwardedProse (ps ++ qs) = forwardedProse ps ++ forwardedProse qs :=
  List.flatMap_append

theorem prose_sseDelta (index : Number) (t : Text) : (sseDelta index t).prose = t := by
  have h1 : text "index" ≠ text "delta" := by decide
  have h2 : text "type" ≠ text "text" := by decide
  simp [sseDelta, StreamPush.prose, SseEvent.prose, SseEvent.textDelta?, SseEvent.get?, Json.get?,
    lookupEntry, h1, h2, Json.string?]

/-! ## One delta -/

theorem forward_spec {s : RescueState} {stop : Nat} (h : s.emittedLen ≤ stop) :
    ∃ ps : List StreamPush, forwardedProse ps = (s.blockText.take stop).drop s.emittedLen
      ∧ s.forward stop = { s with pushes := s.pushes ++ ps, emittedLen := stop } := by
  unfold RescueState.forward
  by_cases hlt : s.emittedLen < stop
  · refine ⟨[sseDelta s.blockIndex ((s.blockText.take stop).drop s.emittedLen)], ?_, ?_⟩
    · simp [forwardedProse, prose_sseDelta]
    · rw [if_pos hlt]
      rfl
  · have heq : stop = s.emittedLen := by omega
    refine ⟨[], ?_, ?_⟩
    · rw [List.drop_eq_nil_of_le (by rw [List.length_take]; omega)]
      rfl
    · rw [heq]
      simp

/-- The wrapper in the middle of a text block: `s₀` is the wrapper at the start of
the block, `whole` the text of the block and `part` what came of it. -/
structure Rescued (whole : Text) (s₀ : RescueState) (part : Text) (s : RescueState) : Prop where
  blockIndex : s.blockIndex = s₀.blockIndex
  messageDeltaSeen : s.messageDeltaSeen = s₀.messageDeltaSeen
  finished : s.finished = s₀.finished
  blockText : s.blockText = part
  forwarded : ∃ ps, s.pushes = s₀.pushes ++ ps ∧ forwardedProse ps = part.take s.emittedLen
  phase :
    (s.capturing = false ∧ (scanForMarker part).hit = false
        ∧ s.emittedLen = (scanForMarker part).safeLen)
      ∨ (s.capturing = true ∧ ∃ k, markerStart whole = some k ∧ s.emittedLen = k
        ∧ k ≤ part.length ∧ s.envelope = part.drop k)

theorem take_forward {part delta : Text} {e stop : Nat} (he : e ≤ part.length) (hstop : e ≤ stop) :
    part.take e ++ ((part ++ delta).take stop).drop e = (part ++ delta).take stop := by
  have htake : part.take e = ((part ++ delta).take stop).take e := by
    rw [List.take_take, Nat.min_eq_left hstop, List.take_append_of_le_length he]
  rw [htake, List.take_append_drop]

/-- **One text delta.** -/
theorem rescued_textDelta {whole part delta : Text} {s₀ s : RescueState}
    (h : Rescued whole s₀ part s) (hwhole : part ++ delta <+: whole)
    (hsplit : ¬ SplitsMarker whole part.length) :
    Rescued whole s₀ (part ++ delta) (rescueTextDelta s delta) := by
  obtain ⟨ps, hpushes, hps⟩ := h.forwarded
  have htext : (s.receive delta).blockText = part ++ delta := by
    rw [← h.blockText]
    rfl
  unfold rescueTextDelta
  rcases h.phase with ⟨hcap, hmiss, hlen⟩ | ⟨hcap, k, hk, hlen, hle, henv⟩
  · have hscan : ¬ (s.receive delta).capturing = true := by
      rw [show (s.receive delta).capturing = s.capturing from rfl, hcap]
      decide
    have hle : s.emittedLen ≤ part.length := by
      rw [hlen]
      exact safeLen_le_length part
    rw [if_neg hscan, htext]
    by_cases hhit : (scanForMarker (part ++ delta)).hit = true
    · -- the first marker has landed
      obtain ⟨k, hk, hkpart, hsafe, hkle⟩ :=
        markerStart_of_first_hit hwhole hmiss hhit hsplit
      obtain ⟨qs, hqs, hforward⟩ := @forward_spec (s.receive delta) k (hlen ▸ hsafe)
      rw [htext] at hqs
      rw [if_pos hhit, hkpart, Option.getD_some, hforward]
      refine ⟨h.blockIndex, h.messageDeltaSeen, h.finished, htext, ⟨ps ++ qs, ?_, ?_⟩, ?_⟩
      · rw [← List.append_assoc, ← hpushes]
        rfl
      · rw [forwardedProse_append, hps, hqs]
        exact take_forward hle (hlen ▸ hsafe)
      · exact .inr ⟨rfl, k, hk, rfl, hkle, by rw [← htext]⟩
    · have hmiss' : (scanForMarker (part ++ delta)).hit = false := by simpa using hhit
      have hmono := safeLen_mono hmiss hmiss'
      obtain ⟨qs, hqs, hforward⟩ := @forward_spec (s.receive delta)
        (scanForMarker (part ++ delta)).safeLen (hlen ▸ hmono)
      rw [htext] at hqs
      rw [if_neg hhit, hforward]
      refine ⟨h.blockIndex, h.messageDeltaSeen, h.finished, htext, ⟨ps ++ qs, ?_, ?_⟩, ?_⟩
      · rw [← List.append_assoc, ← hpushes]
        rfl
      · rw [forwardedProse_append, hps, hqs]
        exact take_forward hle (hlen ▸ hmono)
      · exact .inl ⟨hcap, hmiss', rfl⟩
  · rw [if_pos (show (s.receive delta).capturing = true from hcap)]
    refine ⟨h.blockIndex, h.messageDeltaSeen, h.finished, htext, ⟨ps, hpushes, ?_⟩, ?_⟩
    · rw [hps]
      exact (List.take_append_of_le_length (hlen ▸ hle)).symm
    · refine .inr ⟨hcap, k, hk, hlen, ?_, ?_⟩
      · rw [List.length_append]
        omega
      · rw [List.drop_append_of_le_length hle, ← henv]
        rfl

/-! ## A whole text block -/

section Block

variable (schemas : ToolSchemas) (isDestructive : Text → Bool)

/-- A frame is an event of a type. -/
def IsEvent (type : Text) (frame : SseFrame) : Prop :=
  ∃ ev, parseSseEvent frame.frame = some ev ∧ ev.type = type

/-- A frame is a text delta. -/
def IsTextDelta (frame : SseFrame) (delta : Text) : Prop :=
  ∃ ev, parseSseEvent frame.frame = some ev ∧ ev.type = text "content_block_delta"
    ∧ ev.textDelta? = some delta

/-- A frame the wrapper only passes on. -/
def IsPassive (frame : SseFrame) : Prop :=
  ∃ ev, parseSseEvent frame.frame = some ev
    ∧ ev.type ∉ [text "content_block_start", text "content_block_delta",
        text "content_block_stop", text "message_delta", text "message_stop"]

/-- A frame of the text block: a delta, or a frame that is passed on. -/
def IsTextFrame (frame : SseFrame) (delta : Text) : Prop :=
  IsTextDelta frame delta ∨ IsPassive frame ∧ delta = []

/-- The frames of a message with one text block that ends normally. -/
structure TextStream (frames : List SseFrame) (deltas : List Text) where
  before : List SseFrame
  start : SseFrame
  texts : List SseFrame
  stop : SseFrame
  messageDelta : SseFrame
  messageStop : SseFrame
  shape : frames = before ++ start :: texts ++ [stop, messageDelta, messageStop]
  before_passive : ∀ f ∈ before, IsPassive f
  start_event : IsEvent (text "content_block_start") start
  texts_deltas : List.Forall₂ IsTextFrame texts deltas
  stop_event : IsEvent (text "content_block_stop") stop
  messageDelta_event : IsEvent (text "message_delta") messageDelta
  messageStop_event : IsEvent (text "message_stop") messageStop

variable {s s₀ : RescueState} {f : SseFrame} {whole : Text}

theorem rescueFrame_passive (h : IsPassive f) :
    rescueFrame schemas isDestructive s f = s.push (.raw f) := by
  obtain ⟨ev, hev, htype⟩ := h
  simp only [List.mem_cons, not_or] at htype
  obtain ⟨h1, h2, h3, h4, h5⟩ := htype
  simp only [rescueFrame, hev, h1, h2, h3, h4, h5, if_false]

theorem IsPassive.prose (h : IsPassive f) : (StreamPush.raw f).prose = [] := by
  obtain ⟨ev, hev, htype⟩ := h
  have hne : ev.type ≠ text "content_block_delta" := by
    intro heq
    exact htype (by simp [heq])
  simp [StreamPush.prose, hev, SseEvent.prose, hne]

theorem Rescued.push_passive {part : Text} (h : Rescued whole s₀ part s) (hf : IsPassive f) :
    Rescued whole s₀ part (s.push (.raw f)) := by
  obtain ⟨ps, hpushes, hps⟩ := h.forwarded
  refine ⟨h.blockIndex, h.messageDeltaSeen, h.finished, h.blockText, ⟨ps ++ [.raw f], ?_, ?_⟩, h.phase⟩
  · rw [← List.append_assoc, ← hpushes]
    rfl
  · rw [forwardedProse_append, hps, forwardedProse, List.flatMap_singleton, hf.prose, List.append_nil]
    rfl

theorem rescueFrame_textDelta {delta : Text} (h : IsTextDelta f delta) :
    rescueFrame schemas isDestructive s f = rescueTextDelta s delta := by
  obtain ⟨ev, hev, htype, hdelta⟩ := h
  have hne : text "content_block_delta" ≠ text "content_block_start" := by decide
  simp only [rescueFrame, hev, htype, hne, if_false, if_true, hdelta]

theorem foldl_passive {fs : List SseFrame} (h : ∀ f ∈ fs, IsPassive f) :
    fs.foldl (rescueFrame schemas isDestructive) s
      = s.pushAll (fs.map .raw) := by
  induction fs generalizing s with
  | nil => simp [RescueState.pushAll]
  | cons f fs ih =>
    rw [List.foldl_cons, rescueFrame_passive schemas isDestructive (h f (by simp)),
      ih fun f' hf' => h f' (by simp [hf'])]
    simp [RescueState.push, RescueState.pushAll]

/-- **The wrapper after a run of text deltas.** The induction is on the deltas
still to come; `Rescued` carries what came before. -/
theorem rescued_deltas {part : Text} {fs : List SseFrame} {deltas : List Text}
    (h : Rescued whole s₀ part s) (hfs : List.Forall₂ IsTextFrame fs deltas)
    (hwhole : part ++ deltas.flatten = whole)
    (hclean : ∀ a b, deltas = a ++ b → ¬ SplitsMarker whole (part ++ a.flatten).length) :
    Rescued whole s₀ whole (fs.foldl (rescueFrame schemas isDestructive) s) := by
  induction hfs generalizing part s with
  | nil =>
    rw [List.flatten_nil, List.append_nil] at hwhole
    rw [← hwhole] at h ⊢
    exact h
  | @cons f delta fs deltas hf _ ih =>
    rw [List.flatten_cons, ← List.append_assoc] at hwhole
    refine ih ?_ hwhole ?_
    · rcases hf with hf | ⟨hf, rfl⟩
      · rw [rescueFrame_textDelta schemas isDestructive hf]
        refine rescued_textDelta h ⟨_, hwhole⟩ ?_
        have := hclean [] (delta :: deltas) rfl
        rwa [List.flatten_nil, List.append_nil] at this
      · rw [rescueFrame_passive schemas isDestructive hf, List.append_nil]
        exact h.push_passive hf
    · intro a b hab
      have := hclean (delta :: a) b (by rw [hab]; rfl)
      rwa [List.flatten_cons, ← List.append_assoc] at this

/-- The data of an event. -/
def eventData (frame : SseFrame) : Option Json :=
  (parseSseEvent frame.frame).bind (·.data)

theorem rescueFrame_blockStop (h : IsEvent (text "content_block_stop") f) :
    rescueFrame schemas isDestructive s f
      = if s.capturing then s else (s.forward s.blockText.length).push (.raw f) := by
  obtain ⟨ev, hev, htype⟩ := h
  have h1 : text "content_block_stop" ≠ text "content_block_start" := by decide
  have h2 : text "content_block_stop" ≠ text "content_block_delta" := by decide
  simp only [rescueFrame, hev, htype, h1, h2, if_false, if_true]

theorem rescueFrame_messageDelta (h : IsEvent (text "message_delta") f) :
    rescueFrame schemas isDestructive s f
      = if s.capturing then { s with messageDeltaSeen := eventData f }
        else ({ s with messageDeltaSeen := eventData f } : RescueState).push (.raw f) := by
  obtain ⟨ev, hev, htype⟩ := h
  have h1 : text "message_delta" ≠ text "content_block_start" := by decide
  have h2 : text "message_delta" ≠ text "content_block_delta" := by decide
  have h3 : text "message_delta" ≠ text "content_block_stop" := by decide
  simp only [rescueFrame, eventData, hev, htype, h1, h2, h3, if_false, if_true, Option.bind_some]

theorem rescueFrame_messageStop (h : IsEvent (text "message_stop") f) :
    rescueFrame schemas isDestructive s f
      = if (finish schemas isDestructive s).capturing then finish schemas isDestructive s
        else (finish schemas isDestructive s).push (.raw f) := by
  obtain ⟨ev, hev, htype⟩ := h
  have h1 : text "message_stop" ≠ text "content_block_start" := by decide
  have h2 : text "message_stop" ≠ text "content_block_delta" := by decide
  have h3 : text "message_stop" ≠ text "content_block_stop" := by decide
  have h4 : text "message_stop" ≠ text "message_delta" := by decide
  simp only [rescueFrame, hev, htype, h1, h2, h3, h4, if_false, if_true]

/-- The index a `content_block_start` opens. -/
def startIndex (frame : SseFrame) : Number :=
  (Json.number? ((parseSseEvent frame.frame).bind (·.get? (text "index")))).getD 0

/-- The wrapper when the text block opens. -/
def openedBlock (before : List SseFrame) (start : SseFrame) : RescueState :=
  { RescueState.new with
      blockIndex := startIndex start, pushes := before.map .raw ++ [.raw start] }

theorem rescueFrame_start {before : List SseFrame} {start : SseFrame}
    (h : IsEvent (text "content_block_start") start) :
    rescueFrame schemas isDestructive (RescueState.new.pushAll (before.map .raw)) start
      = openedBlock before start := by
  obtain ⟨ev, hev, htype⟩ := h
  simp only [rescueFrame, hev, htype, openedBlock, startIndex]
  rfl

theorem rescued_openedBlock (whole : Text) (before : List SseFrame) (start : SseFrame) :
    Rescued whole (openedBlock before start) [] (openedBlock before start) where
  blockIndex := rfl
  messageDeltaSeen := rfl
  finished := rfl
  blockText := rfl
  forwarded := ⟨[], by simp, rfl⟩
  phase := .inl ⟨rfl, by decide +kernel, show 0 = (scanForMarker []).safeLen by decide +kernel⟩

theorem rescue_end_of_miss {stop md ms : SseFrame} (h : Rescued whole s₀ whole s)
    (hcap : s.capturing = false) (hmiss : s.emittedLen = (scanForMarker whole).safeLen)
    (hopen : s₀.finished = false) (hstop : IsEvent (text "content_block_stop") stop)
    (hmd : IsEvent (text "message_delta") md) (hms : IsEvent (text "message_stop") ms) :
    let last := [stop, md, ms].foldl (rescueFrame schemas isDestructive) s
    last.capturing = false ∧ ∃ ps, forwardedProse ps = whole
      ∧ last.pushes = s₀.pushes ++ ps ++ [.raw stop, .raw md, .raw ms] := by
  intro last
  obtain ⟨ps, hpushes, hps⟩ := h.forwarded
  have hle : s.emittedLen ≤ s.blockText.length := by
    rw [hmiss, h.blockText]
    exact safeLen_le_length whole
  obtain ⟨qs, hqs, hforward⟩ := forward_spec hle
  rw [List.take_length, h.blockText] at hqs
  have hfin : s.finished = false := by rw [h.finished, hopen]
  have hlast : last = { s with
      emittedLen := s.blockText.length, finished := true, messageDeltaSeen := eventData md,
      pushes := s.pushes ++ qs ++ [.raw stop] ++ [.raw md] ++ [.raw ms] } := by
    simp only [last, List.foldl_cons]
    rw [rescueFrame_blockStop schemas isDestructive hstop,
      rescueFrame_messageDelta schemas isDestructive hmd,
      rescueFrame_messageStop schemas isDestructive hms, hforward]
    -- nothing is left to release when the message ends
    simp [hcap, finish, hfin, RescueState.push, RescueState.forward]
  refine ⟨by rw [hlast]; exact hcap, ps ++ qs, ?_, ?_⟩
  · rw [forwardedProse_append, hps, hqs, List.take_append_drop]
  · rw [hlast]
    simp [hpushes]

theorem rescue_end_of_hit {stop md ms : SseFrame} {k : Nat} (h : Rescued whole s₀ whole s)
    (hcap : s.capturing = true) (henv : s.envelope = whole.drop k) (hopen : s₀.finished = false)
    (hstop : IsEvent (text "content_block_stop") stop) (hmd : IsEvent (text "message_delta") md)
    (hms : IsEvent (text "message_stop") ms) :
    let last := [stop, md, ms].foldl (rescueFrame schemas isDestructive) s
    last.finished = true
      ∧ last.pushes = s.pushes ++ finishPushes s₀.blockIndex (eventData md)
          (recoverToolCalls (whole.drop k) schemas isDestructive) := by
  intro last
  have hfin : s.finished = false := by rw [h.finished, hopen]
  have hlast : last = finish schemas isDestructive { s with messageDeltaSeen := eventData md } := by
    simp only [last, List.foldl_cons, List.foldl_nil]
    rw [rescueFrame_blockStop schemas isDestructive hstop, if_pos hcap,
      rescueFrame_messageDelta schemas isDestructive hmd, if_pos hcap,
      rescueFrame_messageStop schemas isDestructive hms]
    simp [finish, hfin, hcap]
  rw [hlast]
  simp [finish, hfin, hcap, henv, h.blockIndex]

/-- The wrapper forwards the text before the envelope, or the whole text, and hands
the rest to the recovery. -/
def StreamAgrees (upstream : ByteStream) (failure : Text) {frames : List SseFrame}
    {deltas : List Text} (h : TextStream frames deltas) : Prop :=
  ∃ ps : List StreamPush,
    let forwarded := h.before.map .raw ++ [.raw h.start] ++ ps
    let written := (recoverDialectInStream schemas isDestructive upstream failure).pushes
    match markerStart deltas.flatten with
    | none => forwardedProse ps = deltas.flatten
        ∧ written = forwarded ++ [.raw h.stop, .raw h.messageDelta, .raw h.messageStop]
    | some k => forwardedProse ps = deltas.flatten.take k
        ∧ written = forwarded ++ finishPushes (startIndex h.start) (eventData h.messageDelta)
            (recoverToolCalls (deltas.flatten.drop k) schemas isDestructive)

/-- **The Anthropic wrapper agrees with the buffered recovery.** -/
theorem recoverDialectInStream_agrees {upstream : ByteStream} {deltas : List Text}
    (hdone : upstream.ending = .done)
    (h : TextStream (decodedFrames upstream.bytes).drain.1 deltas) (hclean : CleanCut deltas)
    (failure : Text) : StreamAgrees schemas isDestructive upstream failure h := by
  have hstate : (feedChunks (rescueFrame schemas isDestructive) .new upstream.chunks).state
      = [h.stop, h.messageDelta, h.messageStop].foldl (rescueFrame schemas isDestructive)
          (h.texts.foldl (rescueFrame schemas isDestructive) (openedBlock h.before h.start)) := by
    have hshape : (decodedFrames upstream.chunks.flatten).drain.1 = _ := h.shape
    rw [feedChunks_eq, hshape, List.foldl_append, List.foldl_append,
      foldl_passive schemas isDestructive h.before_passive]
    rw [← rescueFrame_start schemas isDestructive h.start_event]
    rfl
  have hrescued := rescued_deltas schemas isDestructive
    (rescued_openedBlock deltas.flatten h.before h.start) h.texts_deltas rfl
    (fun a b hab => by simpa using hclean a b hab)
  unfold StreamAgrees recoverDialectInStream
  rw [hstate, hdone]
  rcases hrescued.phase with ⟨hcap, hmiss, hlen⟩ | ⟨hcap, k, hk, hlen, -, henv⟩
  · obtain ⟨hcap', ps, hps, hpushes⟩ := rescue_end_of_miss schemas isDestructive hrescued hcap
      hlen rfl h.stop_event h.messageDelta_event h.messageStop_event
    refine ⟨ps, ?_⟩
    rw [markerStart_eq_none hmiss]
    refine ⟨hps, ?_⟩
    simp only [hcap']
    exact hpushes
  · obtain ⟨ps, hpushes, hps⟩ := hrescued.forwarded
    obtain ⟨hfin, hsettled⟩ := rescue_end_of_hit schemas isDestructive hrescued hcap henv rfl
      h.stop_event h.messageDelta_event h.messageStop_event
    refine ⟨ps, ?_⟩
    rw [hk]
    refine ⟨by rw [hps, hlen], ?_⟩
    have hagain : ∀ s : RescueState, s.finished = true →
        (if s.capturing then finish schemas isDestructive s else s) = s := by
      intro s hs
      simp [finish, hs]
    simp only [hagain _ hfin]
    rw [hsettled, hpushes]
    rfl

end Block

end LlmRelay
