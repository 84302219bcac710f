import LlmRelay.Usage.SseObserver

/-!
# The usage observer and the cuts of its stream

What is known of the usage of a stream is read off its bytes: the lines of the decoded text are
taken frame by frame, and the estimate is tainted where the bytes are not UTF-8. The observer
finds the same, wherever the stream is cut, as long as it does not lose a blank line: where the
waiting text exceeds the bound of its frame, the observer drops it, and with it a CR that the
text may end with. Such a CR can be a blank line of its own, or the first half of one.

## Main definitions

* `observeDocument`: what is known of the usage of a byte sequence;
* `SseObserver.LosesSeparator`: a slice after which a blank line is lost;
* `SseObserver.KeepsSeparators`: no slice is such;
* `Waits`: the observer between two slices, as the frames of the text so far.

## Main results

* `Waits.pushSlice`: one slice;
* `observeSse_eq_observeDocument`: all chunks of a stream;
* `observeSse_chunk_invariant`: two ways to cut one stream;
* `lost_separator_hides_usage`: a stream that two cuts make different.
-/

namespace LlmRelay

open Ecma

/-! ## The whole stream -/

/-- The frames after further lines. -/
def FrameReader.read (protocol : UsageProtocol) (r : FrameReader) (ls : List Line) : FrameReader :=
  ls.foldl (processSseLine protocol) r

/-- The text of the bytes that follow, up to the end of the stream. -/
def decodeRest (d : Utf8Decoder) (bytes : List UInt8) : Text :=
  (d.decode bytes).2 ++ (d.decode bytes).1.flush

/-- What is known of the usage of a stream, by its bytes. -/
def observeDocument (protocol : UsageProtocol) (bytes : List UInt8) : UsageAccumulator :=
  let r := endFrames protocol (FrameReader.new.read protocol (decodeUtf8 bytes).documentLines)
  let o := if wellFormedUtf8 bytes then r.observation else taintOutputEstimate r.observation
  (flushAllToolArguments (flushAllStreamedOutputText o)).accumulator

/-- After the slice, the waiting text is dropped with a CR at its end, and the CR is a blank line
or the next character makes it one. -/
def SseObserver.LosesSeparator (protocol : UsageProtocol) (s : SseObserver) (slice : Chunk)
    (later : List UInt8) : Prop :=
  let w := ((s.validate slice).receive slice).takeLines protocol false
  w.discardUntilBreak = false ∧ w.isOversized = true ∧ w.text.endsWith [cr] = true ∧
    (w.text = [cr] ∨ (decodeRest w.decoder later).head? = some cr)

/-- No slice loses a blank line. -/
def SseObserver.KeepsSeparators (protocol : UsageProtocol) :
    SseObserver → List Chunk → Prop
  | _, [] => True
  | s, slice :: later =>
    ¬ s.LosesSeparator protocol slice later.flatten ∧
      KeepsSeparators protocol (s.pushSlice protocol slice) later

instance (protocol : UsageProtocol) (s : SseObserver) (slice : Chunk) (later : List UInt8) :
    Decidable (s.LosesSeparator protocol slice later) :=
  inferInstanceAs (Decidable (_ = _ ∧ _ = _ ∧ _ = _ ∧ (_ = _ ∨ _ = _)))

instance decidableKeepsSeparators (protocol : UsageProtocol) :
    ∀ (s : SseObserver) (slices : List Chunk), Decidable (s.KeepsSeparators protocol slices)
  | _, [] => .isTrue trivial
  | s, slice :: later =>
    have := decidableKeepsSeparators protocol (s.pushSlice protocol slice) later
    inferInstanceAs (Decidable (¬ s.LosesSeparator protocol slice later.flatten ∧
      (s.pushSlice protocol slice).KeepsSeparators protocol later))

/-- The slices in which the observer takes the chunks of a stream. -/
def slicesOf (chunks : List Chunk) : List Chunk :=
  chunks.flatMap decodeSlices

theorem FrameReader.read_append (protocol : UsageProtocol) (r : FrameReader) (as bs : List Line) :
    r.read protocol (as ++ bs) = (r.read protocol as).read protocol bs :=
  List.foldl_append

theorem decodeRest_append (d : Utf8Decoder) (as bs : List UInt8) :
    decodeRest d (as ++ bs) = (d.decode as).2 ++ decodeRest (d.decode as).1 bs := by
  rw [decodeRest, Utf8Decoder.decode_append, List.append_assoc]
  rfl

/-! ## Observations -/

theorem inspects_inspectAnthropicFrame (event : Option Text) (value : Json) :
    Inspects (inspectAnthropicFrame event value) := by
  unfold inspectAnthropicFrame
  split
  · exact EstimatesOnly.id.inspects
  rename_i root _
  have houtput := (estimatesOnly_inspectAnthropicOutput root).inspects
  split
  · exact (inspects_usage _ _).comp houtput
  · exact houtput

theorem inspects_inspectSseFrame (protocol : UsageProtocol) (state : SseState) :
    Inspects (inspectSseFrame protocol state) := by
  unfold inspectSseFrame
  split
  · exact EstimatesOnly.id.inspects
  dsimp only
  split
  · exact EstimatesOnly.id.inspects
  split
  · exact estimatesOnly_taint.inspects
  · exact inspects_inspectAnthropicFrame _ _
  · exact inspects_inspectJson _ _ _

/-- The observation `o` of a stream that is cut, and the observation `o'` of its text: they
agree, or the estimate of `o` is tainted, for bytes that are not UTF-8 or as that of `o'` is. -/
def ObservedAs (malformed : Prop) (o o' : Observation) : Prop :=
  (¬ malformed ∧ o = o') ∨ (o.Tainted ∧ o.reported = o'.reported ∧ (malformed ∨ o'.Tainted))

namespace ObservedAs

variable {malformed : Prop} {o o' : Observation}

variable (h : ObservedAs malformed o o')

include h

theorem reported : o.reported = o'.reported := by
  rcases h with ⟨-, rfl⟩ | ⟨-, h, -⟩
  · rfl
  · exact h

theorem tainted (ho' : o'.Tainted) : o.Tainted := by
  rcases h with ⟨-, rfl⟩ | ⟨h, -, -⟩
  · exact ho'
  · exact h

theorem inspects {f : Observation → Observation}
    (hf : Inspects f) : ObservedAs malformed (f o) (f o') := by
  rcases h with ⟨hwell, rfl⟩ | ⟨ho, hreported, hwhy⟩
  · exact .inl ⟨hwell, rfl⟩
  · exact .inr ⟨hf.tainted _ ho, hf.reported _ _ hreported, hwhy.imp_right (hf.tainted _)⟩

/-- The bytes turn out not to be UTF-8. -/
theorem taint {malformed' : Prop} (hmalformed : malformed') :
    ObservedAs malformed' (taintOutputEstimate o) o' :=
  .inr ⟨taintOutputEstimate_tainted o, (estimatesOnly_taint.reported o).trans h.reported,
    .inl hmalformed⟩

end ObservedAs

/-! ## Frames -/

/-- The frame is over its bound, and so the estimate is tainted. -/
structure FrameReader.Poisoned (r : FrameReader) : Prop where
  overflow : r.state.overflow = true
  tainted : r.observation.Tainted

/-- A frame is over its bound only where the estimate is tainted. -/
def FrameReader.Sound (r : FrameReader) : Prop :=
  r.state.overflow = true → r.observation.Tainted

theorem inspectSseFrame_of_overflow (protocol : UsageProtocol) {state : SseState}
    (h : state.overflow = true) (o : Observation) : inspectSseFrame protocol state o = o :=
  if_pos (.inl h)

/-- **The line that takes a frame over its bound**, and the lines after it. -/
theorem FrameReader.Sound.poisoned {r : FrameReader} (h : r.Sound) (protocol : UsageProtocol)
    {line : Line} (hline : line.content ≠ [])
    (hover : r.state.overflow = true ∨ MAX_SSE_FRAME < r.sizeWith line.content + line.terminator) :
    (processSseLine protocol r line).Poisoned ∧
      (processSseLine protocol r line).observation.reported = r.observation.reported := by
  unfold processSseLine
  rw [if_neg hline]
  dsimp only
  split
  · exact ⟨⟨rfl, taintOutputEstimate_tainted _⟩, estimatesOnly_taint.reported _⟩
  · rename_i hfits
    have hoverflow := hover.resolve_right hfits
    rw [if_pos hoverflow]
    exact ⟨⟨hoverflow, h hoverflow⟩, rfl⟩

/-- The frames of a stream that is cut, and the frames of its text. -/
structure FramesAs (malformed : Prop) (s r : FrameReader) : Prop where
  observed : ObservedAs malformed s.observation r.observation
  state : s.state = r.state ∨ (s.state.overflow = true ∧ r.state.overflow = true)
  sound : r.Sound

namespace FramesAs

variable {malformed : Prop} {s r : FrameReader}

theorem of_poisoned (hs : s.Poisoned) (hr : r.Poisoned)
    (hreported : s.observation.reported = r.observation.reported) : FramesAs malformed s r :=
  ⟨.inr ⟨hs.tainted, hreported, .inr hr.tainted⟩, .inr ⟨hs.overflow, hr.overflow⟩,
    fun _ => hr.tainted⟩

variable (h : FramesAs malformed s r)

include h

variable (protocol : UsageProtocol)

include protocol

theorem inspected :
    ObservedAs malformed (inspectSseFrame protocol s.state s.observation)
      (inspectSseFrame protocol r.state r.observation) := by
  rcases h.state with hstate | ⟨hs, hr⟩
  · rw [hstate]
    exact h.observed.inspects (inspects_inspectSseFrame _ _)
  · rw [inspectSseFrame_of_overflow _ hs, inspectSseFrame_of_overflow _ hr]
    exact h.observed

theorem ended : FramesAs malformed (endFrames protocol s) (endFrames protocol r) :=
  ⟨h.inspected protocol, .inl rfl, fun hover => absurd hover Bool.false_ne_true⟩

theorem line_poisoned {line : Line} (hline : line.content ≠ [])
    (hs : s.state.overflow = true ∨ MAX_SSE_FRAME < s.sizeWith line.content + line.terminator)
    (hr : r.state.overflow = true ∨ MAX_SSE_FRAME < r.sizeWith line.content + line.terminator) :
    FramesAs malformed (processSseLine protocol s line) (processSseLine protocol r line) := by
  have hsound : s.Sound := by
    intro hover
    rcases h.state with hstate | ⟨-, hr⟩
    · exact h.observed.tainted (h.sound (hstate ▸ hover))
    · exact h.observed.tainted (h.sound hr)
  obtain ⟨hspoisoned, hsreported⟩ := hsound.poisoned protocol hline hs
  obtain ⟨hrpoisoned, hrreported⟩ := h.sound.poisoned protocol hline hr
  exact .of_poisoned hspoisoned hrpoisoned
    (by rw [hsreported, hrreported, h.observed.reported])

/-- **One line.** -/
theorem line (line : Line) :
    FramesAs malformed (processSseLine protocol s line) (processSseLine protocol r line) := by
  by_cases hline : line.content = []
  · unfold processSseLine
    rw [if_pos hline, if_pos hline]
    exact h.ended protocol
  rcases h.state with hstate | ⟨hs, hr⟩
  · by_cases hover : r.state.overflow = true ∨
        MAX_SSE_FRAME < r.sizeWith line.content + line.terminator
    · exact h.line_poisoned protocol hline
        (by rwa [FrameReader.sizeWith, hstate]) hover
    · obtain ⟨hoverflow, hfits⟩ := not_or.mp hover
      have hkept : ∀ q : FrameReader, q.state = r.state →
          processSseLine protocol q line =
            { q with
                state := SseState.addField
                  { r.state with size := r.sizeWith line.content + line.terminator }
                  line.content } := by
        intro q hq
        have hsize : q.sizeWith line.content = r.sizeWith line.content := by
          rw [FrameReader.sizeWith, FrameReader.sizeWith, hq]
        unfold processSseLine
        rw [if_neg hline]
        rw [hsize, hq, if_neg hfits, if_neg hoverflow]
      rw [hkept s hstate, hkept r rfl]
      refine ⟨h.observed, .inl rfl, fun hover => absurd ?_ hoverflow⟩
      have hfield : ∀ state : SseState, ∀ t, (state.addField t).overflow = state.overflow := by
        intro state t
        unfold SseState.addField
        split
        · rfl
        split <;> rfl
      rw [hfield] at hover
      exact hover
  · exact h.line_poisoned protocol hline (.inl hs) (.inl hr)

end FramesAs

/-! ## The waiting text -/

namespace SseObserver

variable {protocol : UsageProtocol}

theorem takeLines_of_none {final : Bool} {s : SseObserver} (h : s.text.nextLine? final = none) :
    s.takeLines protocol final = s := by
  rw [takeLines]
  split
  · rfl
  · rename_i hsome
    rw [h] at hsome
    cases hsome

theorem takeLines_of_some {final : Bool} {s : SseObserver} {line : Line} {rest : Text}
    (h : s.text.nextLine? final = some (line, rest)) :
    s.takeLines protocol final = (s.takeLine protocol line rest).takeLines protocol final := by
  rw [takeLines]
  split
  · rename_i hnone
    rw [h] at hnone
    cases hnone
  · rename_i hsome
    rw [h] at hsome
    cases hsome
    rfl

end SseObserver

/-- The observer has the text `t` waiting, after the frames `r`. -/
structure Follows (malformed : Prop) (s : SseObserver) (r : FrameReader) (t : Text) : Prop where
  keeps : s.discardUntilBreak = false
  text : s.text = t
  frames : FramesAs malformed s.frames r

/-- The observer discards a line after the frames `r`. -/
structure Skips (s : SseObserver) (r : FrameReader) : Prop where
  discards : s.discardUntilBreak = true
  poisoned : s.frames.Poisoned
  reported : s.frames.observation.reported = r.observation.reported
  sound : r.Sound

/-- A line that begins with `x` and has `n` further bytes takes the frame over its bound. -/
def FrameReader.Doomed (r : FrameReader) (x : Text) (n : Nat) : Prop :=
  r.state.overflow = true ∨ MAX_SSE_FRAME < r.sizeWith x + n

/-- A line that is not blank begins here. -/
def BeginsLine (t : Text) : Prop :=
  ∃ c rest, t = c :: rest ∧ c ≠ lf ∧ c ≠ cr

/-- The observer, where the text `t` waits for its line break after the frames `r`, and `later`
will come. -/
inductive Waits (malformed : Prop) (later : Text) (s : SseObserver) (r : FrameReader) (t : Text) :
    Prop
  /-- the text is kept -/
  | follows (h : Follows malformed s r t)
  /-- the line is discarded, up to a CR it may end with -/
  | skips (h : Skips s r) (x : Text) (hx : x.Unbroken) (hdoomed : r.Doomed x 0)
      (hbegins : BeginsLine t) (ht : t = x ++ s.text)
  /-- the line is discarded with the CR it ends with -/
  | dropped (h : Skips s r) (x : Text) (hx : x.Unbroken) (hne : x ≠ []) (hdoomed : r.Doomed x 1)
      (ht : t = x ++ [cr]) (htext : s.text = []) (hlater : later.head? ≠ some cr)

variable {x : Text} {line : Line}

theorem FrameReader.Doomed.append {r : FrameReader} {n : Nat} (h : r.Doomed x n) (y : Text) :
    r.Doomed (x ++ y) n := by
  refine h.imp_right fun hover => Nat.lt_of_lt_of_le hover ?_
  have hlonger := encodeUtf8_length_append x y
  unfold FrameReader.sizeWith
  omega

theorem BeginsLine.append {t : Text} (h : BeginsLine t) (u : Text) : BeginsLine (t ++ u) := by
  obtain ⟨c, rest, rfl, hlf, hcr⟩ := h
  exact ⟨c, rest ++ u, rfl, hlf, hcr⟩

theorem beginsLine_of_unbroken {t : Text} (h : t.Unbroken) (hne : t ≠ []) : BeginsLine t := by
  obtain ⟨c, rest, rfl⟩ := List.exists_cons_of_ne_nil hne
  exact ⟨c, rest, rfl, h c (List.mem_cons_self ..)⟩

theorem BeginsLine.content_ne {final : Bool} {t rest : Text} (h : BeginsLine t)
    (hnext : t.nextLine? final = some (line, rest)) : line.content ≠ [] := by
  obtain ⟨c, rest', rfl, hlf, hcr⟩ := h
  rw [Text.nextLine?, if_neg hlf, if_neg hcr] at hnext
  obtain ⟨p, -, hp⟩ := Option.map_eq_some_iff.mp hnext
  cases hp
  exact List.cons_ne_nil _ _

variable {protocol : UsageProtocol} {final : Bool} {malformed : Prop} {later t u : Text}
  {s : SseObserver} {r : FrameReader}

theorem Skips.ended (h : Skips s r) (protocol : UsageProtocol) (hline : line.content ≠ [])
    (hdoomed : r.Doomed line.content line.terminator) :
    Skips s (processSseLine protocol r line) ∧ (processSseLine protocol r line).Poisoned := by
  obtain ⟨hpoisoned, hreported⟩ := h.sound.poisoned protocol hline hdoomed
  exact ⟨⟨h.discards, h.poisoned, h.reported.trans hreported.symm, fun _ => hpoisoned.tainted⟩,
    hpoisoned⟩

theorem Follows.takeLines (h : Follows malformed s r t) :
    Follows malformed (s.takeLines protocol final) (r.read protocol (t.lines final).1)
      (t.lines final).2 := by
  induction hn : t.length using Nat.strong_induction_on generalizing s r t with
  | _ n ih =>
    cases hnext : t.nextLine? final with
    | none =>
      rw [SseObserver.takeLines_of_none (h.text ▸ hnext), Text.lines_of_none hnext]
      exact h
    | some p =>
      rw [SseObserver.takeLines_of_some (h.text ▸ hnext), Text.lines_of_some hnext]
      refine ih _ (hn ▸ Text.nextLine?_length hnext) ?_ rfl
      rw [SseObserver.takeLine, if_neg (by rw [h.keeps]; exact Bool.false_ne_true)]
      exact ⟨h.keeps, rfl, h.frames.line protocol p.1⟩

theorem Skips.takeLine (h : Skips s r) (hpoisoned : r.Poisoned) {rest : Text} :
    Follows malformed (s.takeLine protocol line rest) r rest := by
  rw [SseObserver.takeLine, if_pos h.discards]
  exact ⟨rfl, rfl, .of_poisoned h.poisoned hpoisoned h.reported⟩

theorem Skips.takeLines (h : Skips s r) (hx : x.Unbroken) (hdoomed : r.Doomed x 0)
    (hbegins : BeginsLine t) (ht : t = x ++ s.text) :
    Waits malformed later (s.takeLines protocol final) (r.read protocol (t.lines final).1)
      (t.lines final).2 := by
  have hnext := Text.nextLine?_unbroken_append hx final s.text
  rw [← ht] at hnext
  cases htext : s.text.nextLine? final with
  | none =>
    rw [htext] at hnext
    rw [SseObserver.takeLines_of_none htext, Text.lines_of_none hnext]
    exact .skips h x hx hdoomed hbegins ht
  | some p =>
    rw [htext] at hnext
    rw [SseObserver.takeLines_of_some htext, Text.lines_of_some hnext]
    have hover : r.Doomed (x ++ p.1.content) p.1.terminator :=
      (hdoomed.append _).imp_right fun hlt => Nat.lt_of_lt_of_le hlt (Nat.le_add_right _ _)
    obtain ⟨hskips, hpoisoned⟩ :=
      h.ended protocol (hbegins.content_ne hnext) hover
    exact .follows (hskips.takeLine hpoisoned).takeLines

theorem Skips.takeLines_dropped (h : Skips s r) (hx : x.Unbroken) (hne : x ≠ [])
    (hdoomed : r.Doomed x 1) (hu : u ≠ []) (hlater : u.head? ≠ some cr) (htext : s.text = u) :
    Waits malformed later (s.takeLines protocol final)
      (r.read protocol ((x ++ cr :: u).lines final).1) ((x ++ cr :: u).lines final).2 := by
  obtain ⟨c, rest, rfl⟩ := List.exists_cons_of_ne_nil hu
  have hcr : c ≠ cr := fun hc => hlater (congrArg some hc)
  have hnext := Text.nextLine?_unbroken_append hx final (cr :: c :: rest)
  rw [Text.nextLine?, if_neg (by decide), if_pos rfl, Text.afterCr?] at hnext
  by_cases hlf : c = lf
  · -- the LF of the CRLF ends what is discarded
    subst hlf
    have hbreak : s.text.nextLine? final = some (⟨[], 1⟩, rest) := by
      rw [htext, Text.nextLine?, if_pos rfl]
    have hover : r.Doomed (x ++ []) 2 := by
      rw [List.append_nil]
      exact hdoomed.imp_right fun hlt => Nat.lt_succ_of_lt hlt
    have hline : Line.content ⟨x ++ [], 2⟩ ≠ [] := by simpa using hne
    obtain ⟨hskips, hpoisoned⟩ := h.ended protocol hline hover
    rw [SseObserver.takeLines_of_some hbreak, Text.lines_of_some hnext]
    exact .follows (hskips.takeLine hpoisoned).takeLines
  · -- the CR has ended the line, and the line that begins now is in the same frame
    rw [if_neg hlf] at hnext
    have hover : r.Doomed (x ++ []) 1 := by rwa [List.append_nil]
    have hline : Line.content ⟨x ++ [], 1⟩ ≠ [] := by simpa using hne
    obtain ⟨hskips, hpoisoned⟩ := h.ended protocol hline hover
    rw [Text.lines_of_some hnext]
    exact hskips.takeLines (x := []) (fun d hd => absurd hd List.not_mem_nil)
      (.inl hpoisoned.overflow) ⟨c, rest, rfl, hlf, hcr⟩ (by rw [htext, List.nil_append])

theorem FramesAs.doomed {s : FrameReader} (h : FramesAs malformed s r) {n : Nat}
    (hover : MAX_SSE_FRAME < s.sizeWith t + n) : r.Doomed t n := by
  rcases h.state with hstate | ⟨-, hr⟩
  · refine .inr ?_
    rwa [FrameReader.sizeWith, ← hstate]
  · exact .inl hr

theorem Follows.discardLine (h : Follows malformed s r t) : Skips s.discardLine r :=
  ⟨rfl, ⟨rfl, taintOutputEstimate_tainted _⟩,
    (estimatesOnly_taint.reported _).trans h.frames.observed.reported, h.frames.sound⟩

theorem Follows.settle (h : Follows malformed s r t) (hnext : t.nextLine? false = none)
    (hkeeps : ¬ (s.isOversized = true ∧ s.text.endsWith [cr] = true ∧
      (s.text = [cr] ∨ later.head? = some cr))) :
    Waits malformed later (s.settle protocol false) r t := by
  have hsettle : s.settle protocol false = if s.isOversized then s.discardLine else s := by
    rw [SseObserver.settle, if_neg (by rw [h.keeps]; exact Bool.false_ne_true)]
    rfl
  rw [hsettle]
  split
  swap
  · exact .follows h
  rename_i hoversized
  have hsize : t ≠ [] ∧ MAX_SSE_FRAME < s.frames.sizeWith t := by
    simpa [SseObserver.isOversized, h.text] using hoversized
  rcases Text.unbroken_or_held hnext with ht | ⟨w, hw, rfl⟩
  · exact .skips h.discardLine t ht (h.frames.doomed hsize.2) (beginsLine_of_unbroken ht hsize.1)
      (List.append_nil t).symm
  · have hcr : s.text.endsWith [cr] = true := by
      rw [h.text, Text.endsWith_iff]
      exact List.suffix_append w [cr]
    obtain ⟨hblank, hlater⟩ := not_or.mp fun hlost => hkeeps ⟨hoversized, hcr, hlost⟩
    have hne : w ≠ [] := by
      rintro rfl
      exact hblank h.text
    have hover : MAX_SSE_FRAME < s.frames.sizeWith w + 1 := by
      have hlt := hsize.2
      rw [FrameReader.sizeWith, encodeUtf8, codePoints_snoc w (by decide) (by decide),
        List.flatMap_append, List.length_append] at hlt
      exact hlt
    exact .dropped h.discardLine w hw hne (h.frames.doomed hover) rfl rfl hlater

theorem Skips.settle (h : Skips s r) (hx : x.Unbroken) (hdoomed : r.Doomed x 0)
    (hbegins : BeginsLine t) (ht : t = x ++ s.text) (hnext : s.text.nextLine? false = none) :
    Waits malformed later (s.settle protocol false) r t := by
  have hskips : Skips (s.settle protocol false) r := by
    rw [SseObserver.settle, if_pos h.discards]
    exact ⟨rfl, h.poisoned, h.reported, h.sound⟩
  have htext : (s.settle protocol false).text = if s.text.endsWith [cr] then [cr] else [] := by
    rw [SseObserver.settle, if_pos h.discards, Bool.not_false, Bool.and_true]
  have hboth : ∀ w : Text, w.Unbroken → (x ++ w).Unbroken := by
    intro w hw c hc
    exact (List.mem_append.mp hc).elim (hx c) (hw c)
  rcases Text.unbroken_or_held hnext with hw | ⟨w, hw, heq⟩
  · refine .skips hskips (x ++ s.text) (hboth _ hw) (hdoomed.append _) hbegins ?_
    have hno : s.text.endsWith [cr] ≠ true := by
      rw [Ne, Text.endsWith_iff]
      exact fun hcr => (hw cr (hcr.subset (List.mem_singleton_self cr))).2 rfl
    rw [htext, if_neg hno, List.append_nil, ht]
  · refine .skips hskips (x ++ w) (hboth _ hw) (hdoomed.append _) hbegins ?_
    have hcr : s.text.endsWith [cr] = true := by
      rw [heq, Text.endsWith_iff]
      exact List.suffix_append w [cr]
    rw [htext, if_pos hcr, ht, heq, List.append_assoc]

namespace Waits

variable (h : Waits malformed later s r t)

include h

theorem settle (hnext : t.nextLine? false = none)
    (hkeeps : ¬ (s.discardUntilBreak = false ∧ s.isOversized = true ∧
      s.text.endsWith [cr] = true ∧ (s.text = [cr] ∨ later.head? = some cr))) :
    Waits malformed later (s.settle protocol false) r t := by
  cases h with
  | follows h => exact h.settle hnext fun hlost => hkeeps ⟨h.keeps, hlost⟩
  | skips h x hx hdoomed hbegins ht =>
    have happend := Text.nextLine?_unbroken_append hx false s.text
    rw [← ht, hnext] at happend
    exact h.settle hx hdoomed hbegins ht (Option.map_eq_none_iff.mp happend.symm)
  | dropped h x hx hne hdoomed ht htext hlater =>
    have hsettle : s.settle protocol false = { s with text := [], discardUntilBreak := true } := by
      rw [SseObserver.settle, if_pos h.discards, htext]
      rfl
    rw [hsettle]
    exact .dropped ⟨rfl, h.poisoned, h.reported, h.sound⟩ x hx hne hdoomed ht rfl hlater

theorem transport {s' : SseObserver} (htext : s'.text = s.text)
    (hdiscard : s'.discardUntilBreak = s.discardUntilBreak) (hframes : s'.frames = s.frames) :
    Waits malformed later s' r t := by
  cases h with
  | follows h => exact .follows ⟨hdiscard.trans h.keeps, htext.trans h.text, hframes ▸ h.frames⟩
  | skips h x hx hdoomed hbegins ht =>
    exact .skips ⟨hdiscard.trans h.discards, hframes ▸ h.poisoned, hframes ▸ h.reported, h.sound⟩
      x hx hdoomed hbegins (htext ▸ ht)
  | dropped h x hx hne hdoomed ht hnil hlater =>
    exact .dropped
      ⟨hdiscard.trans h.discards, hframes ▸ h.poisoned, hframes ▸ h.reported, h.sound⟩
      x hx hne hdoomed ht (htext.trans hnil) hlater

/-- The bytes turn out not to be UTF-8. -/
theorem taint {malformed' : Prop} (hmalformed : malformed') :
    Waits malformed' later s.taint r t := by
  have hskips : Skips s r → Skips s.taint r := fun h =>
    ⟨h.discards, ⟨h.poisoned.overflow, taintOutputEstimate_tainted _⟩,
      (estimatesOnly_taint.reported _).trans h.reported, h.sound⟩
  cases h with
  | follows h =>
    exact .follows ⟨h.keeps, h.text,
      ⟨h.frames.observed.taint hmalformed, h.frames.state, h.frames.sound⟩⟩
  | skips h x hx hdoomed hbegins ht => exact .skips (hskips h) x hx hdoomed hbegins ht
  | dropped h x hx hne hdoomed ht hnil hlater =>
    exact .dropped (hskips h) x hx hne hdoomed ht hnil hlater

omit h

theorem takeLines (h : Waits malformed (u ++ later) s r t) {s' : SseObserver}
    (htext : s'.text = s.text ++ u) (hdiscard : s'.discardUntilBreak = s.discardUntilBreak)
    (hframes : s'.frames = s.frames) :
    Waits malformed later (s'.takeLines protocol false)
      (r.read protocol ((t ++ u).lines false).1) ((t ++ u).lines false).2 := by
  have hskips : Skips s r → Skips s' r := fun h =>
    ⟨hdiscard.trans h.discards, hframes ▸ h.poisoned, hframes ▸ h.reported, h.sound⟩
  cases h with
  | follows h =>
    refine .follows (Follows.takeLines ⟨hdiscard.trans h.keeps, ?_, hframes ▸ h.frames⟩)
    rw [htext, h.text]
  | skips h x hx hdoomed hbegins ht =>
    refine (hskips h).takeLines hx hdoomed (hbegins.append u) ?_
    rw [ht, htext, List.append_assoc]
  | dropped h x hx hne hdoomed ht hnil hlater =>
    rw [hnil] at htext
    rcases u with _ | ⟨c, rest⟩
    · have hnext : (t ++ []).nextLine? false = none := by
        rw [List.append_nil, ht, Text.nextLine?_unbroken_append hx]
        rfl
      rw [SseObserver.takeLines_of_none (by rw [htext]; rfl), Text.lines_of_none hnext,
        List.append_nil]
      exact .dropped (hskips h) x hx hne hdoomed ht htext hlater
    · rw [ht, List.append_assoc]
      exact (hskips h).takeLines_dropped hx hne hdoomed (List.cons_ne_nil c rest) hlater htext

end Waits

/-! ## The end of the stream -/

theorem Skips.observed_end (h : Skips s r) (protocol : UsageProtocol) (hpoisoned : r.Poisoned) :
    ObservedAs malformed s.frames.observation (endFrames protocol r).observation := by
  rw [endFrames, inspectSseFrame_of_overflow _ hpoisoned.overflow]
  exact .inr ⟨h.poisoned.tainted, h.reported, .inr hpoisoned.tainted⟩

theorem SseObserver.frames_endText (protocol : UsageProtocol) (s : SseObserver) :
    (s.endText protocol).frames = endFrames protocol
      (if s.text = [] then s.frames
        else if s.frames.sizeWith s.text ≤ MAX_SSE_FRAME then
          processSseLine protocol s.frames ⟨s.text, 0⟩
        else s.frames.exceed s.frames.state) := by
  rw [SseObserver.endText]
  split
  · rfl
  split <;> rfl

theorem Follows.settleEnd (h : Follows malformed s r t) :
    ObservedAs malformed (s.settle protocol true).frames.observation
      (endFrames protocol (r.read protocol t.lastLine)).observation := by
  have hsettle : s.settle protocol true
      = (if s.isOversized then s.discardLine else s).endText protocol := by
    rw [SseObserver.settle, if_neg (by rw [h.keeps]; exact Bool.false_ne_true)]
    rfl
  rw [hsettle, Text.lastLine, SseObserver.frames_endText]
  by_cases hnil : t = []
  · have htext : s.text = [] := h.text.trans hnil
    have hfits : s.isOversized = false := by simp [SseObserver.isOversized, htext]
    rw [hfits, if_neg Bool.false_ne_true, if_pos htext, if_pos hnil]
    exact (h.frames.ended protocol).observed
  rw [if_neg hnil]
  have hne : s.text ≠ [] := fun hs => hnil (h.text ▸ hs)
  by_cases hover : MAX_SSE_FRAME < s.frames.sizeWith t
  · have hoversized : s.isOversized = true := by
      simpa [SseObserver.isOversized, h.text, hnil] using hover
    have hline : Line.content ⟨t, 0⟩ ≠ [] := hnil
    obtain ⟨hskips, hpoisoned⟩ := h.discardLine.ended protocol hline (h.frames.doomed hover)
    have hend : ObservedAs malformed s.discardLine.frames.observation _ :=
      hskips.observed_end protocol hpoisoned
    have htext : s.discardLine.text = [] := rfl
    rw [if_pos hoversized, if_pos htext, endFrames]
    exact hend
  · have hfits : s.isOversized = false := by
      simpa [SseObserver.isOversized, h.text, hnil] using hover
    rw [hfits, if_neg Bool.false_ne_true, if_neg hne,
      if_pos (by rw [h.text]; exact Nat.le_of_not_lt hover), h.text]
    exact ((h.frames.line protocol ⟨t, 0⟩).ended protocol).observed

theorem Skips.settleEnd (h : Skips s r) (hpoisoned : r.Poisoned) :
    ObservedAs malformed (s.settle protocol true).frames.observation
      (endFrames protocol r).observation := by
  rw [SseObserver.settle, if_pos h.discards]
  exact h.observed_end protocol hpoisoned

/-- **The end of the stream**, where the text `u` was still to come. -/
theorem Waits.drainEnd (h : Waits malformed u s r t) {s' : SseObserver}
    (htext : s'.text = s.text ++ u) (hdiscard : s'.discardUntilBreak = s.discardUntilBreak)
    (hframes : s'.frames = s.frames) :
    ObservedAs malformed (s'.drain protocol true).frames.observation
      (endFrames protocol (r.read protocol (t ++ u).documentLines)).observation := by
  have hskips : Skips s r → Skips s' r := fun h =>
    ⟨hdiscard.trans h.discards, hframes ▸ h.poisoned, hframes ▸ h.reported, h.sound⟩
  -- what is left when the lines have been taken ends with the stream
  have hsettle : ∀ {w : SseObserver} {r : FrameReader} {t : Text}, t.nextLine? true = none →
      Waits malformed [] w r t →
      ObservedAs malformed (w.settle protocol true).frames.observation
        (endFrames protocol (r.read protocol t.lastLine)).observation := by
    intro w r t hnext hw
    cases hw with
    | follows h => exact h.settleEnd
    | skips h x hx hdoomed hbegins ht =>
      have hnil : t ≠ [] := by
        obtain ⟨c, rest, rfl, -⟩ := hbegins
        exact List.cons_ne_nil c rest
      have hline : Line.content ⟨t, 0⟩ ≠ [] := hnil
      have hdoomed : r.Doomed t 0 := ht ▸ hdoomed.append w.text
      obtain ⟨hended, hpoisoned⟩ := h.ended protocol hline hdoomed
      rw [Text.lastLine, if_neg hnil]
      exact hended.settleEnd hpoisoned
    | dropped h x hx hne hdoomed ht =>
      rw [ht, Text.nextLine?_unbroken_append hx] at hnext
      cases hnext
  rw [Text.documentLines, FrameReader.read_append, SseObserver.drain]
  cases h with
  | follows h =>
    refine hsettle (Text.nextLine?_lines true _) (.follows (Follows.takeLines
      ⟨hdiscard.trans h.keeps, ?_, hframes ▸ h.frames⟩))
    rw [htext, h.text]
  | skips h x hx hdoomed hbegins ht =>
    refine hsettle (Text.nextLine?_lines true _)
      ((hskips h).takeLines hx hdoomed (hbegins.append u) ?_)
    rw [ht, htext, List.append_assoc]
  | dropped h x hx hne hdoomed ht hnil hlater =>
    rw [hnil] at htext
    rcases u with _ | ⟨c, rest⟩
    · have hnext : (t ++ []).nextLine? true = some (⟨x ++ [], 1⟩, []) := by
        rw [List.append_nil, ht, Text.nextLine?_unbroken_append hx]
        rfl
      have hline : Line.content ⟨x ++ [], 1⟩ ≠ [] := by simpa using hne
      have hover : r.Doomed (x ++ []) 1 := by rwa [List.append_nil]
      obtain ⟨hended, hpoisoned⟩ := (hskips h).ended protocol hline hover
      rw [SseObserver.takeLines_of_none (by rw [htext]; rfl), Text.lines_of_some hnext,
        Text.lines_of_none rfl]
      exact hended.settleEnd hpoisoned
    · refine hsettle (Text.nextLine?_lines true _) ?_
      rw [ht, List.append_assoc]
      exact (hskips h).takeLines_dropped hx hne hdoomed (List.cons_ne_nil c rest) hlater htext

/-! ## Runs -/

namespace SseObserver

theorem takeLines_decoders (protocol : UsageProtocol) (final : Bool) (s : SseObserver) :
    (s.takeLines protocol final).decoder = s.decoder ∧
      (s.takeLines protocol final).utf8Validator = s.utf8Validator := by
  induction hn : s.text.length using Nat.strong_induction_on generalizing s with
  | _ n ih =>
    cases hnext : s.text.nextLine? final with
    | none => rw [takeLines_of_none hnext]; exact ⟨rfl, rfl⟩
    | some p =>
      have hline : (s.takeLine protocol p.1 p.2).decoder = s.decoder ∧
          (s.takeLine protocol p.1 p.2).utf8Validator = s.utf8Validator ∧
          (s.takeLine protocol p.1 p.2).text = p.2 := by
        unfold takeLine
        split <;> exact ⟨rfl, rfl, rfl⟩
      obtain ⟨hdecoder, hvalidator, htext⟩ := hline
      have hlength : (s.takeLine protocol p.1 p.2).text.length < n := by
        rw [htext, ← hn]
        exact Text.nextLine?_length hnext
      obtain ⟨hd, hv⟩ := ih _ hlength (s.takeLine protocol p.1 p.2) rfl
      rw [takeLines_of_some hnext]
      exact ⟨hd.trans hdecoder, hv.trans hvalidator⟩

theorem drain_decoders (protocol : UsageProtocol) (s : SseObserver) :
    (s.drain protocol false).decoder = s.decoder ∧
      (s.drain protocol false).utf8Validator = s.utf8Validator := by
  have hsettle : ∀ w : SseObserver, (w.settle protocol false).decoder = w.decoder ∧
      (w.settle protocol false).utf8Validator = w.utf8Validator := by
    intro w
    unfold settle
    split
    · exact ⟨rfl, rfl⟩
    rw [if_neg Bool.false_ne_true]
    split <;> exact ⟨rfl, rfl⟩
  obtain ⟨hd, hv⟩ := takeLines_decoders protocol false s
  exact ⟨(hsettle _).1.trans hd, (hsettle _).2.trans hv⟩

end SseObserver

/-- The observer after the slices with the given bytes, where `later` will come. -/
structure Reached (protocol : UsageProtocol) (bytes : List UInt8) (later : Text)
    (s : SseObserver) : Prop where
  decoder : s.decoder = (Utf8Decoder.new.decode bytes).1
  validator : s.utf8Validator = Utf8Decoder.new.fatalDecode bytes
  waits : Waits (Utf8Decoder.new.fatalDecode bytes = none) later s
    (FrameReader.new.read protocol ((Utf8Decoder.new.decode bytes).2.lines false).1)
    ((Utf8Decoder.new.decode bytes).2.lines false).2

variable {bytes : List UInt8} {n : Nat}

theorem Reached.validate (h : Reached protocol bytes later s) (slice : Chunk) :
    (s.validate slice).utf8Validator = Utf8Decoder.new.fatalDecode (bytes ++ slice) ∧
      (s.validate slice).decoder = s.decoder ∧
      Waits (Utf8Decoder.new.fatalDecode (bytes ++ slice) = none) later (s.validate slice)
        (FrameReader.new.read protocol ((Utf8Decoder.new.decode bytes).2.lines false).1)
        ((Utf8Decoder.new.decode bytes).2.lines false).2 := by
  have hwaits := h.waits
  unfold SseObserver.validate
  rw [h.validator, Utf8Decoder.fatalDecode_append]
  cases hbytes : Utf8Decoder.new.fatalDecode bytes with
  | none => exact ⟨rfl, rfl, (hwaits.taint rfl).transport rfl rfl rfl⟩
  | some d =>
    rw [hbytes] at hwaits
    rw [Option.bind_some]
    cases hslice : d.fatalDecode slice with
    | none => exact ⟨rfl, rfl, (hwaits.taint rfl).transport rfl rfl rfl⟩
    | some d' =>
      have hwell : (some d = none) = (some d' = none) := propext
        ⟨fun hno => absurd hno (Option.some_ne_none d),
          fun hno => absurd hno (Option.some_ne_none d')⟩
      exact ⟨rfl, rfl, hwell ▸ hwaits.transport rfl rfl rfl⟩

/-- **One slice.** -/
theorem Reached.pushSlice {slice : Chunk} {rest : List UInt8}
    (h : Reached protocol bytes (decodeRest s.decoder (slice ++ rest)) s)
    (hkeeps : ¬ s.LosesSeparator protocol slice rest) :
    Reached protocol (bytes ++ slice) (decodeRest (s.pushSlice protocol slice).decoder rest)
      (s.pushSlice protocol slice) := by
  obtain ⟨hvalidator, hdecoder, hwaits⟩ := h.validate slice
  have hreceive : ((s.validate slice).receive slice).decoder = (s.decoder.decode slice).1 := by
    rw [SseObserver.receive, hdecoder]
  obtain ⟨hd, hv⟩ := SseObserver.drain_decoders protocol ((s.validate slice).receive slice)
  rw [hreceive] at hd
  rw [decodeRest_append] at hwaits
  have hlines : Waits _ _ (((s.validate slice).receive slice).takeLines protocol false) _ _ :=
    hwaits.takeLines (by rw [SseObserver.receive, hdecoder]) rfl rfl
  have hread := Text.lines_append false (Utf8Decoder.new.decode bytes).2 (s.decoder.decode slice).2
  refine ⟨?_, hv.trans hvalidator, ?_⟩
  · rw [Utf8Decoder.decode_append, ← h.decoder]
    exact hd
  · rw [Utf8Decoder.decode_append, ← h.decoder, hread, FrameReader.read_append]
    unfold SseObserver.pushSlice
    rw [hd]
    refine hlines.settle (Text.nextLine?_lines false _) ?_
    unfold SseObserver.LosesSeparator at hkeeps
    dsimp only at hkeeps
    rwa [(SseObserver.takeLines_decoders protocol false _).1, hreceive] at hkeeps

/-- **A run over slices.** -/
theorem Reached.foldl_pushSlice {slices : List Chunk}
    (h : Reached protocol bytes (decodeRest s.decoder slices.flatten) s)
    (hkeeps : s.KeepsSeparators protocol slices) :
    Reached protocol (bytes ++ slices.flatten)
      (slices.foldl (SseObserver.pushSlice protocol) s).decoder.flush
      (slices.foldl (SseObserver.pushSlice protocol) s) := by
  induction slices generalizing s bytes with
  | nil =>
    rw [List.flatten_nil, List.append_nil]
    exact h
  | cons slice rest ih =>
    rw [List.flatten_cons] at h ⊢
    rw [← List.append_assoc]
    exact ih (h.pushSlice hkeeps.1) hkeeps.2

theorem reached_new (protocol : UsageProtocol) (later : Text) : Reached protocol [] later .new := by
  have hstart : (Text.lines false (Utf8Decoder.new.decode []).2) = ([], []) := Text.lines_of_none rfl
  refine ⟨rfl, rfl, ?_⟩
  rw [hstart]
  refine .follows ⟨rfl, rfl, ⟨.inl ⟨Option.some_ne_none _, rfl⟩, .inl rfl, ?_⟩⟩
  exact fun hover => absurd hover Bool.false_ne_true

/-- **The end of a run.** -/
theorem Reached.finish (h : Reached protocol bytes s.decoder.flush s) :
    (s.finish protocol).accumulator = observeDocument protocol bytes := by
  have hend : s.validateEnd.decoder = s.decoder ∧
      Waits (wellFormedUtf8 bytes = false) s.decoder.flush s.validateEnd
        (FrameReader.new.read protocol ((Utf8Decoder.new.decode bytes).2.lines false).1)
        ((Utf8Decoder.new.decode bytes).2.lines false).2 := by
    have hwaits := h.waits
    unfold SseObserver.validateEnd wellFormedUtf8
    rw [h.validator]
    cases hbytes : Utf8Decoder.new.fatalDecode bytes with
    | none => exact ⟨rfl, (hwaits.taint rfl).transport rfl rfl rfl⟩
    | some d =>
      rw [hbytes] at hwaits
      cases hflush : d.fatalFlush with
      | false =>
        simp only [Option.any_some, hflush]
        exact ⟨rfl, hwaits.taint trivial⟩
      | true =>
        have hwell : (some d = none) = False := eq_false (Option.some_ne_none d)
        rw [hwell] at hwaits
        simp only [Option.any_some, hflush, if_true, Bool.true_eq_false]
        exact ⟨trivial, hwaits⟩
  obtain ⟨hdecoder, hwaits⟩ := hend
  have hread := Text.documentLines_append (Utf8Decoder.new.decode bytes).2 s.decoder.flush
  have hobserved : ObservedAs (wellFormedUtf8 bytes = false)
      (({ s.validateEnd with
            text := s.validateEnd.text ++ s.validateEnd.decoder.flush }).drain protocol
          true).frames.observation
      (endFrames protocol (FrameReader.new.read protocol
        (decodeUtf8 bytes).documentLines)).observation := by
    rw [decodeUtf8, ← h.decoder, hread, FrameReader.read_append]
    exact hwaits.drainEnd (by rw [hdecoder]) rfl rfl
  have hflushed := (estimatesOnly_flushAllToolArguments.comp
    estimatesOnly_flushAllStreamedOutputText)
  unfold SseObserver.finish observeDocument
  dsimp only
  rcases hobserved with ⟨hwell, heq⟩ | ⟨hs, hreported, hwhy⟩
  · rw [heq, if_pos (by simpa using hwell)]
  · -- both estimates are tainted, so that only what was reported is left
    have hwhole : ∀ o : Observation, (wellFormedUtf8 bytes = false ∨ o.Tainted) →
        (if wellFormedUtf8 bytes then o else taintOutputEstimate o).Tainted ∧
          (if wellFormedUtf8 bytes then o else taintOutputEstimate o).reported = o.reported := by
      intro o ho
      cases hutf8 : wellFormedUtf8 bytes with
      | true => exact ⟨ho.resolve_left (by rw [hutf8]; decide), rfl⟩
      | false => exact ⟨taintOutputEstimate_tainted o, estimatesOnly_taint.reported o⟩
    obtain ⟨htainted, heq⟩ := hwhole _ hwhy
    rw [(hflushed.tainted _ hs).accumulator_eq, (hflushed.tainted _ htainted).accumulator_eq,
      hflushed.reported, hflushed.reported, heq, hreported]

theorem flatten_decodeSlices (bytes : Chunk) : (decodeSlices bytes).flatten = bytes := by
  induction hn : bytes.length using Nat.strong_induction_on generalizing bytes with
  | _ n ih =>
    rw [decodeSlices]
    split
    · rename_i hnil
      rw [hnil]
      rfl
    · rename_i hne
      have hpos := List.length_pos_iff.mpr hne
      have hshorter : (bytes.drop MAX_DECODE_SLICE).length < n := by
        rw [List.length_drop, MAX_DECODE_SLICE]
        omega
      rw [List.flatten_cons, ih _ hshorter _ rfl, List.take_append_drop]

theorem flatten_slicesOf (chunks : List Chunk) : (slicesOf chunks).flatten = chunks.flatten := by
  induction chunks with
  | nil => rfl
  | cons chunk rest ih =>
    rw [slicesOf, List.flatMap_cons, List.flatten_append, flatten_decodeSlices]
    exact congrArg (chunk ++ ·) ih

theorem foldl_push (protocol : UsageProtocol) (chunks : List Chunk) (s : SseObserver) :
    chunks.foldl (SseObserver.push protocol) s
      = (slicesOf chunks).foldl (SseObserver.pushSlice protocol) s := by
  rw [slicesOf, List.foldl_flatMap]
  rfl

/-- **All chunks of a stream**: what the observer finds is read off the bytes. -/
theorem observeSse_eq_observeDocument {chunks : List Chunk}
    (h : SseObserver.new.KeepsSeparators protocol (slicesOf chunks)) :
    observeSse protocol chunks = observeDocument protocol chunks.flatten := by
  rw [observeSse, foldl_push, ← flatten_slicesOf]
  exact ((reached_new protocol _).foldl_pushSlice h).finish

/-- **Two ways to cut one stream**: where no slice loses a blank line, what is known of the usage
is the same. -/
theorem observeSse_chunk_invariant {chunks chunks' : List Chunk}
    (hbytes : chunks.flatten = chunks'.flatten)
    (h : SseObserver.new.KeepsSeparators protocol (slicesOf chunks))
    (h' : SseObserver.new.KeepsSeparators protocol (slicesOf chunks')) :
    observeSse protocol chunks = observeSse protocol chunks' := by
  rw [observeSse_eq_observeDocument h, observeSse_eq_observeDocument h', hbytes]

/-- The bytes of an ASCII string. -/
def asciiBytes (s : String) : Chunk :=
  (text s).map (·.toUInt8)

/-- An event that reports seven output tokens. -/
def usageEvent : Chunk :=
  asciiBytes
    "data: \x7b\"type\":\"message_delta\",\"usage\":\x7b\"output_tokens\":7\x7d\x7d\r\n\r\n"

/-- An event that is cut between the CR and the LF of its blank line. -/
theorem usageEvent_cut_is_whole :
    observeSse .anthropicMessages [usageEvent.dropLast, [0x0A]]
      = observeSse .anthropicMessages [usageEvent] :=
  observeSse_chunk_invariant (by decide) (by decide +kernel) (by decide +kernel)

/-! ## A lost blank line -/

/-- A decoder between two characters, after the first. -/
def betweenCharacters : Utf8Decoder :=
  ⟨0, 0, 0x80, 0xBF, true⟩

/-- The letter `a`, as often as given. -/
def letters (n : Nat) : Text :=
  List.replicate n 0x61

/-- The bytes of `letters`. -/
def letterBytes (n : Nat) : Chunk :=
  List.replicate n 0x61

theorem decode_letterBytes (n : Nat) :
    betweenCharacters.decode (letterBytes n) = (betweenCharacters, letters n) := by
  induction n with
  | zero => rfl
  | succ n ih =>
    have hcons : letterBytes (n + 1) = [0x61] ++ letterBytes n := rfl
    have hfirst : betweenCharacters.decode [0x61] = (betweenCharacters, [0x61]) := by decide
    rw [hcons, Utf8Decoder.decode_append, hfirst, ih]
    rfl

theorem fatalDecode_letterBytes (n : Nat) :
    betweenCharacters.fatalDecode (letterBytes n) = some betweenCharacters := by
  induction n with
  | zero => rfl
  | succ n ih =>
    exact ih

theorem unbroken_letters (n : Nat) : (letters n).Unbroken := by
  intro c hc
  rw [List.eq_of_mem_replicate hc]
  decide

theorem length_encodeUtf8_letters (n : Nat) : (encodeUtf8 (letters n)).length = n := by
  have hpoints : codePoints (letters n) = List.replicate n 0x61 := by
    induction n with
    | zero => rfl
    | succ n ih =>
      rw [letters, List.replicate_succ, codePoints_plain (by decide)]
      exact congrArg (0x61 :: ·) ih
  rw [encodeUtf8, hpoints]
  simp [encodeCodePoint]

theorem decodeSlices_of_length_le {bytes : Chunk} (hne : bytes ≠ [])
    (h : bytes.length ≤ MAX_DECODE_SLICE) : decodeSlices bytes = [bytes] := by
  rw [decodeSlices, dif_neg hne, List.take_of_length_le h, List.drop_of_length_le h, decodeSlices,
    dif_pos rfl]

/-- The observer in a line of `n` letters. -/
def inLetters (n : Nat) : SseObserver :=
  ⟨betweenCharacters, some betweenCharacters, letters n, false, .new⟩

theorem push_letterBytes (protocol : UsageProtocol) {k : Nat} (hk : 0 < k)
    (hslice : k ≤ MAX_DECODE_SLICE) (hfits : n + k ≤ MAX_SSE_FRAME) :
    (inLetters n).push protocol (letterBytes k) = inLetters (n + k) := by
  have hne : letterBytes k ≠ [] := by
    rw [letterBytes, Ne, List.replicate_eq_nil_iff]
    omega
  have hreceive : ((inLetters n).validate (letterBytes k)).receive (letterBytes k)
      = inLetters (n + k) := by
    have hvalidate : (inLetters n).validate (letterBytes k) = inLetters n := by
      rw [SseObserver.validate, inLetters, Option.bind_some, fatalDecode_letterBytes]
    rw [hvalidate, SseObserver.receive, inLetters, decode_letterBytes]
    simp [inLetters, letters]
  have hsettled : (inLetters (n + k)).isOversized = false := by
    have hsize : (inLetters (n + k)).frames.sizeWith (letters (n + k)) = n + k := by
      rw [FrameReader.sizeWith, length_encodeUtf8_letters]
      exact Nat.zero_add _
    have hle : ¬ MAX_SSE_FRAME
        < (inLetters (n + k)).frames.sizeWith (inLetters (n + k)).text := by
      change ¬ MAX_SSE_FRAME < (inLetters (n + k)).frames.sizeWith (letters (n + k))
      omega
    rw [SseObserver.isOversized, decide_eq_false hle, Bool.and_false]
  rw [SseObserver.push, decodeSlices_of_length_le hne (by rwa [letterBytes, List.length_replicate]),
    List.foldl_cons, SseObserver.pushSlice, hreceive, SseObserver.drain,
    SseObserver.takeLines_of_none (Text.nextLine?_of_unbroken (unbroken_letters _) false),
    SseObserver.settle, hsettled]
  rfl

theorem foldl_push_letterBytes (protocol : UsageProtocol) {ks : List Nat}
    (hks : ∀ k ∈ ks, 0 < k ∧ k ≤ MAX_DECODE_SLICE) (hfits : n + ks.sum ≤ MAX_SSE_FRAME) :
    (ks.map letterBytes).foldl (SseObserver.push protocol) (inLetters n)
      = inLetters (n + ks.sum) := by
  induction ks generalizing n with
  | nil => rfl
  | cons k ks ih =>
    rw [List.sum_cons, ← Nat.add_assoc] at hfits
    obtain ⟨hk, hslice⟩ := hks k (List.mem_cons_self ..)
    rw [List.map_cons, List.foldl_cons, push_letterBytes protocol hk hslice (by omega),
      ih (fun j hj => hks j (List.mem_cons_of_mem _ hj)) hfits, List.sum_cons, Nat.add_assoc]

/-- The observer after an oversized line, with further text. -/
def afterOversized (t : Text) : SseObserver :=
  ⟨betweenCharacters, some betweenCharacters, t, false,
    FrameReader.new.exceed ⟨none, [], MAX_SSE_FRAME + 2, false⟩⟩

theorem processSseLine_letters (protocol : UsageProtocol) (hn : 0 < n)
    (hover : MAX_SSE_FRAME < n + 2) :
    processSseLine protocol .new ⟨letters n, 2⟩
      = FrameReader.new.exceed ⟨none, [], n + 2, false⟩ := by
  have hsize : FrameReader.new.sizeWith (letters n) = n := by
    rw [FrameReader.sizeWith, length_encodeUtf8_letters]
    exact Nat.zero_add _
  have hne : letters n ≠ [] := by
    rw [letters, Ne, List.replicate_eq_nil_iff]
    omega
  rw [processSseLine, hsize, if_neg hne]
  exact if_pos hover

theorem SseObserver.takeLine_of_keeps (h : s.discardUntilBreak = false) (protocol : UsageProtocol)
    (line : Line) (rest : Text) :
    s.takeLine protocol line rest
      = { s with text := rest, frames := processSseLine protocol s.frames line } := by
  rw [SseObserver.takeLine, if_neg (by rw [h]; exact Bool.false_ne_true)]

theorem push_lineBreak (protocol : UsageProtocol) {tail : Chunk}
    (hshort : tail.length + 2 ≤ MAX_DECODE_SLICE)
    (htext : betweenCharacters.decode tail = (betweenCharacters, t))
    (hutf8 : betweenCharacters.fatalDecode tail = some betweenCharacters) :
    (inLetters MAX_SSE_FRAME).push protocol (0x0D :: 0x0A :: tail)
      = (afterOversized t).drain protocol false := by
  have hcrlf : (0x0D :: 0x0A :: tail : Chunk) = [0x0D, 0x0A] ++ tail := rfl
  have hdecode : betweenCharacters.decode [0x0D, 0x0A] = (betweenCharacters, [cr, lf]) := by decide
  have hfatal : betweenCharacters.fatalDecode [0x0D, 0x0A] = some betweenCharacters := by decide
  have hreceive : ((inLetters MAX_SSE_FRAME).validate (0x0D :: 0x0A :: tail)).receive
      (0x0D :: 0x0A :: tail)
      = { inLetters MAX_SSE_FRAME with text := letters MAX_SSE_FRAME ++ cr :: lf :: t } := by
    have hvalidate : (inLetters MAX_SSE_FRAME).validate (0x0D :: 0x0A :: tail)
        = inLetters MAX_SSE_FRAME := by
      rw [SseObserver.validate, inLetters, Option.bind_some, hcrlf,
        Utf8Decoder.fatalDecode_append, hfatal, Option.bind_some, hutf8]
    rw [hvalidate, SseObserver.receive, inLetters, hcrlf, Utf8Decoder.decode_append, hdecode, htext]
    rfl
  have hnext : Text.nextLine? false (letters MAX_SSE_FRAME ++ cr :: lf :: t)
      = some (⟨letters MAX_SSE_FRAME, 2⟩, t) := by
    have hbreak : Text.nextLine? false (cr :: lf :: t) = some (⟨[], 2⟩, t) := rfl
    rw [Text.nextLine?_unbroken_append (unbroken_letters _), hbreak, Option.map_some,
      List.append_nil]
  have hpos : 0 < MAX_SSE_FRAME := by decide
  have hover : MAX_SSE_FRAME < MAX_SSE_FRAME + 2 := Nat.lt_add_of_pos_right Nat.zero_lt_two
  rw [SseObserver.push, decodeSlices_of_length_le (List.cons_ne_nil _ _)
    (show (0x0D :: 0x0A :: tail : Chunk).length ≤ MAX_DECODE_SLICE from hshort), List.foldl_cons, SseObserver.pushSlice, hreceive,
    SseObserver.drain,
    SseObserver.takeLines_of_some
      (s := { inLetters MAX_SSE_FRAME with text := letters MAX_SSE_FRAME ++ cr :: lf :: t }) hnext,
    SseObserver.takeLine_of_keeps rfl, inLetters, processSseLine_letters protocol hpos hover]
  rfl

/-- A line that fills a frame, cut into chunks. -/
def fullLine : List Chunk :=
  letterBytes 1 :: [4095, 4096, 4096, 4096].map letterBytes

theorem push_fullLine (protocol : UsageProtocol) :
    fullLine.foldl (SseObserver.push protocol) .new = inLetters MAX_SSE_FRAME := by
  have hfirst : SseObserver.new.push protocol (letterBytes 1) = inLetters 1 := by
    cases protocol <;> decide +kernel
  rw [fullLine, List.foldl_cons, hfirst, foldl_push_letterBytes protocol (by decide) (by decide)]
  exact congrArg inLetters (by decide)

theorem observeSse_fullLine (protocol : UsageProtocol) {tail : Chunk}
    (hshort : tail.length + 2 ≤ MAX_DECODE_SLICE)
    (htext : betweenCharacters.decode tail = (betweenCharacters, t))
    (hutf8 : betweenCharacters.fatalDecode tail = some betweenCharacters) (later : List Chunk) :
    observeSse protocol (fullLine ++ (0x0D :: 0x0A :: tail) :: later)
      = ((later.foldl (SseObserver.push protocol)
          ((afterOversized t).drain protocol false)).finish protocol).accumulator := by
  rw [observeSse, List.foldl_append, push_fullLine, List.foldl_cons,
    push_lineBreak protocol hshort htext hutf8]

/-- An oversized line and an event, cut between the CR and the LF of the blank line. -/
def cutAfterCr : List Chunk :=
  fullLine ++ [asciiBytes "\r\n\r", asciiBytes "\n" ++ usageEvent]

/-- The same bytes, cut after the oversized line. -/
def cutAfterLine : List Chunk :=
  fullLine ++ [asciiBytes "\r\n\r\n" ++ usageEvent]

/-- A blank line that is cut after its CR is lost behind an oversized line, and the usage of the
next event with it. -/
theorem lost_separator_hides_usage :
    cutAfterCr.flatten = cutAfterLine.flatten ∧
      (observeSse .anthropicMessages cutAfterCr).outputTokens = none ∧
      (observeSse .anthropicMessages cutAfterLine).outputTokens = some 7 := by
  have hcut : asciiBytes "\r\n\r" = 0x0D :: 0x0A :: asciiBytes "\r" := by decide
  have hwhole : asciiBytes "\r\n\r\n" ++ usageEvent
      = 0x0D :: 0x0A :: (asciiBytes "\r\n" ++ usageEvent) := by decide
  have hcutText : betweenCharacters.decode (asciiBytes "\r") = (betweenCharacters, [cr]) := by
    decide
  have hwholeText : betweenCharacters.decode (asciiBytes "\r\n" ++ usageEvent)
      = (betweenCharacters, (asciiBytes "\r\n" ++ usageEvent).map (·.toUInt16)) := by
    decide +kernel
  have hbytes : [asciiBytes "\r\n\r", asciiBytes "\n" ++ usageEvent].flatten
      = [asciiBytes "\r\n\r\n" ++ usageEvent].flatten := by decide
  refine ⟨?_, ?_, ?_⟩
  · rw [cutAfterCr, cutAfterLine, List.flatten_append, List.flatten_append, hbytes]
  · rw [cutAfterCr, hcut, observeSse_fullLine _ (by decide) hcutText (by decide)]
    decide +kernel
  · rw [cutAfterLine, hwhole,
      observeSse_fullLine _ (by decide +kernel) hwholeText (by decide +kernel)]
    decide +kernel

end LlmRelay
