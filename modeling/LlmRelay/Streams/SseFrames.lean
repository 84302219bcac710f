import LlmRelay.Ecma.Text

/-!
# SSE frames

The frame splitter shared by the stream modules (`sse-frames.ts`). A frame ends
at the leftmost `/\r?\n\r?\n/`; text is appended as it is decoded, and complete
frames are taken from the front of the buffer.

## Main definitions

* `separator?`, `findSseBoundary`: a separator at the head of a text, and the
  leftmost one in it;
* `BufferedSseFrames`: the buffer, with `append`, `next` and `takeRemainder`;
* `BufferedSseFrames.drain`: every complete frame of the buffer, and what is left;
* `FrameCall`, `BufferedSseFrames.calls`: appends and requests for the next frame, in
  any order;
* `sseEventFields`: the raw `event:` and `data:` values of a frame.

## Main results

* `findSseBoundary_append`: a boundary once found stays where it is;
* `drain_append`: draining after every append finds the frames of the whole text;
* `frame_calls_invariant`: in whatever pieces a text is appended, and whenever frames
  are asked for, the frames and the remainder are those of a single append.
-/

namespace LlmRelay

open Ecma

/-! ## Boundaries -/

/-- A line end `/\r?\n/` at the head of a text, and what follows it. -/
def lineEnd? : Text → Option (Text × Text)
  | [] => none
  | c :: rest =>
    if c = lf then some ([lf], rest)
    else if c = cr then
      match rest with
      | [] => none
      | d :: rest => if d = lf then some ([cr, lf], rest) else none
    else none

/-- A separator `/\r?\n\r?\n/` at the head of a text, and what follows it. -/
def separator? (t : Text) : Option (Text × Text) :=
  match lineEnd? t with
  | none => none
  | some (a, t) => (lineEnd? t).map fun p => (a ++ p.1, p.2)

/-- The position of a separator, and the separator. -/
structure SseBoundary where
  index : Nat
  separator : Text
  deriving DecidableEq, Repr

/-- The leftmost separator of a text. -/
def findSseBoundary : Text → Option SseBoundary
  | [] => none
  | c :: t =>
    match separator? (c :: t) with
    | some (sep, _) => some ⟨0, sep⟩
    | none => (findSseBoundary t).map fun b => ⟨b.index + 1, b.separator⟩

variable {t : Text} {b : SseBoundary}

theorem lineEnd?_append {a r : Text} (h : lineEnd? t = some (a, r)) (u : Text) :
    lineEnd? (t ++ u) = some (a, r ++ u) ∧ t = a ++ r ∧ a ≠ [] := by
  match t, h with
  | c :: t, h =>
    simp only [lineEnd?, List.cons_append] at h ⊢
    by_cases hl : c = lf
    · simp only [hl] at h ⊢
      obtain ⟨rfl, rfl⟩ := h
      simp
    · by_cases hc : c = cr
      · simp only [hc, show cr ≠ lf by decide] at h ⊢
        cases t with
        | nil => cases h
        | cons d t =>
          by_cases hd : d = lf
          · simp only [hd] at h ⊢
            obtain ⟨rfl, rfl⟩ := h
            simp
          · simp [hd] at h
      · simp [hl, hc] at h

theorem separator?_append {sep r : Text} (h : separator? t = some (sep, r)) (u : Text) :
    separator? (t ++ u) = some (sep, r ++ u) ∧ t = sep ++ r ∧ sep ≠ [] := by
  unfold separator? at h ⊢
  cases ha : lineEnd? t with
  | none => simp [ha] at h
  | some p =>
    obtain ⟨h1, ht, ha'⟩ := lineEnd?_append ha u
    simp only [ha] at h
    obtain ⟨⟨b, r'⟩, hb, hbr⟩ := Option.map_eq_some_iff.mp h
    obtain ⟨h2, ht', -⟩ := lineEnd?_append hb u
    obtain ⟨rfl, rfl⟩ := hbr
    simp only [h1, h2, Option.map_some]
    exact ⟨trivial, by rw [ht, ht', List.append_assoc], by simp [ha']⟩

theorem findSseBoundary_spec (h : findSseBoundary t = some b) :
    ∃ r, separator? (t.drop b.index) = some (b.separator, r)
      ∧ t = t.take b.index ++ b.separator ++ r ∧ b.index < t.length := by
  induction t generalizing b with
  | nil => cases h
  | cons c t ih =>
    rw [findSseBoundary] at h
    cases hs : separator? (c :: t) with
    | some p =>
      obtain ⟨sep, r⟩ := p
      simp only [hs, Option.some.injEq] at h
      subst h
      obtain ⟨-, ht, -⟩ := separator?_append hs []
      exact ⟨r, by simpa using hs, by simpa using ht, by simp⟩
    | none =>
      simp only [hs] at h
      obtain ⟨b', hb', rfl⟩ := Option.map_eq_some_iff.mp h
      obtain ⟨r, h1, h2, h3⟩ := ih hb'
      refine ⟨r, by simpa using h1, ?_, by simpa using h3⟩
      rw [List.take_succ_cons, List.cons_append, List.cons_append, ← h2]

/-- A text that has no line end at its head gets one by growing only when it is
empty or a lone carriage return. -/
theorem lineEnd?_append_of_none (h : lineEnd? t = none) (hnil : t ≠ []) (hcr : t ≠ [cr]) (u : Text) :
    lineEnd? (t ++ u) = none := by
  match t with
  | [] => exact absurd rfl hnil
  | [c] =>
    by_cases hl : c = lf <;> simp_all [lineEnd?]
  | c :: d :: t =>
    simp only [lineEnd?] at h ⊢
    by_cases hl : c = lf
    · simp [hl] at h
    · by_cases hc : c = cr <;> by_cases hd : d = lf <;> simp_all

/-- A text that holds a boundary has more than one code unit, and is not a line
feed before a carriage return. -/
theorem ne_of_findSseBoundary (h : findSseBoundary t = some b) :
    t ≠ [] ∧ (∀ c, t ≠ [c]) ∧ t ≠ [lf, cr] := by
  refine ⟨?_, ?_, ?_⟩
  · rintro rfl
    cases h
  · rintro c rfl
    by_cases hl : c = lf <;> by_cases hc : c = cr <;>
      simp_all [findSseBoundary, separator?, lineEnd?]
  · rintro rfl
    cases h

theorem separator?_append_of_none {c : CodeUnit} (hn : separator? (c :: t) = none)
    (hb : findSseBoundary t = some b) (u : Text) : separator? (c :: t ++ u) = none := by
  obtain ⟨hnil, hone, hlc⟩ := ne_of_findSseBoundary hb
  unfold separator? at hn ⊢
  cases ha : lineEnd? (c :: t) with
  | none =>
    have hne : c :: t ≠ [cr] := by simpa using fun _ => hnil
    rw [lineEnd?_append_of_none ha (by simp) hne u]
  | some p =>
    obtain ⟨a, r⟩ := p
    obtain ⟨h1, hr, -⟩ := lineEnd?_append ha u
    simp only [ha, Option.map_eq_none_iff] at hn
    -- the rest is `t`, or `t` without the line feed after a carriage return
    have hrest : r = t ∨ t = lf :: r := by
      simp only [lineEnd?] at ha
      by_cases hl : c = lf
      · simp_all
      · cases t with
        | nil => exact absurd rfl hnil
        | cons d t => by_cases hc : c = cr <;> by_cases hd : d = lf <;> simp_all
    have hr1 : r ≠ [] := by
      rintro rfl
      rcases hrest with h | h
      · exact hnil h.symm
      · exact hone lf h
    have hr2 : r ≠ [cr] := by
      rintro rfl
      rcases hrest with h | h
      · exact hone cr h.symm
      · exact hlc h
    simp only [h1, lineEnd?_append_of_none hn hr1 hr2 u, Option.map_none]

/-- **A boundary once found stays where it is.** -/
theorem findSseBoundary_append (h : findSseBoundary t = some b) (u : Text) :
    findSseBoundary (t ++ u) = some b := by
  induction t generalizing b with
  | nil => cases h
  | cons c t ih =>
    rw [findSseBoundary] at h
    cases hs : separator? (c :: t) with
    | some p =>
      obtain ⟨h1, -, -⟩ := separator?_append hs u
      simp only [hs] at h
      rw [List.cons_append] at h1 ⊢
      rw [findSseBoundary, h1]
      exact h
    | none =>
      simp only [hs] at h
      obtain ⟨b', hb', rfl⟩ := Option.map_eq_some_iff.mp h
      have h1 := separator?_append_of_none hs hb' u
      rw [List.cons_append] at h1 ⊢
      rw [findSseBoundary, h1, ih hb']
      rfl

/-! ## The frame buffer -/

/-- A complete frame. -/
structure SseFrame where
  frame : Text
  separator : Text
  raw : Text
  deriving DecidableEq, Repr

/-- The buffer of decoded text. -/
structure BufferedSseFrames where
  buffered : Text
  deriving DecidableEq, Repr

namespace BufferedSseFrames

/-- An empty buffer. -/
def new : BufferedSseFrames :=
  ⟨[]⟩

/-- Appends decoded text. -/
def append (f : BufferedSseFrames) (value : Text) : BufferedSseFrames :=
  ⟨f.buffered ++ value⟩

/-- The next complete frame, if one is buffered. -/
def next (f : BufferedSseFrames) : Option (SseFrame × BufferedSseFrames) :=
  match findSseBoundary f.buffered with
  | none => none
  | some boundary =>
    let stop := boundary.index + boundary.separator.length
    some (⟨f.buffered.take boundary.index, boundary.separator, f.buffered.take stop⟩,
      ⟨f.buffered.drop stop⟩)

/-- Releases the incomplete last frame. -/
def takeRemainder (f : BufferedSseFrames) (value : Text) : Text × BufferedSseFrames :=
  (f.buffered ++ value, ⟨[]⟩)

variable {f f' : BufferedSseFrames} {frame : SseFrame}

theorem next_spec (h : f.next = some (frame, f')) :
    f.buffered = frame.raw ++ f'.buffered ∧ frame.raw = frame.frame ++ frame.separator
      ∧ frame.raw ≠ [] := by
  unfold next at h
  cases hb : findSseBoundary f.buffered with
  | none => simp [hb] at h
  | some b =>
    simp only [hb] at h
    obtain ⟨rfl, rfl⟩ := h
    obtain ⟨r, hs, hsplit, hlt⟩ := findSseBoundary_spec hb
    obtain ⟨-, hdrop, hne⟩ := separator?_append hs []
    have hraw : f.buffered.take (b.index + b.separator.length)
        = f.buffered.take b.index ++ b.separator := by
      rw [List.take_add, hdrop, List.take_left]
    exact ⟨(List.take_append_drop _ _).symm, hraw, by simp [hraw, hne]⟩

theorem next_length (h : f.next = some (frame, f')) : f'.buffered.length < f.buffered.length := by
  obtain ⟨hsplit, -, hne⟩ := next_spec h
  have := List.length_pos_iff.mpr hne
  rw [hsplit, List.length_append]
  omega

/-- Every complete frame of the buffer, and the buffer they leave. -/
def drain (f : BufferedSseFrames) : List SseFrame × BufferedSseFrames :=
  match _h : f.next with
  | none => ([], f)
  | some (frame, f') =>
    let later := drain f'
    (frame :: later.1, later.2)
termination_by f.buffered.length
decreasing_by exact next_length _h

theorem drain_of_none (h : f.next = none) : f.drain = ([], f) := by
  rw [drain]
  split
  · rfl
  · rename_i hs
    rw [h] at hs
    cases hs

theorem drain_of_some (h : f.next = some (frame, f')) :
    f.drain = (frame :: f'.drain.1, f'.drain.2) := by
  rw [drain]
  split
  · rename_i hs
    rw [h] at hs
    cases hs
  · rename_i hs
    rw [h] at hs
    cases hs
    rfl

theorem next_append (h : f.next = some (frame, f')) (u : Text) :
    (f.append u).next = some (frame, f'.append u) := by
  unfold next at h ⊢
  cases hb : findSseBoundary f.buffered with
  | none => simp [hb] at h
  | some b =>
    obtain ⟨r, -, -, hlt⟩ := findSseBoundary_spec hb
    simp only [hb] at h
    obtain ⟨rfl, rfl⟩ := h
    have hlen : b.index + b.separator.length ≤ f.buffered.length := by
      obtain ⟨r, hs, hsp, -⟩ := findSseBoundary_spec hb
      have h1 := congrArg List.length hsp
      simp only [List.length_append, List.length_take] at h1
      omega
    have h1 : (f.append u).buffered = f.buffered ++ u := rfl
    rw [h1, findSseBoundary_append hb u]
    simp only [append, Option.some.injEq, Prod.mk.injEq]
    rw [List.take_append_of_le_length (by omega), List.take_append_of_le_length hlen,
      List.drop_append_of_le_length hlen]
    simp

/-- **Draining after every append finds the frames of the whole text.** -/
theorem drain_append (f : BufferedSseFrames) (u : Text) :
    (f.append u).drain
      = (f.drain.1 ++ (f.drain.2.append u).drain.1, (f.drain.2.append u).drain.2) := by
  induction hn : f.buffered.length using Nat.strong_induction_on generalizing f with
  | _ n ih =>
    cases hf : f.next with
    | none => simp [drain_of_none hf]
    | some p =>
      obtain ⟨frame, f'⟩ := p
      have hlt := next_length hf
      rw [drain_of_some (next_append hf u), drain_of_some hf,
        ih f'.buffered.length (hn ▸ hlt) f' rfl]
      simp

theorem drain_raw (f : BufferedSseFrames) :
    f.buffered = f.drain.1.flatMap SseFrame.raw ++ f.drain.2.buffered := by
  induction hn : f.buffered.length using Nat.strong_induction_on generalizing f with
  | _ n ih =>
    cases hf : f.next with
    | none => simp [drain_of_none hf]
    | some p =>
      obtain ⟨frame, f'⟩ := p
      obtain ⟨hsplit, -, -⟩ := next_spec hf
      rw [drain_of_some hf, hsplit, List.flatMap_cons, List.append_assoc,
        ← ih f'.buffered.length (hn ▸ next_length hf) f' rfl]

end BufferedSseFrames

/-! ## Appends and requests in any order -/

/-- What a caller does with a buffer between its creation and its end. -/
inductive FrameCall
  | append (value : Text)
  | next
  deriving DecidableEq, Repr

/-- The text a call appends. -/
def FrameCall.value : FrameCall → Text
  | .append value => value
  | .next => []

namespace BufferedSseFrames

/-- The frame a call yields, if any, and the buffer it leaves. -/
def call (f : BufferedSseFrames) : FrameCall → List SseFrame × BufferedSseFrames
  | .append value => ([], f.append value)
  | .next =>
    match f.next with
    | none => ([], f)
    | some (frame, f') => ([frame], f')

/-- The frames a sequence of calls yields, and the buffer it leaves. -/
def calls (f : BufferedSseFrames) : List FrameCall → List SseFrame × BufferedSseFrames
  | [] => ([], f)
  | c :: cs =>
    let later := (f.call c).2.calls cs
    ((f.call c).1 ++ later.1, later.2)

variable (f : BufferedSseFrames)

@[simp]
theorem append_nil : f.append [] = f := by
  simp [append]

theorem append_append (t u : Text) : (f.append t).append u = f.append (t ++ u) := by
  simp [append]

theorem call_drain (c : FrameCall) (u : Text) :
    (f.append (c.value ++ u)).drain
      = ((f.call c).1 ++ ((f.call c).2.append u).drain.1, ((f.call c).2.append u).drain.2) := by
  cases c with
  | append value => simp only [FrameCall.value, call, append_append, List.nil_append]
  | next =>
    simp only [FrameCall.value, call, List.nil_append]
    cases hf : f.next with
    | none => rfl
    | some p =>
      -- the frame is complete already, so text appended later does not change it
      rw [drain_of_some (next_append hf u)]
      rfl

theorem calls_drain (cs : List FrameCall) :
    (f.append (cs.flatMap FrameCall.value)).drain
      = ((f.calls cs).1 ++ (f.calls cs).2.drain.1, (f.calls cs).2.drain.2) := by
  induction cs generalizing f with
  | nil => simp [calls]
  | cons c cs ih =>
    rw [List.flatMap_cons, call_drain, ih]
    simp only [calls, List.append_assoc]

/-- **Frame buffering is chunk invariant and lossless.** In whatever pieces a text is
appended, and whenever frames are asked for in between, the frames of the whole use of
a buffer and its remainder are those of a single append, and together they are the
text. -/
theorem frame_calls_invariant (cs : List FrameCall) (tail : Text) :
    let whole := (new.append (cs.flatMap FrameCall.value)).drain
    let run := new.calls cs
    run.1 ++ run.2.drain.1 = whole.1
      ∧ run.2.drain.2.takeRemainder tail = whole.2.takeRemainder tail
      ∧ (run.1 ++ run.2.drain.1).flatMap SseFrame.raw ++ (run.2.drain.2.takeRemainder tail).1
          = cs.flatMap FrameCall.value ++ tail := by
  intro whole run
  have hwhole : whole = (run.1 ++ run.2.drain.1, run.2.drain.2) := calls_drain new cs
  refine ⟨by rw [hwhole], by rw [hwhole], ?_⟩
  have hraw := drain_raw (new.append (cs.flatMap FrameCall.value))
  rw [show (new.append (cs.flatMap FrameCall.value)).drain = whole from rfl, hwhole] at hraw
  show _ ++ (run.2.drain.2.buffered ++ tail) = _
  rw [← List.append_assoc]
  exact congrArg (· ++ tail) hraw.symm

end BufferedSseFrames

/-! ## Event fields -/

/-- The raw values of the `event:` and `data:` lines of a frame. -/
structure SseEventFields where
  eventLines : List Text
  dataLines : List Text
  deriving DecidableEq, Repr

/-- The field values of a frame, in order. -/
def sseEventFields (frame : Text) : SseEventFields :=
  let lines := frame.splitLines
  { eventLines := (lines.filter (·.startsWith (text "event:"))).map (·.drop 6)
    dataLines := (lines.filter fun l => !l.startsWith (text "event:")
      && l.startsWith (text "data:")).map (·.drop 5) }

end LlmRelay
