import LlmRelay.Ecma.Occurrences
import LlmRelay.Ecma.Utf8

/-!
# Opening think tags

A message may open with a `<think>` element, which the relay strips (`think-tags.ts`). The
filter holds the text back until the element is complete, or until it cannot become one any
more; then everything that was held is released. Two bounds limit what is held: one for the
white space and the tag, one for the whole element.

## Main definitions

* `ThinkTagStripFilter`, with `push` and `flush`: the filter;
* `stripOpeningThinkTag`: the filter on a whole text;
* `OpeningElement`, `element`: an element that is stripped;
* `Strips`: what a text becomes.

## Main results

* `ThinkTagStripFilter.Follows`: the filter between two deltas, and its step lemma;
* `think_strip_chunk_invariant`: the outputs are those of the whole text, which loses exactly
  its opening element where it has one.
-/

namespace LlmRelay

open Ecma

def OPEN_TAG : Text := text "<think>"

def CLOSE_TAG : Text := text "</think>"

def MAX_THINK_LEAD_BYTES : Nat := 512

def MAX_THINK_HELD_BYTES : Nat := 64 * 1024

/-- The longest strict prefix of a marker. -/
def MARKER_HOLDBACK : Nat := CLOSE_TAG.length - 1

/-- `Buffer.byteLength`. -/
def byteLength (t : Text) : Nat :=
  (encodeUtf8 t).length

inductive FilterState where
  | passThrough
  | leadHold
  | insideThink
  | done
  deriving DecidableEq, Repr

def FLUSH_RELEASES_HELD : FilterState → Bool
  | .leadHold | .insideThink => true
  | .passThrough | .done => false

structure ThinkTagStripFilter where
  state : FilterState
  held : Text
  bodyStart : Nat
  scanFrom : Nat
  deriving DecidableEq, Repr

/-- `held.search(/\S/)`; absent where the method answers `-1`. -/
def searchNonWhitespace (t : Text) : Option Nat :=
  t.findIdx? fun c => !isWhitespace c

namespace ThinkTagStripFilter

def new : ThinkTagStripFilter :=
  ⟨.leadHold, [], 0, 0⟩

def releaseLosslessly (f : ThinkTagStripFilter) : Text × ThinkTagStripFilter :=
  (f.held, { f with held := [], state := .passThrough })

/-- A tag opens before the first close tag, if there is one. -/
def nestedFirst (nested close : Option Nat) : Bool :=
  match nested, close with
  | some nested, some close => decide (nested < close)
  | some _, none => true
  | none, _ => false

def inspectThink (f : ThinkTagStripFilter) : Text × ThinkTagStripFilter :=
  let nested := f.held.indexOfFrom OPEN_TAG f.scanFrom
  let close := f.held.indexOfFrom CLOSE_TAG f.scanFrom
  if nestedFirst nested close then f.releaseLosslessly
  else
    match close with
    | some close =>
      let closeEnd := close + CLOSE_TAG.length
      if MAX_THINK_HELD_BYTES < byteLength (f.held.take closeEnd) then f.releaseLosslessly
      else (f.held.drop closeEnd, { f with held := [], state := .done })
    | none =>
      if MAX_THINK_HELD_BYTES < byteLength f.held then f.releaseLosslessly
      else ([], { f with scanFrom := max f.bodyStart (f.held.length - MARKER_HOLDBACK) })

def decideLead (f : ThinkTagStripFilter) : Text × ThinkTagStripFilter :=
  match searchNonWhitespace f.held with
  | none =>
    if MAX_THINK_LEAD_BYTES < byteLength f.held then f.releaseLosslessly else ([], f)
  | some firstNonWhitespace =>
    let candidate : Text := f.held.drop firstNonWhitespace
    if candidate.startsWith OPEN_TAG then
      let decisionEnd := firstNonWhitespace + OPEN_TAG.length
      -- the lead is bounded with its tag
      if MAX_THINK_LEAD_BYTES < byteLength (f.held.take decisionEnd) then f.releaseLosslessly
      else
        inspectThink
          { f with state := .insideThink, bodyStart := decisionEnd, scanFrom := decisionEnd }
    else if OPEN_TAG.startsWith candidate then
      if MAX_THINK_LEAD_BYTES < byteLength f.held then f.releaseLosslessly else ([], f)
    else f.releaseLosslessly

def push (f : ThinkTagStripFilter) (value : Text) : Text × ThinkTagStripFilter :=
  if value.length = 0 then ([], f)
  else
    match f.state with
    | .passThrough => (value, f)
    | .done => (value, f)
    | .leadHold => decideLead { f with held := f.held ++ value }
    | .insideThink => inspectThink { f with held := f.held ++ value }

/-- Releases every undecided character at the end of the message. -/
def flush (f : ThinkTagStripFilter) : Text × ThinkTagStripFilter :=
  if FLUSH_RELEASES_HELD f.state then f.releaseLosslessly else ([], f)

/-- The outputs of a sequence of deltas. -/
def pushAll (f : ThinkTagStripFilter) : List Text → Text × ThinkTagStripFilter
  | [] => ([], f)
  | delta :: deltas =>
    let later := (f.push delta).2.pushAll deltas
    ((f.push delta).1 ++ later.1, later.2)

end ThinkTagStripFilter

/-- The filter on a text that comes in deltas, with its flush. -/
def stripDeltas (deltas : List Text) : Text :=
  let pushed := ThinkTagStripFilter.new.pushAll deltas
  pushed.1 ++ pushed.2.flush.1

/-- Strips one complete opening element, or returns the text as it is. -/
def stripOpeningThinkTag (t : Text) : Text :=
  let pushed := ThinkTagStripFilter.new.push t
  pushed.1 ++ pushed.2.flush.1

/-! ## The element that is stripped -/

/-- White space and an element. -/
def element (lead body : Text) : Text :=
  lead ++ OPEN_TAG ++ body ++ CLOSE_TAG

/-- The white space, the tag and the whole element lie within the bounds, and the body has no
further tag. -/
structure OpeningElement (lead body : Text) : Prop where
  blank : lead.all isWhitespace = true
  leadBytes : byteLength (lead ++ OPEN_TAG) ≤ MAX_THINK_LEAD_BYTES
  noOpen : body.includes OPEN_TAG = false
  noClose : body.includes CLOSE_TAG = false
  heldBytes : byteLength (element lead body) ≤ MAX_THINK_HELD_BYTES

/-- The text opens with an element that is stripped. -/
def Opens (t : Text) : Prop :=
  ∃ lead body rest, OpeningElement lead body ∧ t = element lead body ++ rest

/-- What the text becomes: what follows its opening element, or the text where it has none. -/
def Strips (t stripped : Text) : Prop :=
  (∃ lead body, OpeningElement lead body ∧ t = element lead body ++ stripped)
    ∨ (¬ Opens t ∧ stripped = t)

/-! ## Tags in a text -/

theorem OPEN_TAG_eq : OPEN_TAG = 0x3C :: text "think>" := by decide

theorem length_OPEN_TAG : OPEN_TAG.length = 7 := by decide

theorem length_CLOSE_TAG : CLOSE_TAG.length = 8 := by decide

/-- No tag starts at the position. -/
def NoTagAt (t : Text) (i : Nat) : Prop :=
  ¬ Text.OccursAt OPEN_TAG t i ∧ ¬ Text.OccursAt CLOSE_TAG t i

/-- The first tag of the text is a close tag. -/
structure FirstClose (t : Text) (i : Nat) : Prop where
  close : Text.OccursAt CLOSE_TAG t i
  before : ∀ j < i, NoTagAt t j

variable {t : Text} {i j : Nat}

theorem FirstClose.unique (hi : FirstClose t i) (hj : FirstClose t j) : i = j := by
  rcases Nat.lt_trichotomy i j with hlt | heq | hgt
  · exact absurd hi.close (hj.before i hlt).2
  · exact heq
  · exact absurd hj.close (hi.before j hgt).2

theorem OPEN_TAG_add_le {q : Text} (h : Text.OccursAt OPEN_TAG t i) (hq : Text.OccursAt q t j)
    (hhead : q[0]? = some 0x3C) (hij : i < j) : i + 7 ≤ j :=
  length_OPEN_TAG ▸ h.add_length_le hq hhead (by decide) hij

theorem CLOSE_TAG_add_le {q : Text} (h : Text.OccursAt CLOSE_TAG t i) (hq : Text.OccursAt q t j)
    (hhead : q[0]? = some 0x3C) (hij : i < j) : i + 8 ≤ j :=
  length_CLOSE_TAG ▸ h.add_length_le hq hhead (by decide) hij

theorem not_both_tags (hopen : Text.OccursAt OPEN_TAG t i) (hclose : Text.OccursAt CLOSE_TAG t i) :
    False := by
  have h := hopen.getElem? (k := 1) (by decide)
  rw [hclose.getElem? (by decide)] at h
  exact absurd h (by decide)

theorem firstClose_body {body : Text} (hopen : body.includes OPEN_TAG = false)
    (hclose : body.includes CLOSE_TAG = false) (rest : Text) :
    FirstClose (body ++ CLOSE_TAG ++ rest) body.length := by
  have hat : Text.OccursAt CLOSE_TAG (body ++ CLOSE_TAG ++ rest) body.length := by
    unfold Text.OccursAt
    rw [List.append_assoc, List.drop_left]
    exact List.prefix_append _ _
  refine ⟨hat, fun j hj => ⟨fun h => ?_, fun h => ?_⟩⟩
  · have hle := OPEN_TAG_add_le h hat (by decide) hj
    rw [List.append_assoc] at h
    exact Text.includes_eq_false_iff.mp hopen j (h.of_append (by rw [length_OPEN_TAG]; exact hle))
  · have hle := CLOSE_TAG_add_le h hat (by decide) hj
    rw [List.append_assoc] at h
    exact Text.includes_eq_false_iff.mp hclose j (h.of_append (by rw [length_CLOSE_TAG]; exact hle))

theorem body_of_firstClose (h : FirstClose t i) :
    t = t.take i ++ CLOSE_TAG ++ t.drop (i + 8) ∧ Text.includes (t.take i) OPEN_TAG = false
      ∧ Text.includes (t.take i) CLOSE_TAG = false := by
  have hle := h.close.le_length (by decide)
  have hlen : (t.take i).length = i := by
    rw [List.length_take]
    omega
  have hwithin : ∀ (p : Text), 0 < p.length → ∀ j, Text.OccursAt p (t.take i) j →
      j < i ∧ Text.OccursAt p t j := by
    intro p hp j hj
    have hjlen := hj.le_length (List.length_pos_iff.mp hp)
    have happ := hj.append (t.drop i)
    rw [List.take_append_drop] at happ
    exact ⟨by omega, happ⟩
  refine ⟨?_, Text.includes_eq_false_iff.mpr fun j hj => ?_,
    Text.includes_eq_false_iff.mpr fun j hj => ?_⟩
  · obtain ⟨rest, hrest⟩ := h.close
    have hdrop : t.drop (i + 8) = rest := by
      rw [← List.drop_drop, ← hrest, ← length_CLOSE_TAG, List.drop_left]
    rw [hdrop, List.append_assoc, hrest, List.take_append_drop]
  · obtain ⟨hlt, hocc⟩ := hwithin OPEN_TAG (by decide) j hj
    exact (h.before j hlt).1 hocc
  · obtain ⟨hlt, hocc⟩ := hwithin CLOSE_TAG (by decide) j hj
    exact (h.before j hlt).2 hocc

/-! ## White space before the tag -/

theorem isWhitespace_tagStart : isWhitespace 0x3C = false := by decide

variable {lead rest : Text}

theorem searchNonWhitespace_lead (h : lead.all isWhitespace = true) (rest : Text) :
    searchNonWhitespace (lead ++ OPEN_TAG ++ rest) = some lead.length := by
  unfold searchNonWhitespace
  rw [OPEN_TAG_eq, List.append_assoc, List.cons_append, List.findIdx?_append, List.findIdx?_cons]
  have hnone : lead.findIdx? (fun c => !isWhitespace c) = none := by
    rw [List.findIdx?_eq_none_iff]
    intro c hc
    rw [List.all_eq_true.mp h c hc]
    rfl
  rw [hnone, isWhitespace_tagStart]
  simp

theorem searchNonWhitespace_eq_none (h : searchNonWhitespace t = none) :
    ∀ c ∈ t, isWhitespace c = true := by
  intro c hc
  simpa using List.findIdx?_eq_none_iff.mp h c hc

theorem searchNonWhitespace_eq_some (h : searchNonWhitespace t = some i) :
    i < t.length ∧ (t.take i).all isWhitespace = true ∧ ∀ u, searchNonWhitespace (t ++ u) = some i := by
  have hspec := List.findIdx?_eq_some_iff_getElem.mp h
  obtain ⟨hlt, -, hbefore⟩ := hspec
  refine ⟨hlt, ?_, fun u => ?_⟩
  · rw [List.all_eq_true]
    intro c hc
    obtain ⟨j, hj, rfl⟩ := List.mem_iff_getElem.mp hc
    rw [List.length_take] at hj
    simpa using hbefore j (by omega)
  · unfold searchNonWhitespace at h ⊢
    rw [List.findIdx?_append, h]
    rfl

theorem lead_eq_take {u body : Text} (hsearch : searchNonWhitespace t = some i)
    (hlead : lead.all isWhitespace = true) (h : t ++ u = element lead body ++ rest) :
    lead = t.take i ∧ t.drop i ++ u = OPEN_TAG ++ (body ++ CLOSE_TAG ++ rest) := by
  obtain ⟨hlt, -, hgrown⟩ := searchNonWhitespace_eq_some hsearch
  have hsplit : t ++ u = lead ++ OPEN_TAG ++ (body ++ CLOSE_TAG ++ rest) := by
    rw [h]
    simp only [element, List.append_assoc]
  have hlength : i = lead.length := by
    have hfound := hgrown u
    rw [hsplit, searchNonWhitespace_lead hlead] at hfound
    exact (Option.some.inj hfound).symm
  have htake := congrArg (List.take i) hsplit
  have hdrop := congrArg (List.drop i) hsplit
  rw [List.take_append_of_le_length (by omega), hlength, List.append_assoc, List.take_left]
    at htake
  rw [List.drop_append_of_le_length (by omega), hlength, List.append_assoc, List.drop_left]
    at hdrop
  exact ⟨by rw [hlength]; exact htake.symm, by rw [hlength]; exact hdrop⟩

/-! ## Decisions -/

theorem byteLength_le_of_prefix {u : Text} (h : t <+: u) : byteLength t ≤ byteLength u := by
  obtain ⟨v, rfl⟩ := h
  exact encodeUtf8_length_append t v

/-- However the text goes on, it opens with no element. -/
def NeverOpens (t : Text) : Prop :=
  ∀ u, ¬ Opens (t ++ u)

theorem element_of_firstClose (hlead : lead.all isWhitespace = true)
    (hbytes : byteLength (lead ++ OPEN_TAG) ≤ MAX_THINK_LEAD_BYTES) (hfirst : FirstClose rest i)
    (hheld : byteLength (lead ++ OPEN_TAG ++ rest.take (i + 8)) ≤ MAX_THINK_HELD_BYTES) :
    OpeningElement lead (rest.take i)
      ∧ lead ++ OPEN_TAG ++ rest = element lead (rest.take i) ++ rest.drop (i + 8) := by
  obtain ⟨hsplit, hopen, hclose⟩ := body_of_firstClose hfirst
  have hle := hfirst.close.le_length (by decide)
  have htake : rest.take (i + 8) = rest.take i ++ CLOSE_TAG := by
    conv_lhs => rw [hsplit]
    exact List.take_left' (by
      rw [List.length_append, length_CLOSE_TAG, List.length_take]
      omega)
  refine ⟨⟨hlead, hbytes, hopen, hclose, ?_⟩, ?_⟩
  · rw [htake, ← List.append_assoc] at hheld
    exact hheld
  · conv_lhs => rw [hsplit]
    simp only [element, List.append_assoc]

/-- What follows white space and an opening tag makes an element exactly with its first close
tag. -/
theorem opens_iff (hlead : lead.all isWhitespace = true)
    (hbytes : byteLength (lead ++ OPEN_TAG) ≤ MAX_THINK_LEAD_BYTES) :
    Opens (lead ++ OPEN_TAG ++ rest) ↔ ∃ i, FirstClose rest i
      ∧ byteLength (lead ++ OPEN_TAG ++ rest.take (i + 8)) ≤ MAX_THINK_HELD_BYTES := by
  have hsearch := searchNonWhitespace_lead hlead rest
  constructor
  · rintro ⟨lead', body, rest', helement, h⟩
    obtain ⟨hsame, hrest⟩ := lead_eq_take (u := []) hsearch helement.blank (by rw [List.append_nil, h])
    rw [List.append_assoc, List.take_left] at hsame
    rw [List.append_assoc, List.drop_left, List.append_nil, List.append_cancel_left_eq] at hrest
    subst hsame
    refine ⟨body.length, ?_, ?_⟩
    · rw [hrest]
      exact firstClose_body helement.noOpen helement.noClose rest'
    · have htake : rest.take (body.length + 8) = body ++ CLOSE_TAG := by
        rw [hrest]
        exact List.take_left' (by rw [List.length_append, length_CLOSE_TAG])
      have hheld := helement.heldBytes
      rw [htake]
      simp only [element, List.append_assoc] at hheld ⊢
      exact hheld
  · rintro ⟨i, hfirst, hheld⟩
    obtain ⟨helement, hsplit⟩ := element_of_firstClose hlead hbytes hfirst hheld
    exact ⟨lead, rest.take i, rest.drop (i + 8), helement, hsplit⟩

theorem FirstClose.append (h : FirstClose t i) (u : Text) : FirstClose (t ++ u) i := by
  have hclose := h.close.append u
  have hle := h.close.le_length (by decide)
  refine ⟨hclose, fun j hj => ⟨fun hopen => ?_, fun hclose' => ?_⟩⟩
  · have hend := OPEN_TAG_add_le hopen hclose (by decide) hj
    exact (h.before j hj).1 (hopen.of_append (by rw [length_OPEN_TAG]; omega))
  · have hend := CLOSE_TAG_add_le hclose' hclose (by decide) hj
    exact (h.before j hj).2 (hclose'.of_append (by rw [length_CLOSE_TAG]; omega))

section Never

variable {lead rest : Text} (hlead : lead.all isWhitespace = true)
  (hbytes : byteLength (lead ++ OPEN_TAG) ≤ MAX_THINK_LEAD_BYTES)

include hlead hbytes

theorem neverOpens_of_nested (hopen : Text.OccursAt OPEN_TAG rest i)
    (hbefore : ∀ j < i, ¬ Text.OccursAt CLOSE_TAG rest j) :
    NeverOpens (lead ++ OPEN_TAG ++ rest) := by
  intro u h
  rw [List.append_assoc, opens_iff hlead hbytes] at h
  obtain ⟨k, hfirst, -⟩ := h
  rcases Nat.lt_trichotomy k i with hlt | rfl | hgt
  · have hend := CLOSE_TAG_add_le hfirst.close (hopen.append u) (by decide) hlt
    have hle := hopen.le_length (by decide)
    exact hbefore k hlt (hfirst.close.of_append (by rw [length_CLOSE_TAG]; omega))
  · exact not_both_tags (hopen.append u) hfirst.close
  · exact (hfirst.before i hgt).1 (hopen.append u)

theorem neverOpens_of_large (hfirst : FirstClose rest i)
    (hheld : MAX_THINK_HELD_BYTES < byteLength (lead ++ OPEN_TAG ++ rest.take (i + 8))) :
    NeverOpens (lead ++ OPEN_TAG ++ rest) := by
  intro u h
  rw [List.append_assoc, opens_iff hlead hbytes] at h
  obtain ⟨k, hfirst', hsmall⟩ := h
  have hle := hfirst.close.le_length (by decide)
  rw [length_CLOSE_TAG] at hle
  rw [hfirst'.unique (hfirst.append u), List.take_append_of_le_length hle] at hsmall
  omega

theorem neverOpens_of_unclosed (hclose : ∀ j, ¬ Text.OccursAt CLOSE_TAG rest j)
    (hheld : MAX_THINK_HELD_BYTES < byteLength (lead ++ OPEN_TAG ++ rest)) :
    NeverOpens (lead ++ OPEN_TAG ++ rest) := by
  intro u h
  rw [List.append_assoc, opens_iff hlead hbytes] at h
  obtain ⟨k, hfirst, hsmall⟩ := h
  have hbeyond : rest.length ≤ k + 8 := by
    by_contra hlt
    exact hclose k (hfirst.close.of_append (by rw [length_CLOSE_TAG]; omega))
  -- what is held is a part of the element
  have hprefix : lead ++ OPEN_TAG ++ rest <+: lead ++ OPEN_TAG ++ (rest ++ u).take (k + 8) := by
    rw [List.take_append, List.take_of_length_le hbeyond]
    exact (List.prefix_append_right_inj _).mpr (List.prefix_append _ _)
  have hle := byteLength_le_of_prefix hprefix
  omega

end Never

/-! ## The filter between two deltas -/

/-- The filter has seen white space and an opening tag, and `rest` after it. -/
structure ThinkTagStripFilter.Inside (f : ThinkTagStripFilter) (lead rest : Text) : Prop where
  held : f.held = lead ++ OPEN_TAG ++ rest
  blank : lead.all isWhitespace = true
  leadBytes : byteLength (lead ++ OPEN_TAG) ≤ MAX_THINK_LEAD_BYTES
  bodyStart : f.bodyStart = (lead ++ OPEN_TAG).length
  scanFrom : f.bodyStart ≤ f.scanFrom
  scanned : ∀ j, f.bodyStart + j < f.scanFrom → NoTagAt rest j

/-- The filter after the text `t`, of which it has put out `out`. -/
def ThinkTagStripFilter.Follows (f : ThinkTagStripFilter) (t out : Text) : Prop :=
  match f.state with
  | .passThrough => out = t ∧ NeverOpens t
  | .done => ∃ lead body, OpeningElement lead body ∧ t = element lead body ++ out
  | .leadHold => f.held = t ∧ out = [] ∧ ¬ Opens t
  | .insideThink =>
    f.held = t ∧ out = [] ∧ ∃ lead rest, f.Inside lead rest ∧ (∀ j, NoTagAt rest j)
      ∧ f.scanFrom ≤ max f.bodyStart (f.held.length - 7)

namespace ThinkTagStripFilter

variable {f : ThinkTagStripFilter} {lead rest : Text}

theorem Follows.release (hheld : f.held = t) (h : NeverOpens t) :
    f.releaseLosslessly.2.Follows t f.releaseLosslessly.1 :=
  ⟨hheld, h⟩

variable (h : f.Inside lead rest)

include h

theorem Inside.search {p : Text}
    (hscanned : ∀ j, f.bodyStart + j < f.scanFrom → ¬ Text.OccursAt p rest j) :
    match f.held.indexOfFrom p f.scanFrom with
    | none => ∀ j, ¬ Text.OccursAt p rest j
    | some i => ∃ k, i = f.bodyStart + k ∧ Text.OccursAt p rest k
        ∧ ∀ j < k, ¬ Text.OccursAt p rest j := by
  have hrest : f.held.drop f.bodyStart = rest := by rw [h.held, h.bodyStart, List.drop_left]
  have hshift : ∀ j, Text.OccursAt p rest j ↔ Text.OccursAt p f.held (f.bodyStart + j) := by
    intro j
    rw [← hrest, Text.occursAt_drop]
  split
  · rename_i hnone
    intro j hj
    by_cases hlt : f.bodyStart + j < f.scanFrom
    · exact hscanned j hlt hj
    · exact Text.indexOfFrom_eq_none hnone (Nat.not_lt.mp hlt) ((hshift j).mp hj)
  · rename_i i hsome
    obtain ⟨hle, hoccurs, hfirst⟩ := Text.indexOfFrom_spec hsome
    have hscan := h.scanFrom
    obtain ⟨k, rfl⟩ : ∃ k, i = f.bodyStart + k := ⟨i - f.bodyStart, by omega⟩
    refine ⟨k, rfl, (hshift k).mpr hoccurs, fun j hj hin => ?_⟩
    by_cases hlt : f.bodyStart + j < f.scanFrom
    · exact hscanned j hlt hin
    · exact hfirst _ (Nat.not_lt.mp hlt) (by omega) ((hshift j).mp hin)

theorem Inside.closed {k : Nat} (hfirst : FirstClose rest k) :
    let settled :=
      if MAX_THINK_HELD_BYTES < byteLength (f.held.take (f.bodyStart + k + 8)) then
        f.releaseLosslessly
      else (f.held.drop (f.bodyStart + k + 8), { f with held := [], state := .done })
    settled.2.Follows f.held settled.1 := by
  have htake : f.held.take (f.bodyStart + k + 8) = lead ++ OPEN_TAG ++ rest.take (k + 8) := by
    rw [h.held, h.bodyStart, Nat.add_assoc, List.take_length_add_append]
  have hdrop : f.held.drop (f.bodyStart + k + 8) = rest.drop (k + 8) := by
    rw [h.held, h.bodyStart, Nat.add_assoc, List.drop_length_add_append]
  intro settled
  by_cases hlarge : MAX_THINK_HELD_BYTES < byteLength (f.held.take (f.bodyStart + k + 8))
  · rw [show settled = f.releaseLosslessly from if_pos hlarge]
    refine Follows.release rfl ?_
    rw [htake] at hlarge
    rw [h.held]
    exact neverOpens_of_large h.blank h.leadBytes hfirst hlarge
  · rw [show settled = _ from if_neg hlarge]
    rw [htake] at hlarge
    obtain ⟨helement, hsplit⟩ := element_of_firstClose h.blank h.leadBytes hfirst
      (Nat.not_lt.mp hlarge)
    refine ⟨lead, rest.take k, helement, ?_⟩
    rw [hdrop, h.held, hsplit]

/-- **The filter inside an element.** -/
theorem Inside.inspectThink (hstate : f.state = .insideThink) :
    f.inspectThink.2.Follows f.held f.inspectThink.1 := by
  have hnested := h.search (p := OPEN_TAG) fun j hj => (h.scanned j hj).1
  have hclose := h.search (p := CLOSE_TAG) fun j hj => (h.scanned j hj).2
  unfold ThinkTagStripFilter.inspectThink
  cases hc : f.held.indexOfFrom CLOSE_TAG f.scanFrom with
  | some c =>
    simp only [hc] at hclose
    obtain ⟨k, rfl, hat, hbefore⟩ := hclose
    cases hn : f.held.indexOfFrom OPEN_TAG f.scanFrom with
    | some n =>
      simp only [hn] at hnested
      obtain ⟨k', rfl, hopen, hbefore'⟩ := hnested
      by_cases hlt : f.bodyStart + k' < f.bodyStart + k
      · have hfirst : nestedFirst (some (f.bodyStart + k')) (some (f.bodyStart + k)) = true :=
          decide_eq_true hlt
        rw [if_pos hfirst]
        refine Follows.release rfl ?_
        rw [h.held]
        exact neverOpens_of_nested h.blank h.leadBytes hopen fun j hj => hbefore j (by omega)
      · rw [if_neg (by simpa [nestedFirst] using hlt)]
        exact h.closed ⟨hat, fun j hj => ⟨hbefore' j (by omega), hbefore j hj⟩⟩
    | none =>
      simp only [hn] at hnested
      exact h.closed ⟨hat, fun j hj => ⟨hnested j, hbefore j hj⟩⟩
  | none =>
    simp only [hc] at hclose
    cases hn : f.held.indexOfFrom OPEN_TAG f.scanFrom with
    | some n =>
      simp only [hn] at hnested
      obtain ⟨k, rfl, hopen, -⟩ := hnested
      refine Follows.release rfl ?_
      rw [h.held]
      exact neverOpens_of_nested h.blank h.leadBytes hopen fun j _ => hclose j
    | none =>
      simp only [hn] at hnested
      rw [if_neg (by exact Bool.false_ne_true)]
      by_cases hlarge : MAX_THINK_HELD_BYTES < byteLength f.held
      · rw [if_pos hlarge]
        refine Follows.release rfl ?_
        rw [h.held] at hlarge ⊢
        exact neverOpens_of_unclosed h.blank h.leadBytes hclose hlarge
      · -- nothing is decided: only the end of the text can still become a tag
        rw [if_neg hlarge]
        unfold Follows
        simp only [hstate]
        refine ⟨trivial, trivial, lead, rest, ⟨h.held, h.blank, h.leadBytes, h.bodyStart, ?_, ?_⟩,
          fun j => ⟨hnested j, hclose j⟩, Nat.le_refl _⟩
        · exact Nat.le_max_left _ _
        · exact fun j _ => ⟨hnested j, hclose j⟩

theorem Inside.append (hnone : ∀ j, NoTagAt rest j)
    (hscan : f.scanFrom ≤ max f.bodyStart (f.held.length - 7)) (value : Text) :
    ({ f with held := f.held ++ value } : ThinkTagStripFilter).Inside lead (rest ++ value) := by
  refine ⟨by rw [h.held, List.append_assoc], h.blank, h.leadBytes, h.bodyStart, h.scanFrom, ?_⟩
  intro j hj
  have hlength : f.held.length = f.bodyStart + rest.length := by
    rw [h.held, h.bodyStart, List.length_append]
  have hwithin : j + 8 ≤ rest.length := by
    have hj : f.bodyStart + j < f.scanFrom := hj
    omega
  refine ⟨fun hopen => (hnone j).1 (hopen.of_append ?_),
    fun hclose => (hnone j).2 (hclose.of_append ?_)⟩
  · rw [length_OPEN_TAG]
    omega
  · rw [length_CLOSE_TAG]
    omega

omit h

theorem blank_prefix_lead (hblank : ∀ c ∈ t, isWhitespace c = true) {u body : Text}
    (h : t ++ u = element lead body ++ rest) : t <+: lead := by
  by_contra hnot
  have hsplit : lead ++ 0x3C :: (text "think>" ++ body ++ CLOSE_TAG ++ rest) = t ++ u := by
    rw [h]
    simp only [element, OPEN_TAG_eq, List.append_assoc, List.cons_append]
  rcases List.append_eq_append_iff.mp hsplit with ⟨more, hmore, htail⟩ | ⟨more, hmore, -⟩
  · cases more with
    | nil => exact hnot ⟨[], by rw [hmore, List.append_nil, List.append_nil]⟩
    | cons c more =>
      rw [List.cons_append, List.cons.injEq] at htail
      have hc := hblank c (hmore ▸ List.mem_append_right _ List.mem_cons_self)
      rw [← htail.1] at hc
      cases hc
  · exact hnot ⟨more, hmore.symm⟩

section Lead

variable {f : ThinkTagStripFilter} (hstate : f.state = .leadHold)
include hstate

theorem follows_hold (h : ¬ Opens f.held) : f.Follows f.held [] := by
  unfold Follows
  simp only [hstate]
  exact ⟨trivial, trivial, h⟩

theorem decideLead_follows_of_blank (hsearch : searchNonWhitespace f.held = none) :
    f.decideLead.2.Follows f.held f.decideLead.1 := by
  have hblank := searchNonWhitespace_eq_none hsearch
  unfold decideLead
  simp only [hsearch]
  by_cases hlarge : MAX_THINK_LEAD_BYTES < byteLength f.held
  · rw [if_pos hlarge]
    refine Follows.release rfl ?_
    rintro u ⟨lead, body, rest, helement, h⟩
    have hle := byteLength_le_of_prefix
      ((blank_prefix_lead hblank h).trans (List.prefix_append lead OPEN_TAG))
    have hbound := helement.leadBytes
    omega
  · rw [if_neg hlarge]
    refine follows_hold hstate ?_
    rintro ⟨lead, body, rest, helement, h⟩
    have hle := (blank_prefix_lead (u := []) hblank (by rw [List.append_nil, h])).length_le
    rw [h] at hle
    simp only [element, List.length_append, length_OPEN_TAG] at hle
    omega

omit hstate in
theorem decideLead_follows_of_open (hsearch : searchNonWhitespace f.held = some i)
    (hopen : Text.startsWith (f.held.drop i) OPEN_TAG = true) :
    f.decideLead.2.Follows f.held f.decideLead.1 := by
  obtain ⟨hlt, hblank, -⟩ := searchNonWhitespace_eq_some hsearch
  obtain ⟨rest, hrest⟩ := Text.startsWith_iff.mp hopen
  have hheld : f.held = f.held.take i ++ OPEN_TAG ++ rest := by
    rw [List.append_assoc, hrest, List.take_append_drop]
  have hlength : (f.held.take i).length = i := by
    rw [List.length_take]
    omega
  have hlead : f.held.take (i + OPEN_TAG.length) = f.held.take i ++ OPEN_TAG := by
    conv_lhs => rw [hheld]
    exact List.take_left' (by rw [List.length_append, hlength])
  unfold decideLead
  simp only [hsearch]
  rw [if_pos hopen, hlead]
  by_cases hlarge : MAX_THINK_LEAD_BYTES < byteLength (f.held.take i ++ OPEN_TAG)
  · rw [if_pos hlarge]
    refine Follows.release rfl ?_
    rintro u ⟨lead, body, rest', helement, h⟩
    have hbound := helement.leadBytes
    rw [(lead_eq_take hsearch helement.blank h).1] at hbound
    omega
  · rw [if_neg hlarge]
    have hinside : Inside ⟨.insideThink, f.held, i + OPEN_TAG.length, i + OPEN_TAG.length⟩
        (f.held.take i) rest := by
      refine ⟨hheld, hblank, Nat.not_lt.mp hlarge, ?_, Nat.le_refl _, fun j hj => ?_⟩
      · rw [List.length_append, hlength]
      · exact absurd hj (by dsimp only; omega)
    exact hinside.inspectThink rfl

theorem decideLead_follows_of_part (hsearch : searchNonWhitespace f.held = some i)
    (hopen : ¬ Text.startsWith (f.held.drop i) OPEN_TAG = true) :
    f.decideLead.2.Follows f.held f.decideLead.1 := by
  have hsplit : f.held.take i ++ f.held.drop i = f.held := List.take_append_drop i f.held
  unfold decideLead
  simp only [hsearch]
  rw [if_neg hopen]
  by_cases hpart : Text.startsWith OPEN_TAG (f.held.drop i) = true
  · rw [if_pos hpart]
    obtain ⟨more, hmore⟩ := Text.startsWith_iff.mp hpart
    have hprefix : f.held <+: f.held.take i ++ OPEN_TAG := by
      rw [← hmore, ← List.append_assoc, hsplit]
      exact List.prefix_append _ _
    by_cases hlarge : MAX_THINK_LEAD_BYTES < byteLength f.held
    · rw [if_pos hlarge]
      refine Follows.release rfl ?_
      rintro u ⟨lead, body, rest, helement, h⟩
      have hbound := helement.leadBytes
      rw [(lead_eq_take hsearch helement.blank h).1] at hbound
      have hle := byteLength_le_of_prefix hprefix
      omega
    · rw [if_neg hlarge]
      refine follows_hold hstate ?_
      rintro ⟨lead, body, rest, helement, h⟩
      have hwhole := (lead_eq_take (u := []) hsearch helement.blank
        (by rw [List.append_nil, h])).2
      rw [List.append_nil] at hwhole
      refine hopen (Text.startsWith_iff.mpr ?_)
      rw [hwhole]
      exact List.prefix_append _ _
  · -- another character stands before the tag
    rw [if_neg hpart]
    refine Follows.release rfl ?_
    rintro u ⟨lead, body, rest, helement, h⟩
    have hwhole := (lead_eq_take hsearch helement.blank h).2
    rcases List.prefix_or_prefix_of_prefix (List.prefix_append (f.held.drop i) u)
      (hwhole ▸ List.prefix_append OPEN_TAG _) with hin | hin
    · exact hpart (Text.startsWith_iff.mpr hin)
    · exact hopen (Text.startsWith_iff.mpr hin)

/-- **The filter before an element.** -/
theorem decideLead_follows : f.decideLead.2.Follows f.held f.decideLead.1 := by
  cases hsearch : searchNonWhitespace f.held with
  | none => exact decideLead_follows_of_blank hstate hsearch
  | some i =>
    by_cases hopen : Text.startsWith (f.held.drop i) OPEN_TAG = true
    · exact decideLead_follows_of_open hsearch hopen
    · exact decideLead_follows_of_part hstate hsearch hopen

end Lead

theorem follows_new : new.Follows [] [] := by
  refine ⟨rfl, rfl, ?_⟩
  rintro ⟨lead, body, rest, -, h⟩
  have hlength := congrArg List.length h
  simp only [element, List.length_append, List.length_nil, length_OPEN_TAG] at hlength
  omega

variable {t out : Text}

theorem NeverOpens.append (h : NeverOpens t) (u : Text) : NeverOpens (t ++ u) := by
  intro v
  rw [List.append_assoc]
  exact h (u ++ v)

variable {f : ThinkTagStripFilter}

/-- **One delta.** -/
theorem Follows.push (h : f.Follows t out) (value : Text) :
    (f.push value).2.Follows (t ++ value) (out ++ (f.push value).1) := by
  obtain ⟨state, held, bodyStart, scanFrom⟩ := f
  unfold ThinkTagStripFilter.push
  split
  · rename_i hempty
    rw [List.eq_nil_of_length_eq_zero hempty, List.append_nil, List.append_nil]
    exact h
  · cases state with
    | passThrough =>
      obtain ⟨rfl, hnever⟩ := h
      exact ⟨rfl, NeverOpens.append hnever value⟩
    | done =>
      obtain ⟨lead, body, helement, rfl⟩ := h
      exact ⟨lead, body, helement, List.append_assoc _ _ _⟩
    | leadHold =>
      obtain ⟨rfl, rfl, -⟩ := h
      exact decideLead_follows (f := ⟨.leadHold, held ++ value, bodyStart, scanFrom⟩) rfl
    | insideThink =>
      obtain ⟨rfl, rfl, lead, rest, hinside, hnone, hscan⟩ := h
      exact (hinside.append hnone hscan value).inspectThink rfl

/-- **All deltas.** -/
theorem Follows.pushAll (h : f.Follows t out) (deltas : List Text) :
    (f.pushAll deltas).2.Follows (t ++ deltas.flatten) (out ++ (f.pushAll deltas).1) := by
  induction deltas generalizing f t out with
  | nil =>
    simpa [ThinkTagStripFilter.pushAll] using h
  | cons delta deltas ih =>
    have hlater := ih (h.push delta)
    rw [List.flatten_cons, ← List.append_assoc]
    simp only [ThinkTagStripFilter.pushAll]
    rw [← List.append_assoc]
    exact hlater

/-- The end of the message. -/
theorem Follows.flush (h : f.Follows t out) : Strips t (out ++ f.flush.1) := by
  unfold Follows at h
  unfold ThinkTagStripFilter.flush
  cases hstate : f.state with
  | passThrough =>
    simp only [hstate] at h
    obtain ⟨rfl, hnever⟩ := h
    refine .inr ⟨?_, by simp [FLUSH_RELEASES_HELD]⟩
    have hnot := hnever []
    rwa [List.append_nil] at hnot
  | done =>
    simp only [hstate] at h
    obtain ⟨lead, body, helement, rfl⟩ := h
    exact .inl ⟨lead, body, helement, by simp [FLUSH_RELEASES_HELD]⟩
  | leadHold =>
    simp only [hstate] at h
    obtain ⟨rfl, rfl, hnot⟩ := h
    exact .inr ⟨hnot, rfl⟩
  | insideThink =>
    simp only [hstate] at h
    obtain ⟨rfl, rfl, lead, rest, hinside, hnone, -⟩ := h
    refine .inr ⟨?_, rfl⟩
    rw [hinside.held, opens_iff hinside.blank hinside.leadBytes]
    rintro ⟨i, hfirst, -⟩
    exact (hnone i).2 hfirst.close

end ThinkTagStripFilter

/-! ## Chunk invariance -/

theorem Strips.unique {r r' : Text} (h : Strips t r) (h' : Strips t r') : r = r' := by
  rcases h with ⟨lead, body, helement, ht⟩ | ⟨hnot, rfl⟩
  · rcases h' with ⟨lead', body', helement', ht'⟩ | ⟨hnot, -⟩
    · have hsplit : t = lead ++ OPEN_TAG ++ (body ++ CLOSE_TAG ++ r) := by
        rw [ht]
        simp only [element, List.append_assoc]
      have hsearch := searchNonWhitespace_lead helement.blank (body ++ CLOSE_TAG ++ r)
      rw [← hsplit] at hsearch
      -- both elements have the white space and the body of the text
      have hrest := (lead_eq_take (u := []) hsearch helement.blank (by rw [List.append_nil, ht])).2
      rw [(lead_eq_take (u := []) hsearch helement'.blank (by rw [List.append_nil, ht'])).2,
        List.append_cancel_left_eq] at hrest
      have hfirst := firstClose_body helement.noOpen helement.noClose r
      have hfirst' := firstClose_body helement'.noOpen helement'.noClose r'
      rw [hrest] at hfirst'
      have hlength := hfirst.unique hfirst'
      rw [List.append_assoc, List.append_assoc] at hrest
      have hbodies := List.append_inj hrest hlength.symm
      exact (List.append_cancel_left hbodies.2).symm
    · exact absurd ⟨lead, body, r, helement, ht⟩ hnot
  · rcases h' with ⟨lead', body', helement', ht'⟩ | ⟨-, rfl⟩
    · exact absurd ⟨lead', body', r', helement', ht'⟩ hnot
    · rfl

/-- **Think-tag stripping is chunk invariant.** However a text is cut into deltas, the outputs
of the filter are those of the whole text. They are the text without its opening element where
it has one, and the text itself where it has none. -/
theorem think_strip_chunk_invariant (deltas : List Text) :
    stripDeltas deltas = stripOpeningThinkTag deltas.flatten
      ∧ Strips deltas.flatten (stripOpeningThinkTag deltas.flatten) := by
  have hdeltas : Strips deltas.flatten (stripDeltas deltas) :=
    (ThinkTagStripFilter.follows_new.pushAll deltas).flush
  have hwhole : Strips deltas.flatten (stripOpeningThinkTag deltas.flatten) :=
    (ThinkTagStripFilter.follows_new.push deltas.flatten).flush
  exact ⟨hdeltas.unique hwhole, hwhole⟩

end LlmRelay
