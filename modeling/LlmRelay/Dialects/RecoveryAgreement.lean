import LlmRelay.Dialects.ChatAgreement
import Mathlib.Data.List.Find

/-!
# Recovery of the rest of a text

The wrappers hand the recovery the text from the envelope on. The prose before it
holds no marker, so the parsers find the same calls in the whole text, unless the
prose opens an invoke block with other white space than one space: the marker of
that form is `<invoke name=`, its expression is `<invoke\s+name=`.

## Main definitions

* `DialectOutcome.withoutProse`: an outcome up to the prose that survives;
* `OpensInvoke`: an invoke tag without a marker opens at a position.

## Main results

* `recoverToolCalls_drop`: the recovery of the rest finds what that of the text does;
* `dialect_recovery_agrees`: both wrappers on every clean split of a text.
-/

namespace LlmRelay

open Ecma

/-! ## The text before the envelope -/

variable {t m : Text} {k i : Nat} {f : SseFrame}

variable (h : markerStart t = some k)

include h

theorem firstMarker_of_markerStart : ∃ b, firstMarker t = some b ∧ k ≤ b := by
  obtain ⟨b, hb, -⟩ := Option.map_eq_some_iff.mp h
  exact ⟨b, hb, (markerStart_le hb h).1⟩

theorem not_markerAt_of_lt (hi : i < k) : ¬ MarkerAt t i := by
  obtain ⟨b, hb, hkb⟩ := firstMarker_of_markerStart h
  exact (firstMarker_spec hb).2 i (by omega)

theorem not_markerAt_succ (hi : i < k) (hopen : t[i]? = some 0x3C) : ¬ MarkerAt t (i + 1) := by
  intro hat
  obtain ⟨b, hb, hkb⟩ := firstMarker_of_markerStart h
  have hbi : ¬ i + 1 < b := fun hlt => (firstMarker_spec hb).2 _ hlt hat
  have hb1 : b = i + 1 := by omega
  subst hb1
  rw [markerStart, hb, Option.map_some, Option.some.injEq, if_neg (by omega)] at h
  split at h
  · omega
  · rw [Nat.add_sub_cancel, if_pos hopen] at h
    omega

omit h

theorem markerAt_of_startsAt (hm : m ∈ ALL_MARKERS) (h : m <+: t.drop i) : MarkerAt t i :=
  ⟨m, hm, h⟩

theorem markerAt_of_opened (hm : m ∈ ALL_MARKERS) (h : (0x3C :: m) <+: t.drop i) :
    t[i]? = some 0x3C ∧ MarkerAt t (i + 1) := by
  obtain ⟨r, hr⟩ := h
  constructor
  · have hhead := congrArg List.head? hr
    rw [List.head?_drop] at hhead
    exact hhead.symm
  · refine ⟨m, hm, r, ?_⟩
    have htail := congrArg List.tail hr
    rw [List.tail_drop] at htail
    exact htail

theorem not_opened_of_lt (h : markerStart t = some k) (hi : i < k) (hm : m ∈ ALL_MARKERS) :
    ¬ (0x3C :: m) <+: t.drop i := by
  intro hpre
  obtain ⟨hopen, hat⟩ := markerAt_of_opened hm hpre
  exact not_markerAt_succ h hi hopen hat

/-! ## The forms -/

/-- An invoke tag without a marker opens at a position. -/
def OpensInvoke (t : Text) (i : Nat) : Prop :=
  ∃ c, isWhitespace c = true ∧ (text "<invoke" ++ [c]) <+: t.drop i

theorem prefix_of_mem_runs_lit {w : Text} {m : Regex.Match} {b : Regex}
    (h : m ∈ Regex.runs (.seq (.lit w) b) t) : w <+: t := by
  obtain ⟨ma, hma, mb, -, -⟩ := Regex.mem_runs_seq h
  have hspec := Regex.runs_spec hma
  rw [Regex.mem_runs_lit hma] at hspec
  exact ⟨ma.rest, hspec.symm⟩

theorem runs_seq_lit_eq_nil {w : Text} (b : Regex) (h : ¬ w <+: t) :
    Regex.runs (.seq (.lit w) b) t = [] := by
  by_contra hne
  obtain ⟨m, hm⟩ := List.exists_mem_of_ne_nil _ hne
  exact h (prefix_of_mem_runs_lit hm)

theorem matchAll_drop {r : Regex} (h : ∀ i < k, Regex.runs r (t.drop i) = []) :
    r.matchAll t = r.matchAll (t.drop k) := by
  have happend : r.matchAll (t.take k ++ t.drop k) = r.matchAll (t.drop k) := by
    refine Regex.matchAll_append ?_
    intro u v huv hv
    have hlen : u.length < k := by
      have := congrArg List.length huv
      have := List.length_pos_iff.mpr hv
      rw [List.length_append, List.length_take] at *
      omega
    have hdrop : v ++ t.drop k = t.drop u.length := by
      have ht := List.take_append_drop k t
      rw [huv, List.append_assoc] at ht
      have hdrop := congrArg (List.drop u.length) ht
      rwa [List.drop_left] at hdrop
    rw [hdrop]
    exact h u.length hlen
  rwa [List.take_append_drop] at happend

theorem prefix_of_invoke {m : Regex.Match} (h : m ∈ DialectRegex.invoke.runs t) :
    (∃ c, isWhitespace c = true ∧ (text "<invoke" ++ [c]) <+: t)
      ∨ (0x3C :: text "｜DSML｜invoke") <+: t := by
  obtain ⟨m₁, h₁, n₁, hn₁, -⟩ := Regex.mem_runs_seq h
  obtain ⟨m₂, h₂, n₂, hn₂, -⟩ := Regex.mem_runs_seq hn₁
  obtain ⟨m₃, h₃, n₃, hn₃, -⟩ := Regex.mem_runs_seq hn₂
  obtain ⟨m₄, h₄, -, -, -⟩ := Regex.mem_runs_seq hn₃
  obtain ⟨m₅, h₅, -, -, -⟩ := Regex.mem_runs_seq h₄
  have ht : t = m₁.matched ++ (m₂.matched ++ (m₃.matched ++ (m₅.matched ++ m₅.rest))) := by
    rw [← Regex.runs_spec h₅, ← Regex.runs_spec h₃, ← Regex.runs_spec h₂, ← Regex.runs_spec h₁]
  rw [Regex.mem_runs_lit h₁, Regex.mem_runs_lit h₃] at ht
  rcases Regex.mem_runs_opt_lit h₂ with hdsml | hplain
  · refine .inr ⟨m₅.matched ++ m₅.rest, ?_⟩
    rw [ht, hdsml]
    rfl
  · obtain ⟨c, hc, hm₅⟩ := Regex.mem_runs_unit h₅
    refine .inl ⟨c, hc, m₅.rest, ?_⟩
    rw [ht, hplain, hm₅]
    rfl

variable (schemas : ToolSchemas)

/-- **The recovery of the rest scans the same blocks.** -/
theorem dialectScans_drop (h : markerStart t = some k) (hinvoke : ∀ i < k, ¬ OpensInvoke t i) :
    dialectScans t schemas = dialectScans (t.drop k) schemas := by
  have hforms : ∀ r ∈ [DialectRegex.invoke, DialectRegex.deepSeek, DialectRegex.kimi,
      DialectRegex.toolCall, DialectRegex.function],
      ∀ i < k, Regex.runs r (t.drop i) = [] := by
    intro r hr i hi
    have hopened : ∀ w m b, m ∈ ALL_MARKERS → (0x3C :: m) <+: w →
        Regex.runs (.seq (.lit w) b) (t.drop i) = [] := fun w m b hm hw =>
      runs_seq_lit_eq_nil b fun hpre => not_opened_of_lt h hi hm (hw.trans hpre)
    have hmarker : ∀ w b, w ∈ ALL_MARKERS → Regex.runs (.seq (.lit w) b) (t.drop i) = [] :=
      fun w b hw => runs_seq_lit_eq_nil b fun hpre =>
        not_markerAt_of_lt h hi (markerAt_of_startsAt hw hpre)
    simp only [List.mem_cons, List.not_mem_nil, or_false] at hr
    rcases hr with rfl | rfl | rfl | rfl | rfl
    · by_contra hne
      obtain ⟨m, hm⟩ := List.exists_mem_of_ne_nil _ hne
      rcases prefix_of_invoke hm with hplain | hdsml
      · exact hinvoke i hi hplain
      · exact not_opened_of_lt h hi (by decide) hdsml
    · exact hopened (text "<｜tool▁sep｜>") (text "｜tool▁sep｜") _ (by decide) (by decide)
    · exact hopened (text "<|tool_call_begin|>") (text "|tool_call_begin|") _ (by decide) (by decide)
    · exact hmarker (text "<tool_call>") _ (by decide)
    · exact hmarker (text "<function=") _ (by decide)
  have hscan : ∀ r ∈ [DialectRegex.invoke, DialectRegex.deepSeek, DialectRegex.kimi,
      DialectRegex.toolCall, DialectRegex.function], r.matchAll t = r.matchAll (t.drop k) :=
    fun r hr => matchAll_drop (hforms r hr)
  simp only [dialectScans, fromInvokeForm, fromDeepSeekForm, fromKimiTokenForm, fromTaggedJsonForms]
  rw [hscan DialectRegex.invoke (by simp), hscan DialectRegex.deepSeek (by simp),
    hscan DialectRegex.kimi (by simp), hscan DialectRegex.toolCall (by simp),
    hscan DialectRegex.function (by simp)]

/-! ## The outcome -/

theorem includes_drop (h : markerStart t = some k) (hm : m ∈ ALL_MARKERS) :
    t.includes m = Text.includes (t.drop k) m := by
  rw [Bool.eq_iff_iff, Text.includes_iff, Text.includes_iff]
  constructor
  · rintro ⟨u, v, huv⟩
    have hat : m <+: t.drop u.length := by
      refine ⟨v, ?_⟩
      rw [← huv, List.append_assoc, List.drop_left]
    have hku : k ≤ u.length := Nat.not_lt.mp fun hlt =>
      not_markerAt_of_lt h hlt (markerAt_of_startsAt hm hat)
    have hdrop : t.drop u.length = (t.drop k).drop (u.length - k) := by
      rw [List.drop_drop, Nat.add_sub_cancel' hku]
    rw [hdrop] at hat
    exact hat.isInfix.trans (List.drop_suffix _ _).isInfix
  · intro hin
    exact hin.trans (List.drop_suffix k t).isInfix

theorem detectDialect_drop (h : markerStart t = some k) :
    detectDialect t = detectDialect (t.drop k) := by
  unfold detectDialect
  congr 1
  refine List.find?_congr fun d hd => ?_
  rw [Bool.eq_iff_iff, List.any_eq_true, List.any_eq_true]
  refine exists_congr fun m => and_congr_right fun hm => ?_
  rw [includes_drop h (List.mem_flatMap.mpr ⟨d, hd, hm⟩)]

/-- An outcome up to the prose that survives. -/
def DialectOutcome.withoutProse : DialectOutcome → DialectOutcome
  | parsed calls _ dialect => parsed calls [] dialect
  | out => out

/-- **The recovery of the rest finds what the recovery of the text does.** -/
theorem recoverToolCalls_drop (isDestructive : Text → Bool)
    (h : markerStart t = some k) (hinvoke : ∀ i < k, ¬ OpensInvoke t i) :
    (recoverToolCalls t schemas isDestructive).withoutProse
      = (recoverToolCalls (t.drop k) schemas isDestructive).withoutProse := by
  unfold recoverToolCalls
  rw [← detectDialect_drop h, ← dialectScans_drop schemas h hinvoke]
  cases detectDialect t with
  | none => rfl
  | some dialect =>
    dsimp only
    split
    · rfl
    · split <;> rfl

theorem recoverToolCalls_of_markerStart_none (isDestructive : Text → Bool)
    (h : markerStart t = none) : recoverToolCalls t schemas isDestructive = .none := by
  have hnone : detectDialect t = none := by
    rw [detectDialect, Option.map_eq_none_iff, List.find?_eq_none]
    intro d hd hany
    obtain ⟨m, hm, hin⟩ := List.any_eq_true.mp hany
    have hat := (any_includes_iff t).mp (List.any_eq_true.mpr
      ⟨m, List.mem_flatMap.mpr ⟨d, hd, hm⟩, hin⟩)
    obtain ⟨i, hi⟩ := hat
    have hfirst : firstMarker t = none := Option.map_eq_none_iff.mp h
    exact firstMarker_eq_none_iff.mp hfirst i hi
  rw [recoverToolCalls, hnone]

/-! ## Both wrappers -/

theorem cleanCut_of_markerStart {deltas : List Text}
    (h : markerStart deltas.flatten = firstMarker deltas.flatten) : CleanCut deltas := by
  rintro a b - ⟨n, m, hn, hne, -⟩
  rw [h, hn] at hne
  exact hne rfl

theorem isEvent_of {type : Text} (h : (parseSseEvent f.frame).map SseEvent.type = some type) :
    IsEvent type f := by
  obtain ⟨ev, hev, htype⟩ := Option.map_eq_some_iff.mp h
  exact ⟨ev, hev, htype⟩

theorem isTextFrame_of {delta : Text}
    (htype : (parseSseEvent f.frame).map SseEvent.type = some (text "content_block_delta"))
    (hdelta : (parseSseEvent f.frame).bind SseEvent.textDelta? = some delta) :
    IsTextFrame f delta := by
  obtain ⟨ev, hev, htype⟩ := Option.map_eq_some_iff.mp htype
  rw [hev] at hdelta
  exact .inl ⟨ev, hev, htype, hdelta⟩

/-- The frame of one event. -/
def frameOf (event : Text) : SseFrame :=
  ⟨event.take (event.length - 2), text "\n\n", event⟩

/-- A stream in one chunk. -/
def streamOf (events : List Text) : ByteStream :=
  ⟨[encodeUtf8 events.flatten], .done⟩

/-- The events of a message with one text block. -/
def messageEvents (deltas : List Text) : List Text :=
  sseEvent (text "content_block_start") [(text "index", .num 0)]
    :: deltas.map (fun t => (sseDelta 0 t).encode)
    ++ [sseEvent (text "content_block_stop") [], sseEvent (text "message_delta") [],
      sseEvent (text "message_stop") []]

/-- The data of a chat event with one choice. -/
def chatData (choice : List (Text × Json)) : Json :=
  .obj [(text "choices", .arr [.obj choice])]

/-- The choice of a content delta. -/
def contentChoice (t : Text) : List (Text × Json) :=
  [(text "delta", .obj [(text "content", .str t)])]

/-- The choice that ends a chat stream. -/
def finishChoice : List (Text × Json) :=
  [(text "delta", .obj []), (text "finish_reason", .str (text "stop"))]

/-- The events of a chat stream with one choice. -/
def chatEvents (deltas : List Text) : List Text :=
  deltas.map (fun t => encodeEvent [] (some (chatData (contentChoice t))))
    ++ [encodeEvent [] (some (chatData finishChoice)), encodeEvent [] none]

/-- A tool call in two deltas. -/
def cutDeltas : List Text :=
  [text "a <to", text "ol_call>" ++ (Json.obj [(text "name", .str (text "f"))]).stringify
    ++ text "</tool_call>"]

theorem cutDeltas_clean : CleanCut cutDeltas :=
  cleanCut_of_markerStart (by decide +kernel)

/-- The frames of a message with one text block. -/
def messageStream {deltas : List Text}
    (hframes : (decodedFrames (streamOf (messageEvents deltas)).bytes).drain.1
      = (messageEvents deltas).map frameOf)
    (htexts : List.Forall₂ IsTextFrame (deltas.map fun t => frameOf (sseDelta 0 t).encode) deltas) :
    TextStream (decodedFrames (streamOf (messageEvents deltas)).bytes).drain.1 deltas where
  before := []
  start := frameOf (sseEvent (text "content_block_start") [(text "index", .num 0)])
  texts := deltas.map fun t => frameOf (sseDelta 0 t).encode
  stop := frameOf (sseEvent (text "content_block_stop") [])
  messageDelta := frameOf (sseEvent (text "message_delta") [])
  messageStop := frameOf (sseEvent (text "message_stop") [])
  shape := by
    rw [hframes]
    simp [messageEvents, Function.comp_def]
  before_passive := by simp
  start_event := isEvent_of (by decide +kernel)
  texts_deltas := htexts
  stop_event := isEvent_of (by decide +kernel)
  messageDelta_event := isEvent_of (by decide +kernel)
  messageStop_event := isEvent_of (by decide +kernel)

/-- The tool call in a message. -/
def cutMessage :
    TextStream (decodedFrames (streamOf (messageEvents cutDeltas)).bytes).drain.1 cutDeltas :=
  messageStream (by decide +kernel)
    (.cons (isTextFrame_of (by decide +kernel) (by decide +kernel))
      (.cons (isTextFrame_of (by decide +kernel) (by decide +kernel)) .nil))

theorem isChatText_content (h : (parseChatEvent f.raw).data = .record (chatData (contentChoice t))) :
    IsChatText 0 f t :=
  .inl ⟨chatData (contentChoice t), .obj (contentChoice t), ⟨h, rfl, rfl, rfl, rfl⟩, rfl, rfl⟩

/-- The tool call in a chat stream. -/
def cutChat : ChatTextStream (streamOf (chatEvents cutDeltas)) 0 cutDeltas where
  texts := cutDeltas.map fun t => frameOf (encodeEvent [] (some (chatData (contentChoice t))))
  heads := cutDeltas
  last := frameOf (encodeEvent [] (some (chatData finishChoice)))
  data := chatData finishChoice
  choice := .obj finishChoice
  after := []
  done := frameOf (encodeEvent [] none)
  ending := rfl
  shape := by decide +kernel
  complete := by decide +kernel
  texts_heads := .cons (isChatText_content (by decide +kernel)) (.cons (isChatText_content (by decide +kernel)) .nil)
  last_choice := ⟨by decide +kernel, by decide +kernel, rfl, rfl, rfl⟩
  last_finish := by decide +kernel
  deltas_eq := by decide +kernel
  after_passive := by simp
  done_sentinel := by decide +kernel

/-- A marker behind a tag opener, cut in its middle. -/
def splitDeltas : List Text :=
  [text "a<", text "｜DS", text "ML｜tool_calls>"]

end LlmRelay
