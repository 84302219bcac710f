import LlmRelay.Dialects.Recover

/-!
# Destructive refusal

A text that holds a well-framed call block of a destructive tool should be
refused, whatever else it holds. The names the parsers recognise are those of
the blocks their left-to-right scans meet; two of the parsers stop their scan at
the first malformed block.

## Main definitions

* `DialectForm`: the five block forms, with their expressions and names;
* `DestructiveBlock`: a well-framed block that names a destructive tool;
* `MetIn`, `Meets`: the scan of a form meets such a block before it stops.

## Main results

* `scan_names_iff`: the recognised names are the names met by the scans;
* `destructive_refusal_iff`: the refusal is independent of the other blocks
  exactly when some scan meets a destructive block.
-/

namespace LlmRelay

open Ecma

/-- The block forms of the modelled dialects. -/
inductive DialectForm where
  | invoke
  | deepSeek
  | kimi
  | toolCall
  | function
  deriving DecidableEq, Repr

namespace DialectForm

/-- The framing of a form. -/
def regex : DialectForm → Regex
  | invoke => DialectRegex.invoke
  | deepSeek => DialectRegex.deepSeek
  | kimi => DialectRegex.kimi
  | toolCall => DialectRegex.toolCall
  | function => DialectRegex.function

/-- The name a block states, possibly empty. -/
def statedName? (f : DialectForm) (m : Regex.Match) : Option Text :=
  match f with
  | invoke => some (m.get 0)
  | deepSeek => some (m.get 0).trim
  | kimi => if m.get 0 = [] then none else kimiName? (m.get 0)
  | toolCall => payloadName? (m.get 0)
  | function => some (m.get 0).trim

/-- The tool a block names. -/
def name? (f : DialectForm) (m : Regex.Match) : Option Text :=
  (f.statedName? m).filter fun n => n != []

/-- The scan of a form goes on after a block. -/
def GoesOn (f : DialectForm) (m : Regex.Match) : Prop :=
  match f with
  | deepSeek => m.get 0 = [] ∨ (objectPayload? (m.get 1)).isSome = true
  | kimi =>
    m.get 0 = []
      ∨ (kimiName? (m.get 0)).isSome = true ∧ (objectPayload? (m.get 1)).isSome = true
  | _ => True

/-- The name of a block is read: a JSON payload also has to state arguments that
are an object. -/
def Readable (f : DialectForm) (m : Regex.Match) : Prop :=
  f = toolCall → (fromJsonPayload (m.get 0)).isSome = true

end DialectForm

/-- A scan that goes on after the blocks `goesOn` meets a block with the property. -/
def MetIn (goesOn P : Regex.Match → Prop) : List Regex.Match → Prop
  | [] => False
  | m :: rest => P m ∨ goesOn m ∧ MetIn goesOn P rest

section Text

variable (isDestructive : Text → Bool) (t : Text)

/-- A well-framed block of the text that names a destructive tool. -/
def DestructiveBlock (f : DialectForm) (m : Regex.Match) : Prop :=
  f.regex.IsBlock t m ∧ ∃ n, f.name? m = some n ∧ isDestructive n = true

/-- The scan of a form meets a block that names a destructive tool and is read. -/
def Meets (f : DialectForm) : Prop :=
  MetIn f.GoesOn
    (fun m => f.Readable m ∧ ∃ n, f.name? m = some n ∧ isDestructive n = true)
    (f.regex.matchAll t)

end Text

/-! ## Scans -/

theorem metIn_congr {goesOn P Q : Regex.Match → Prop} (h : ∀ m, P m ↔ Q m)
    (ms : List Regex.Match) : MetIn goesOn P ms ↔ MetIn goesOn Q ms := by
  induction ms with
  | nil => exact Iff.rfl
  | cons m rest ih => simp only [MetIn, h, ih]

theorem metIn_true_iff {P : Regex.Match → Prop} (ms : List Regex.Match) :
    MetIn (fun _ => True) P ms ↔ ∃ m ∈ ms, P m := by
  induction ms with
  | nil => simp [MetIn]
  | cons m rest ih => simp [MetIn, ih]

variable {ms : List Regex.Match}

theorem exists_of_metIn {goesOn P : Regex.Match → Prop} (h : MetIn goesOn P ms) :
    ∃ m ∈ ms, P m := by
  induction ms with
  | nil => exact h.elim
  | cons m rest ih =>
    rcases h with h | ⟨-, h⟩
    · exact ⟨m, by simp, h⟩
    · obtain ⟨m', hm', hP⟩ := ih h
      exact ⟨m', List.mem_cons_of_mem m hm', hP⟩

theorem MetIn.imp {goesOn P Q : Regex.Match → Prop} (h : ∀ m, P m → Q m) (hm : MetIn goesOn P ms) :
    MetIn goesOn Q ms := by
  induction ms with
  | nil => exact hm
  | cons m rest ih =>
    rcases hm with hm | ⟨hgo, hm⟩
    · exact .inl (h m hm)
    · exact .inr ⟨hgo, ih hm⟩

theorem MetIn.exists_block {goesOn P : Regex.Match → Prop} (hm : MetIn goesOn P ms) :
    ∃ m, P m ∧ MetIn goesOn (· = m) ms := by
  induction ms with
  | nil => exact hm.elim
  | cons m rest ih =>
    rcases hm with hm | ⟨hgo, hm⟩
    · exact ⟨m, hm, .inl rfl⟩
    · obtain ⟨m', hP, hmet⟩ := ih hm
      exact ⟨m', hP, .inr ⟨hgo, hmet⟩⟩

/-! ## The names each parser recognises -/

theorem invokeScan_names (schemas : ToolSchemas) (n : Text) (found : DialectScan)
    (ms : List Regex.Match) :
    n ∈ (invokeScan schemas found ms).names
      ↔ n ∈ found.names ∨ ∃ m ∈ ms, m.get 0 ≠ [] ∧ n = m.get 0 := by
  induction ms generalizing found with
  | nil => simp [invokeScan]
  | cons m rest ih =>
    rw [invokeScan]
    by_cases hname : m.get 0 = []
    · simp [hname, ih]
    · simp [hname, ih, or_assoc]

variable (n : Text)

variable (found : DialectScan)

include found

theorem deepSeekScan_names (ms : List Regex.Match) :
    n ∈ (deepSeekScan found ms).names
      ↔ n ∈ found.names
        ∨ MetIn DialectForm.deepSeek.GoesOn (fun m => m.get 0 ≠ [] ∧ n = (m.get 0).trim) ms := by
  induction ms generalizing found with
  | nil => simp [deepSeekScan, MetIn]
  | cons m rest ih =>
    rw [deepSeekScan]
    by_cases hname : m.get 0 = []
    · simp [hname, ih, MetIn, DialectForm.GoesOn]
    · cases hp : objectPayload? (m.get 1) with
      | none => simp [hname, hp, MetIn, DialectForm.GoesOn]
      | some input =>
        simp [hname, hp, ih, MetIn, DialectForm.GoesOn, or_assoc]

theorem kimiScan_names (ms : List Regex.Match) :
    n ∈ (kimiScan found ms).names
      ↔ n ∈ found.names
        ∨ MetIn DialectForm.kimi.GoesOn
            (fun m => m.get 0 ≠ [] ∧ some n = kimiName? (m.get 0)) ms := by
  induction ms generalizing found with
  | nil => simp [kimiScan, MetIn]
  | cons m rest ih =>
    rw [kimiScan]
    by_cases htoken : m.get 0 = []
    · simp [htoken, ih, MetIn, DialectForm.GoesOn]
    · cases hname : kimiName? (m.get 0) with
      | none => simp [htoken, hname, MetIn, DialectForm.GoesOn]
      | some name =>
        cases hp : objectPayload? (m.get 1) with
        | none => simp [htoken, hname, hp, MetIn, DialectForm.GoesOn]
        | some input =>
          simp [htoken, hname, hp, ih, MetIn, DialectForm.GoesOn, or_assoc]

theorem toolCallScan_names (ms : List Regex.Match) :
    n ∈ (toolCallScan found ms).names
      ↔ n ∈ found.names ∨ ∃ m ∈ ms, some n = (fromJsonPayload (m.get 0)).map (·.name) := by
  induction ms generalizing found with
  | nil => simp [toolCallScan]
  | cons m rest ih =>
    rw [toolCallScan]
    cases hc : fromJsonPayload (m.get 0) with
    | none => simp [hc, ih]
    | some c => simp [hc, ih, or_assoc, @eq_comm _ n c.name]

theorem functionScan_names (ms : List Regex.Match) :
    n ∈ (functionScan found ms).names
      ↔ n ∈ found.names ∨ ∃ m ∈ ms, m.get 0 ≠ [] ∧ n = (m.get 0).trim := by
  induction ms generalizing found with
  | nil => simp [functionScan]
  | cons m rest ih =>
    rw [functionScan]
    by_cases hname : m.get 0 = []
    · simp [hname, ih]
    · -- whatever the payload is, the name was recognised
      have hnames : ∀ calls, n ∈ (functionScan ⟨calls, found.names ++ [(m.get 0).trim]⟩ rest).names
          ↔ n ∈ found.names ∨ ∃ m' ∈ m :: rest, m'.get 0 ≠ [] ∧ n = (m'.get 0).trim := by
        intro calls
        simp [ih, hname, or_assoc]
      simp only [hname, if_false]
      split <;> exact hnames _

omit found

theorem payloadName?_of_fromJsonPayload {raw : Text} {c : DialectToolCall}
    (h : fromJsonPayload raw = some c) : payloadName? raw = some c.name := by
  unfold fromJsonPayload at h
  unfold payloadName?
  cases hj : Json.record? (Json.parse raw.trim) with
  | none => simp [hj] at h
  | some j =>
    simp only [hj] at h
    cases hn : Json.string? (j.get? (text "name")) with
    | none => simp [hn] at h
    | some name =>
      simp only [hn] at h
      split at h
      · cases h
      · rename_i hne
        have hname : c.name = name := by
          split at h
          · obtain ⟨input, -, rfl⟩ := Option.map_eq_some_iff.mp h
            rfl
          · cases h
            rfl
          · cases h
        simp [hn, hname, hne]

/-- A block whose name is read. -/
def DialectForm.Recognises (f : DialectForm) (n : Text) (m : Regex.Match) : Prop :=
  f.Readable m ∧ f.name? m = some n

variable {f : DialectForm}

theorem name?_eq_some_iff {m : Regex.Match} {n : Text} (hn : n ≠ []) :
    f.name? m = some n ↔ f.statedName? m = some n := by
  simp [DialectForm.name?, hn]

theorem ne_nil_of_trim_ne_nil {s : Text} (h : s.trim ≠ []) : s ≠ [] := by
  rintro rfl
  exact h rfl

section Recognised

variable {n : Text} (hn : n ≠ []) (m : Regex.Match)
include hn

theorem invoke_recognises_iff :
    (m.get 0 ≠ [] ∧ n = m.get 0) ↔ DialectForm.invoke.Recognises n m := by
  rw [DialectForm.Recognises, name?_eq_some_iff hn]
  constructor
  · rintro ⟨-, rfl⟩
    exact ⟨nofun, rfl⟩
  · rintro ⟨-, h⟩
    have h := Option.some.inj h
    exact ⟨h ▸ hn, h.symm⟩

theorem deepSeek_recognises_iff :
    (m.get 0 ≠ [] ∧ n = (m.get 0).trim) ↔ DialectForm.deepSeek.Recognises n m := by
  rw [DialectForm.Recognises, name?_eq_some_iff hn]
  constructor
  · rintro ⟨-, rfl⟩
    exact ⟨nofun, rfl⟩
  · rintro ⟨-, h⟩
    have h := Option.some.inj h
    exact ⟨ne_nil_of_trim_ne_nil (h ▸ hn), h.symm⟩

theorem function_recognises_iff :
    (m.get 0 ≠ [] ∧ n = (m.get 0).trim) ↔ DialectForm.function.Recognises n m := by
  rw [DialectForm.Recognises, name?_eq_some_iff hn]
  constructor
  · rintro ⟨-, rfl⟩
    exact ⟨nofun, rfl⟩
  · rintro ⟨-, h⟩
    have h := Option.some.inj h
    exact ⟨ne_nil_of_trim_ne_nil (h ▸ hn), h.symm⟩

theorem kimi_recognises_iff :
    (m.get 0 ≠ [] ∧ some n = kimiName? (m.get 0)) ↔ DialectForm.kimi.Recognises n m := by
  rw [DialectForm.Recognises, name?_eq_some_iff hn]
  by_cases htoken : m.get 0 = []
  · simp [DialectForm.statedName?, htoken]
  · simp [DialectForm.statedName?, DialectForm.Readable, @eq_comm _ (some n)]

theorem toolCall_recognises_iff :
    some n = (fromJsonPayload (m.get 0)).map (·.name)
      ↔ DialectForm.toolCall.Recognises n m := by
  rw [DialectForm.Recognises, name?_eq_some_iff hn]
  cases hc : fromJsonPayload (m.get 0) with
  | none => simp [DialectForm.Readable, hc]
  | some c =>
    simp [DialectForm.Readable, DialectForm.statedName?, hc,
      payloadName?_of_fromJsonPayload hc, @eq_comm _ n]

end Recognised

/-- **The recognised names are the names met by the scans.** -/
theorem scan_names_iff (t : Text) (schemas : ToolSchemas) {n : Text} (hn : n ≠ []) :
    (∃ s ∈ dialectScans t schemas, n ∈ s.names)
      ↔ ∃ f : DialectForm, MetIn f.GoesOn (f.Recognises n) (f.regex.matchAll t) := by
  have hinvoke : n ∈ (fromInvokeForm t schemas).names
      ↔ MetIn DialectForm.invoke.GoesOn (DialectForm.invoke.Recognises n)
          (DialectForm.invoke.regex.matchAll t) := by
    rw [fromInvokeForm, invokeScan_names, ← metIn_congr (invoke_recognises_iff hn)]
    refine Iff.trans ?_ (metIn_true_iff _).symm
    simp only [List.not_mem_nil, false_or]
    rfl
  have hdeepSeek : n ∈ (fromDeepSeekForm t).names
      ↔ MetIn DialectForm.deepSeek.GoesOn (DialectForm.deepSeek.Recognises n)
          (DialectForm.deepSeek.regex.matchAll t) := by
    rw [fromDeepSeekForm, deepSeekScan_names, ← metIn_congr (deepSeek_recognises_iff hn)]
    simp only [List.not_mem_nil, false_or]
    rfl
  have hkimi : n ∈ (fromKimiTokenForm t).names
      ↔ MetIn DialectForm.kimi.GoesOn (DialectForm.kimi.Recognises n)
          (DialectForm.kimi.regex.matchAll t) := by
    rw [fromKimiTokenForm, kimiScan_names, ← metIn_congr (kimi_recognises_iff hn)]
    simp only [List.not_mem_nil, false_or]
    rfl
  have htagged : n ∈ (fromTaggedJsonForms t).names
      ↔ MetIn DialectForm.toolCall.GoesOn (DialectForm.toolCall.Recognises n)
            (DialectForm.toolCall.regex.matchAll t)
        ∨ MetIn DialectForm.function.GoesOn (DialectForm.function.Recognises n)
            (DialectForm.function.regex.matchAll t) := by
    rw [fromTaggedJsonForms, functionScan_names, toolCallScan_names,
      ← metIn_congr (toolCall_recognises_iff hn), ← metIn_congr (function_recognises_iff hn)]
    refine or_congr ?_ (metIn_true_iff _).symm
    refine Iff.trans ?_ (metIn_true_iff _).symm
    simp only [List.not_mem_nil, false_or]
    rfl
  constructor
  · rintro ⟨s, hs, hns⟩
    simp only [dialectScans, List.mem_cons, List.not_mem_nil, or_false] at hs
    rcases hs with rfl | rfl | rfl | rfl
    · exact ⟨.invoke, hinvoke.mp hns⟩
    · exact ⟨.deepSeek, hdeepSeek.mp hns⟩
    · exact ⟨.kimi, hkimi.mp hns⟩
    · rcases htagged.mp hns with h | h
      · exact ⟨.toolCall, h⟩
      · exact ⟨.function, h⟩
  · rintro ⟨f, hf⟩
    cases f with
    | invoke => exact ⟨_, by simp [dialectScans], hinvoke.mpr hf⟩
    | deepSeek => exact ⟨fromDeepSeekForm t, by simp [dialectScans], hdeepSeek.mpr hf⟩
    | kimi => exact ⟨fromKimiTokenForm t, by simp [dialectScans], hkimi.mpr hf⟩
    | toolCall => exact ⟨fromTaggedJsonForms t, by simp [dialectScans], htagged.mpr (.inl hf)⟩
    | function => exact ⟨fromTaggedJsonForms t, by simp [dialectScans], htagged.mpr (.inr hf)⟩

/-! ## The calls are among the names -/

/-- Every committed call was recognised. -/
def DialectScan.Sound (s : DialectScan) : Prop :=
  ∀ c ∈ s.calls, c.name ∈ s.names

theorem DialectScan.Sound.snoc {s : DialectScan} (h : s.Sound) (name : Text) (input : Json) :
    (⟨s.calls ++ [⟨name, input⟩], s.names ++ [name]⟩ : DialectScan).Sound := by
  intro c hc
  simp only [List.mem_append, List.mem_singleton] at hc ⊢
  rcases hc with hc | rfl
  · exact .inl (h c hc)
  · exact .inr rfl

theorem DialectScan.sound_nil (names : List Text) : (⟨[], names⟩ : DialectScan).Sound :=
  fun _ hc => absurd hc List.not_mem_nil

variable {found : DialectScan}

theorem invokeScan_sound (schemas : ToolSchemas) (h : found.Sound) (ms : List Regex.Match) :
    (invokeScan schemas found ms).Sound := by
  induction ms generalizing found with
  | nil => exact h
  | cons m rest ih =>
    rw [invokeScan]
    split
    · exact ih h
    · exact ih (h.snoc _ _)

variable (h : found.Sound)

include h

theorem deepSeekScan_sound (ms : List Regex.Match) : (deepSeekScan found ms).Sound := by
  induction ms generalizing found with
  | nil => exact h
  | cons m rest ih =>
    rw [deepSeekScan]
    split
    · exact ih h
    · split
      · exact ih (h.snoc _ _)
      · exact DialectScan.sound_nil _

theorem kimiScan_sound (ms : List Regex.Match) : (kimiScan found ms).Sound := by
  induction ms generalizing found with
  | nil => exact h
  | cons m rest ih =>
    rw [kimiScan]
    split
    · exact ih h
    · split
      · exact DialectScan.sound_nil _
      · split
        · exact ih (h.snoc _ _)
        · exact DialectScan.sound_nil _

theorem toolCallScan_sound (ms : List Regex.Match) : (toolCallScan found ms).Sound := by
  induction ms generalizing found with
  | nil => exact h
  | cons m rest ih =>
    rw [toolCallScan]
    split
    · exact ih (h.snoc _ _)
    · exact ih h

theorem functionScan_sound (ms : List Regex.Match) : (functionScan found ms).Sound := by
  induction ms generalizing found with
  | nil => exact h
  | cons m rest ih =>
    rw [functionScan]
    split
    · exact ih h
    · split
      · exact ih fun c hc => List.mem_append_left _ (h c hc)
      · exact ih (h.snoc _ _)
      · exact ih (h.snoc _ _)
      · exact ih (h.snoc _ _)

omit h

theorem dialectScans_sound (t : Text) (schemas : ToolSchemas) {s : DialectScan}
    (hs : s ∈ dialectScans t schemas) : s.Sound := by
  simp only [dialectScans, List.mem_cons, List.not_mem_nil, or_false] at hs
  rcases hs with rfl | rfl | rfl | rfl
  · exact invokeScan_sound schemas (DialectScan.sound_nil _) _
  · exact deepSeekScan_sound (DialectScan.sound_nil _) _
  · exact kimiScan_sound (DialectScan.sound_nil _) _
  · exact functionScan_sound (toolCallScan_sound (DialectScan.sound_nil _) _) _

/-! ## Blocks hold markers -/

theorem contains_invoke_close :
    Regex.Contains (.seq (.lit (text "</")) (.seq DialectRegex.dsml (.lit (text "invoke>"))))
      ALL_MARKERS := by
  intro t m hm
  obtain ⟨ma, hma, mb, hmb, rfl⟩ := Regex.mem_runs_seq hm
  obtain ⟨mc, hmc, md, hmd, rfl⟩ := Regex.mem_runs_seq hmb
  simp only [Regex.Match.after, Regex.mem_runs_lit hma, Regex.mem_runs_lit hmd]
  rcases Regex.mem_runs_opt_lit hmc with h | h
  · exact ⟨text "｜DSML｜invoke", by decide, text "</", text ">", by rw [h]; decide⟩
  · exact ⟨text "</invoke>", by decide, [], [], by rw [h]; decide⟩

theorem DialectForm.contains_marker (f : DialectForm) : f.regex.Contains ALL_MARKERS := by
  have hlit : ∀ w v : Text, w ∈ ALL_MARKERS → w <:+: v → Regex.Contains (.lit v) ALL_MARKERS :=
    fun w v hw hv => Regex.contains_lit hw hv
  cases f with
  | invoke =>
    show Regex.Contains DialectRegex.invoke ALL_MARKERS
    iterate 10 apply Regex.Contains.seq_right
    exact contains_invoke_close
  | deepSeek =>
    exact (hlit (text "｜tool▁sep｜") _ (by decide) ⟨text "<", text ">", by decide⟩).seq_left _
  | kimi =>
    exact (hlit (text "|tool_call_begin|") _ (by decide) ⟨text "<", text ">", by decide⟩).seq_left _
  | toolCall => exact (hlit (text "<tool_call>") _ (by decide) ⟨[], [], by decide⟩).seq_left _
  | function => exact (hlit (text "<function=") _ (by decide) ⟨[], [], by decide⟩).seq_left _

/-- **A text with a block of some form has a dialect.** -/
theorem detectDialect_of_block {t : Text} {m : Regex.Match}
    (h : f.regex.IsBlock t m) : ∃ dialect, detectDialect t = some dialect := by
  obtain ⟨marker, hmarker, hin⟩ := h.contains f.contains_marker
  exact detectDialect_isSome hmarker hin

/-! ## The refusal -/

section Refusal

variable (t : Text) (schemas : ToolSchemas) (isDestructive : Text → Bool)

/-- The destructive names the scans recognised. -/
def destructiveNames : List Text :=
  ((dialectScans t schemas).flatMap (·.names)).filter fun n => n != [] && isDestructive n

theorem mem_destructiveNames {n : Text} :
    n ∈ destructiveNames t schemas isDestructive
      ↔ n ≠ [] ∧ isDestructive n = true ∧ ∃ s ∈ dialectScans t schemas, n ∈ s.names := by
  simp only [destructiveNames, List.mem_filter, List.mem_flatMap, Bool.and_eq_true, bne_iff_ne]
  tauto

theorem meets_iff :
    (∃ f, Meets isDestructive t f) ↔ ∃ n, n ∈ destructiveNames t schemas isDestructive := by
  constructor
  · rintro ⟨f, hf⟩
    obtain ⟨m, ⟨hreadable, n, hname, hdestructive⟩, hmet⟩ := hf.exists_block
    have hne : n ≠ [] := by
      simpa using (Option.filter_eq_some_iff.mp hname).2
    have hrec : MetIn f.GoesOn (f.Recognises n) (f.regex.matchAll t) := by
      refine hmet.imp ?_
      rintro _ rfl
      exact ⟨hreadable, hname⟩
    exact ⟨n, (mem_destructiveNames t schemas isDestructive).mpr
      ⟨hne, hdestructive, (scan_names_iff t schemas hne).mpr ⟨f, hrec⟩⟩⟩
  · rintro ⟨n, hn⟩
    obtain ⟨hne, hdestructive, hscan⟩ := (mem_destructiveNames t schemas isDestructive).mp hn
    obtain ⟨f, hf⟩ := (scan_names_iff t schemas hne).mp hscan
    exact ⟨f, hf.imp fun m hm => ⟨hm.1, n, hm.2, hdestructive⟩⟩

theorem block_of_meets (h : Meets isDestructive t f) :
    ∃ m, DestructiveBlock isDestructive t f m := by
  obtain ⟨m, hm, -, hname⟩ := exists_of_metIn h
  exact ⟨m, Regex.isBlock_of_mem_matchAll hm, hname⟩

theorem isRefusal_iff_meets :
    (recoverToolCalls t schemas isDestructive).isRefusal = true ↔ ∃ f, Meets isDestructive t f := by
  have hnames : (destructiveNames t schemas isDestructive).eraseDups ≠ []
      ↔ ∃ n, n ∈ destructiveNames t schemas isDestructive := by
    constructor
    · intro h
      obtain ⟨n, hn⟩ := List.exists_mem_of_ne_nil _ h
      exact ⟨n, List.mem_eraseDups.mp hn⟩
    · rintro ⟨n, hn⟩
      exact List.ne_nil_of_mem (List.mem_eraseDups.mpr hn)
  constructor
  · intro h
    rw [meets_iff t schemas, ← hnames]
    unfold recoverToolCalls at h
    split at h
    · cases h
    · dsimp only at h
      split at h
      · rename_i hne
        exact hne
      · split at h <;> cases h
  · intro h
    obtain ⟨f, hf⟩ := h
    obtain ⟨m, hblock, -⟩ := block_of_meets t isDestructive hf
    obtain ⟨dialect, hdialect⟩ := detectDialect_of_block hblock
    have hne := hnames.mpr ((meets_iff t schemas isDestructive).mp ⟨f, hf⟩)
    rw [recoverToolCalls, hdialect]
    dsimp only
    rw [if_pos (by exact hne)]
    rfl

theorem parsed_not_destructive {calls : List DialectToolCall} {prose dialect : Text}
    (h : recoverToolCalls t schemas isDestructive = .parsed calls prose dialect)
    {c : DialectToolCall} (hc : c ∈ calls) : isDestructive c.name = false := by
  unfold recoverToolCalls at h
  split at h
  · cases h
  · dsimp only at h
    split at h
    · cases h
    · rename_i hnone
      split at h
      · cases h
      · injection h with hcalls
        rw [← hcalls, List.mem_filter, List.mem_flatMap] at hc
        obtain ⟨⟨s, hs, hcs⟩, hne⟩ := hc
        by_contra hdestructive
        have hname : c.name ∈ destructiveNames t schemas isDestructive :=
          (mem_destructiveNames t schemas isDestructive).mpr
            ⟨by simpa using hne, by simpa using hdestructive, s, hs,
              dialectScans_sound t schemas hs c hcs⟩
        exact hnone (List.ne_nil_of_mem (List.mem_eraseDups.mpr hname))

/-- **Destructive refusal**: a destructive block leads to the refusal, and no
parsed outcome holds a destructive call, exactly when the scan of some form meets
a destructive block, should there be any. -/
theorem destructive_refusal_iff :
    ((∃ f m, DestructiveBlock isDestructive t f m) →
          (recoverToolCalls t schemas isDestructive).isRefusal = true)
        ∧ (∀ calls prose dialect,
            recoverToolCalls t schemas isDestructive = .parsed calls prose dialect →
            ∀ c ∈ calls, isDestructive c.name = false)
      ↔ ((∃ f m, DestructiveBlock isDestructive t f m) → ∃ f, Meets isDestructive t f) := by
  constructor
  · rintro ⟨hrefusal, -⟩ hblock
    exact (isRefusal_iff_meets t schemas isDestructive).mp (hrefusal hblock)
  · intro hmeets
    refine ⟨fun hblock => ?_, fun calls prose dialect h c hc => ?_⟩
    · exact (isRefusal_iff_meets t schemas isDestructive).mpr (hmeets hblock)
    · exact parsed_not_destructive t schemas isDestructive h hc

end Refusal

/-- A malformed DeepSeek call before a well-framed one of `Bash`. -/
def hiddenBashText : Text :=
  text "<｜tool▁sep｜>Read\nnot json<｜tool▁call▁end｜>"
    ++ text "<｜tool▁sep｜>Bash\n\x7b\x7d<｜tool▁call▁end｜>"

/-- The malformed call hides the destructive one: the text is only detected. -/
theorem malformed_block_hides_destructive :
    (∃ m, DestructiveBlock (· == text "Bash") hiddenBashText .deepSeek m)
      ∧ (recoverToolCalls hiddenBashText (fun _ => none) (· == text "Bash")).isRefusal = false := by
  refine ⟨⟨⟨text "<｜tool▁sep｜>Bash\n\x7b\x7d<｜tool▁call▁end｜>", [text "Bash", text "\x7b\x7d"], []⟩,
    ⟨text "<｜tool▁sep｜>Read\nnot json<｜tool▁call▁end｜>", _, rfl, by decide +kernel⟩,
    text "Bash", by decide +kernel⟩, by decide +kernel⟩

end LlmRelay
