import LlmRelay.Dispatch.Lanes

/-!
# Binding a lane's tools to reading

A read-only dispatch is run by a lane whose own command line can be held to reading: the flags of
that line that widen permissions are replaced by the ones that bind it (`readonly-boundary.ts`).
Which tool a lane runs is guessed from the names among its tokens, and the task is one of them.

## Main definitions

* `readOnlyInvoke`: the rewritten invocation, or why there is none;
* `LineArg`: an argument that is known to hold the task, or to be a configured one;
* `keptFrom`: the arguments without the permission flags of a tool and their values;
* `ReadsOnly`: the verdict ignores the task, and an approved line is bound as the tool that runs
  requires;
* `NamesDecide`: the names that lead are configured ones of the tool that runs, and no task is
  taken for a permission flag.

## Main results

* `laneToolOf_eq_codex_iff`, `laneToolOf_eq_claude_iff`: which names decide the guess;
* `boundBy_iff`: the arguments lose the configured permission flags and nothing else exactly where
  no task is taken for one;
* `read_only_binding_iff`: a line reads only exactly where the names decide.
-/

namespace LlmRelay.Dispatch

open Ecma Config

/-! ## Which tool -/

inductive LaneTool where
  | claude | codex | opencode | agy
  deriving DecidableEq

/-- The tool a token is named for, without its directory and its executable suffix. -/
def toolName (token : Text) : Option LaneTool :=
  let base := withoutExecutableSuffix (lowerCase (baseName token))
  if base = text "agy" then some .agy
  else if base = text "codex" then some .codex
  else if base = text "claude" then some .claude
  else if base = text "opencode" then some .opencode
  else none

/-- The first token named for Claude or OpenCode. -/
def scanTokens (tokens : List Text) : Option LaneTool :=
  tokens.findSome? fun token =>
    let base := withoutExecutableSuffix (lowerCase (baseName token))
    if base = text "claude" then some .claude
    else if base = text "opencode" then some .opencode
    else none

def laneToolOf (invoke : Invocation) : Option LaneTool :=
  match laneOfRung invoke.command invoke.args with
  | some known =>
    if known = text "agy" then some .agy
    else if known = text "codex" then some .codex
    else scanTokens (invoke.command :: invoke.args)
  | none => scanTokens (invoke.command :: invoke.args)

/-! ## Rewriting -/

def CLAUDE_READ_ONLY_TOOLS : List Text :=
  [text "Read", text "Glob", text "Grep", text "WebFetch", text "WebSearch"]

def CLAUDE_READ_ONLY_DENIED : List Text :=
  [text "Bash", text "BashOutput", text "KillShell", text "Edit", text "Write", text "MultiEdit",
    text "NotebookEdit", text "Task", text "Agent"]

def CLAUDE_PERMISSION_FLAGS : List Text :=
  [text "--permission-mode", text "--allowedTools", text "--allowed-tools",
    text "--disallowedTools", text "--disallowed-tools", text "--tools",
    text "--dangerously-skip-permissions"]

def CODEX_VALUED_FLAGS : List Text :=
  [text "--sandbox", text "-s"]

def CODEX_BARE_FLAGS : List Text :=
  [text "--full-auto", text "--dangerously-bypass-approvals-and-sandbox", text "--yolo"]

inductive ReadOnlyInvokeVerdict where
  | ok (invoke : Invocation) (binding : Text)
  | refused (reason : Text)

/-- Drops a flag with the token behind it, and its `flag=value` form; `skip` is set behind it. -/
def withoutValuedFlagFrom (flag : Text) : Bool → List Text → List Text
  | _, [] => []
  | true, _ :: rest => withoutValuedFlagFrom flag false rest
  | false, a :: rest =>
    if a = flag then withoutValuedFlagFrom flag true rest
    else if a.startsWith (flag ++ text "=") then withoutValuedFlagFrom flag false rest
    else a :: withoutValuedFlagFrom flag false rest

def withoutValuedFlag (args : List Text) (flag : Text) : List Text :=
  withoutValuedFlagFrom flag false args

def allowedTools : Text :=
  Text.join (text ",") CLAUDE_READ_ONLY_TOOLS

def deniedTools : Text :=
  Text.join (text ",") CLAUDE_READ_ONLY_DENIED

def claudeStripped (args : List Text) : List Text :=
  CLAUDE_PERMISSION_FLAGS.foldl (fun args flag =>
    if flag = text "--dangerously-skip-permissions" then args.filter (· ≠ flag)
    else withoutValuedFlag args flag) args

def claudeBound : List Text :=
  [text "--permission-mode", text "dontAsk", text "--tools", allowedTools, text "--allowedTools",
    allowedTools, text "--disallowedTools", deniedTools]

def claudeBinding : Text :=
  text "claude --permission-mode dontAsk --tools " ++ allowedTools ++ text " (denied: "
    ++ deniedTools ++ text ")"

def readOnlyClaude (invoke : Invocation) : ReadOnlyInvokeVerdict :=
  .ok { invoke with args := claudeStripped invoke.args ++ claudeBound } claudeBinding

def codexStripped (args : List Text) : List Text :=
  (CODEX_VALUED_FLAGS.foldl withoutValuedFlag args).filter fun a => !CODEX_BARE_FLAGS.contains a

def codexBound : List Text :=
  [text "--sandbox", text "read-only"]

def codexBinding : Text :=
  text "codex --sandbox read-only (enforced by Codex's own sandbox policy)"

/-- Behind the first `exec`, or at the front where there is none. -/
def codexInsertAt (args : List Text) : Nat :=
  if args.contains (text "exec") then args.idxOf (text "exec") + 1 else 0

def readOnlyCodex (invoke : Invocation) : ReadOnlyInvokeVerdict :=
  let args := codexStripped invoke.args
  .ok { invoke with args := args.take (codexInsertAt args) ++ codexBound
          ++ args.drop (codexInsertAt args) } codexBinding

def readOnlyInvoke (invoke : Invocation) : ReadOnlyInvokeVerdict :=
  match laneToolOf invoke with
  | some .claude => readOnlyClaude invoke
  | some .codex => readOnlyCodex invoke
  | some .opencode =>
    .refused (text "readOnly cannot bind an OpenCode lane's tools: OpenCode sets tool permissions "
      ++ text "per agent in its own opencode.json, and the relay has no command-line way to "
      ++ text "restrict them")
  | some .agy =>
    .refused (text "readOnly cannot bind an AGY lane's tools: the relay has no verified "
      ++ text "command-line way to restrict them, and a denied AGY tool discards the whole answer")
  | none =>
    .refused (text "readOnly cannot bind this lane's tools: \"" ++ invoke.command
      ++ text "\" is not a lane binary the relay knows how to restrict")

/-! ## Which names decide -/

/-- The first token named for AGY or Codex is named for Codex. -/
def CodexLeads (tokens : List Text) : Prop :=
  ∃ pre token post, tokens = pre ++ token :: post ∧ toolName token = some .codex ∧
    ∀ other ∈ pre, toolName other ≠ some .agy ∧ toolName other ≠ some .codex

/-- No token is named for AGY or Codex, and the first one named for Claude or OpenCode is named
for Claude. -/
def ClaudeLeads (tokens : List Text) : Prop :=
  (∀ token ∈ tokens, toolName token ≠ some .agy ∧ toolName token ≠ some .codex) ∧
    ∃ pre token post, tokens = pre ++ token :: post ∧ toolName token = some .claude ∧
      ∀ other ∈ pre, toolName other ≠ some .claude ∧ toolName other ≠ some .opencode

theorem laneOfCommand_eq (token : Text) :
    laneOfCommand token = match toolName token with
      | some .agy => some (text "agy")
      | some .codex => some (text "codex")
      | _ => none := by
  unfold laneOfCommand toolName
  dsimp only
  split_ifs <;> rfl

theorem scanTokens_eq (tokens : List Text) :
    scanTokens tokens = tokens.findSome? fun token => match toolName token with
      | some .claude => some .claude
      | some .opencode => some .opencode
      | _ => none := by
  unfold scanTokens toolName
  refine congrArg (fun f => tokens.findSome? f) (funext fun token => ?_)
  dsimp only
  generalize withoutExecutableSuffix (lowerCase (baseName token)) = base
  by_cases hagy : base = text "agy"
  · subst hagy
    decide
  · by_cases hcodex : base = text "codex"
    · subst hcodex
      decide
    · rw [if_neg hcodex]
      split_ifs <;> rfl

theorem laneOfRung_eq (command : Text) (args : List Text) :
    laneOfRung command args = (command :: args).findSome? laneOfCommand := by
  rw [laneOfRung, List.findSome?_cons]
  cases laneOfCommand command <;> rfl

theorem laneOfCommand_eq_none_iff {token : Text} :
    laneOfCommand token = none ↔
      toolName token ≠ some .agy ∧ toolName token ≠ some .codex := by
  rw [laneOfCommand_eq]
  cases toolName token with
  | none => simp
  | some tool => cases tool <;> simp

theorem findSome?_laneOfCommand_iff {tokens : List Text} :
    tokens.findSome? laneOfCommand = some (text "codex") ↔ CodexLeads tokens := by
  rw [List.findSome?_eq_some_iff]
  constructor
  · rintro ⟨pre, token, post, htokens, htoken, hpre⟩
    refine ⟨pre, token, post, htokens, ?_, fun other hother =>
      laneOfCommand_eq_none_iff.mp (hpre other hother)⟩
    rw [laneOfCommand_eq] at htoken
    split at htoken
    · exact absurd (Option.some.inj htoken) (by decide)
    · assumption
    · cases htoken
  · rintro ⟨pre, token, post, htokens, htoken, hpre⟩
    refine ⟨pre, token, post, htokens, ?_, fun other hother =>
      laneOfCommand_eq_none_iff.mpr (hpre other hother)⟩
    rw [laneOfCommand_eq, htoken]

theorem scanTokens_ne (tokens : List Text) :
    scanTokens tokens ≠ some .agy ∧ scanTokens tokens ≠ some .codex := by
  constructor <;> intro h <;> rw [scanTokens_eq] at h <;>
    obtain ⟨token, -, htoken⟩ := List.exists_of_findSome?_eq_some h <;>
    split at htoken <;> cases htoken

variable (invoke : Invocation)

/-- **Codex** is guessed exactly where its name leads. -/
theorem laneToolOf_eq_codex_iff :
    laneToolOf invoke = some .codex ↔ CodexLeads (invoke.command :: invoke.args) := by
  rw [← findSome?_laneOfCommand_iff, laneToolOf, laneOfRung_eq]
  cases hknown : (invoke.command :: invoke.args).findSome? laneOfCommand with
  | none =>
    exact iff_of_false (scanTokens_ne _).2 (by simp)
  | some known =>
    dsimp only
    rw [Option.some.injEq]
    by_cases hagy : known = text "agy"
    · rw [hagy]
      exact iff_of_false (by simp) (by decide)
    · rw [if_neg hagy]
      by_cases hcodex : known = text "codex"
      · rw [if_pos hcodex]
        exact iff_of_true rfl hcodex
      · rw [if_neg hcodex]
        exact iff_of_false (scanTokens_ne _).2 hcodex

theorem findSome?_laneOfCommand_cases {tokens : List Text} {known : Text}
    (h : tokens.findSome? laneOfCommand = some known) : known = text "agy" ∨ known = text "codex" := by
  obtain ⟨token, -, htoken⟩ := List.exists_of_findSome?_eq_some h
  rw [laneOfCommand_eq] at htoken
  split at htoken
  · exact .inl (Option.some.inj htoken).symm
  · exact .inr (Option.some.inj htoken).symm
  · cases htoken

/-- **Claude** is guessed exactly where its name leads. -/
theorem laneToolOf_eq_claude_iff :
    laneToolOf invoke = some .claude ↔ ClaudeLeads (invoke.command :: invoke.args) := by
  rw [laneToolOf, laneOfRung_eq, ClaudeLeads]
  cases hknown : (invoke.command :: invoke.args).findSome? laneOfCommand with
  | none =>
    have hnone : ∀ token ∈ invoke.command :: invoke.args,
        toolName token ≠ some .agy ∧ toolName token ≠ some .codex := fun token htoken =>
      laneOfCommand_eq_none_iff.mp (List.findSome?_eq_none_iff.mp hknown token htoken)
    rw [and_iff_right hnone, scanTokens_eq, List.findSome?_eq_some_iff]
    constructor
    · rintro ⟨pre, token, post, htokens, htoken, hpre⟩
      refine ⟨pre, token, post, htokens, ?_, fun other hother => ?_⟩
      · split at htoken
        · assumption
        · cases htoken
        · cases htoken
      · have hother := hpre other hother
        split at hother
        · cases hother
        · cases hother
        · constructor <;> assumption
    · rintro ⟨pre, token, post, htokens, htoken, hpre⟩
      refine ⟨pre, token, post, htokens, by rw [htoken], fun other hother => ?_⟩
      obtain ⟨hclaude, hopencode⟩ := hpre other hother
      split
      · exact absurd ‹_› hclaude
      · exact absurd ‹_› hopencode
      · rfl
  | some known =>
    dsimp only
    have hsome : ¬ ∀ token ∈ invoke.command :: invoke.args,
        toolName token ≠ some .agy ∧ toolName token ≠ some .codex := by
      intro hall
      rw [List.findSome?_eq_none_iff.mpr fun token htoken =>
        laneOfCommand_eq_none_iff.mpr (hall token htoken)] at hknown
      cases hknown
    refine iff_of_false ?_ fun h => hsome h.1
    rcases findSome?_laneOfCommand_cases hknown with rfl | rfl
    · rw [if_pos rfl]
      simp
    · rw [if_neg (by decide)]
      simp

/-! ## Arguments that are known to hold the task -/

/-- An argument, and whether the task is in it. -/
structure LineArg where
  text : Text
  isTask : Bool
  deriving DecidableEq

/-- The permission flags of a tool: those with a value, and those without. -/
structure PermissionFlags where
  valued : List Text
  bare : List Text

def PermissionFlags.claude : PermissionFlags :=
  ⟨CLAUDE_PERMISSION_FLAGS.dropLast, [text "--dangerously-skip-permissions"]⟩

def PermissionFlags.codex : PermissionFlags :=
  ⟨CODEX_VALUED_FLAGS, CODEX_BARE_FLAGS⟩

/-- Is the text a `flag=value`? -/
def PermissionFlags.joins (flags : PermissionFlags) (t : Text) : Bool :=
  flags.valued.any fun flag => t.startsWith (flag ++ Ecma.text "=")

/-- Is the text a permission flag, with its value or without? -/
def PermissionFlags.has (flags : PermissionFlags) (t : Text) : Bool :=
  flags.valued.contains t || flags.joins t || flags.bare.contains t

/-- The arguments without the permission flags and their values; `skip` is set behind a flag that
takes one. -/
def keptFrom (flags : PermissionFlags) : Bool → List LineArg → List LineArg
  | _, [] => []
  | true, _ :: rest => keptFrom flags false rest
  | false, a :: rest =>
    if a.isTask then a :: keptFrom flags false rest
    else if flags.valued.contains a.text then keptFrom flags true rest
    else if flags.joins a.text || flags.bare.contains a.text then keptFrom flags false rest
    else a :: keptFrom flags false rest

/-- Behind every configured flag that takes a value stands one: not the task, and not a permission
flag. -/
def WellFormedFrom (flags : PermissionFlags) : Bool → List LineArg → Prop
  | _, [] => True
  | true, v :: rest => v.isTask = false ∧ flags.has v.text = false ∧ WellFormedFrom flags false rest
  | false, a :: rest =>
    WellFormedFrom flags (!a.isTask && flags.valued.contains a.text) rest

/-- No task is taken for a permission flag. -/
def TasksPlain (flags : PermissionFlags) (args : List LineArg) : Prop :=
  ∀ a ∈ args, a.isTask = true → flags.has a.text = false

/-! ## One flag after another -/

/-- The flags with a value that have been removed so far. -/
abbrev removed (done : List Text) : PermissionFlags :=
  ⟨done, []⟩

theorem joins_concat (done : List Text) (flag t : Text) :
    (removed (done ++ [flag])).joins t
      = ((removed done).joins t || t.startsWith (flag ++ text "=")) := by
  simp [PermissionFlags.joins]

/-- No flag with a value is the start of another one with its value. -/
def PermissionFlags.Separate (flags : PermissionFlags) : Prop :=
  ∀ flag ∈ flags.valued, flags.joins flag = false

variable {flags : PermissionFlags} {done : List Text} {flag : Text}

variable {t : Text} {a : LineArg} {args : List LineArg} {skip : Bool}

theorem joins_of_subset (hdone : ∀ f ∈ done, f ∈ flags.valued) (h : flags.joins t = false) :
    (removed done).joins t = false := by
  rw [PermissionFlags.joins, List.any_eq_false] at h ⊢
  exact fun f hf => h f (hdone f hf)

theorem contains_eq_false_iff {l : List Text} : l.contains t = false ↔ t ∉ l := by
  rw [← Bool.not_eq_true, List.contains_iff_mem]

theorem keptFrom_of_not_has (h : a.isTask = true ∨ flags.has a.text = false) (rest : List LineArg) :
    keptFrom flags false (a :: rest) = a :: keptFrom flags false rest := by
  rw [keptFrom]
  rcases h with htask | hnot
  · rw [if_pos htask]
  · simp only [PermissionFlags.has, Bool.or_eq_false_iff] at hnot
    rw [hnot.1.1, hnot.1.2, hnot.2]
    simp

theorem keptFrom_of_valued (htask : a.isTask = false) (h : a.text ∈ flags.valued)
    (rest : List LineArg) : keptFrom flags false (a :: rest) = keptFrom flags true rest := by
  rw [keptFrom, htask, if_neg Bool.false_ne_true, if_pos (List.contains_iff_mem.mpr h)]

theorem keptFrom_of_joins (htask : a.isTask = false) (hvalued : a.text ∉ flags.valued)
    (h : flags.joins a.text = true) (rest : List LineArg) :
    keptFrom flags false (a :: rest) = keptFrom flags false rest := by
  rw [keptFrom, htask, if_neg Bool.false_ne_true, contains_eq_false_iff.mpr hvalued,
    if_neg Bool.false_ne_true, h, Bool.true_or, if_pos rfl]

theorem withoutValuedFlagFrom_keep (hne : t ≠ flag)
    (hjoined : t.startsWith (flag ++ text "=") = false) (rest : List Text) :
    withoutValuedFlagFrom flag false (t :: rest) = t :: withoutValuedFlagFrom flag false rest := by
  rw [withoutValuedFlagFrom, if_neg hne, hjoined, if_neg Bool.false_ne_true]

theorem removed_has (t : Text) :
    (removed done).has t = (done.contains t || (removed done).joins t) := by
  simp [PermissionFlags.has]

theorem not_has_of_subset (hdone : ∀ f ∈ done, f ∈ flags.valued) (h : flags.has t = false) :
    (removed done).has t = false := by
  simp only [PermissionFlags.has, Bool.or_eq_false_iff] at h
  rw [removed_has, joins_of_subset hdone h.1.2, Bool.or_false, contains_eq_false_iff]
  exact fun hmem => (contains_eq_false_iff.mp h.1.1) (hdone t hmem)

theorem ne_of_not_has (hflag : flag ∈ flags.valued) (h : flags.has t = false) :
    t ≠ flag ∧ t.startsWith (flag ++ text "=") = false := by
  simp only [PermissionFlags.has, Bool.or_eq_false_iff] at h
  constructor
  · rintro rfl
    exact (contains_eq_false_iff.mp h.1.1) hflag
  · have hjoins := h.1.2
    rw [PermissionFlags.joins, List.any_eq_false] at hjoins
    exact Bool.eq_false_iff.mpr (hjoins flag hflag)

/-- **Removing one more flag** with its values from what is left after some. -/
theorem withoutValuedFlagFrom_kept (hseparate : flags.Separate)
    (hdone : ∀ f ∈ done, f ∈ flags.valued) (hflag : flag ∈ flags.valued) {wf skip' : Bool}
    (hargs : WellFormedFrom flags wf args) (hplain : TasksPlain flags args)
    (hskip : skip = true → wf = true) (hskip' : skip' = true → wf = true)
    (hone : skip = false ∨ skip' = false) :
    withoutValuedFlagFrom flag skip' ((keptFrom (removed done) skip args).map LineArg.text)
      = (keptFrom (removed (done ++ [flag])) (skip || skip') args).map LineArg.text := by
  have hdone' : ∀ f ∈ done ++ [flag], f ∈ flags.valued := by
    intro f hf
    rcases List.mem_append.mp hf with hf | hf
    · exact hdone f hf
    · exact List.mem_singleton.mp hf ▸ hflag
  induction args generalizing wf skip skip' with
  | nil => cases skip <;> cases skip' <;> rfl
  | cons a args ih =>
    have hrest : TasksPlain flags args := fun b hb => hplain b (List.mem_cons_of_mem _ hb)
    -- a token that is no flag is kept by every removal
    have hkeep : ∀ {wf}, WellFormedFrom flags wf args → flags.has a.text = false →
        withoutValuedFlagFrom flag false
            ((keptFrom (removed done) false (a :: args)).map LineArg.text)
          = (keptFrom (removed (done ++ [flag])) false (a :: args)).map LineArg.text := by
      intro wf hwf hnot
      rw [keptFrom_of_not_has (.inr (not_has_of_subset hdone hnot)),
        keptFrom_of_not_has (.inr (not_has_of_subset hdone' hnot)), List.map_cons,
        withoutValuedFlagFrom_keep (ne_of_not_has hflag hnot).1 (ne_of_not_has hflag hnot).2]
      exact congrArg _ (ih hwf hrest (fun h => nomatch h) (fun h => nomatch h) (.inl rfl))
    cases wf with
    | true =>
      obtain ⟨htask, hnot, hwf⟩ := hargs
      cases skip with
      | true =>
        -- the value of a flag that has been removed
        obtain rfl : skip' = false := hone.resolve_left (fun h => nomatch h)
        exact ih hwf hrest (fun h => nomatch h) (fun h => nomatch h) (.inl rfl)
      | false =>
        cases skip' with
        | true =>
          -- the value of the flag that is being removed
          rw [keptFrom_of_not_has (.inr (not_has_of_subset hdone hnot))]
          exact ih hwf hrest (fun h => nomatch h) (fun h => nomatch h) (.inl rfl)
        | false => exact hkeep hwf hnot
    | false =>
      obtain rfl : skip = false := Bool.eq_false_iff.mpr fun h => nomatch hskip h
      obtain rfl : skip' = false := Bool.eq_false_iff.mpr fun h => nomatch hskip' h
      rw [WellFormedFrom] at hargs
      change withoutValuedFlagFrom flag false
          ((keptFrom (removed done) false (a :: args)).map LineArg.text)
        = (keptFrom (removed (done ++ [flag])) false (a :: args)).map LineArg.text
      cases htask : a.isTask with
      | true =>
        exact hkeep hargs (hplain a List.mem_cons_self htask)
      | false =>
        rw [htask] at hargs
        by_cases hvalued : a.text ∈ flags.valued
        · -- a flag that takes a value
          rw [List.contains_iff_mem.mpr hvalued] at hargs
          have hjoins := hseparate a.text hvalued
          by_cases hin : a.text ∈ done
          · rw [keptFrom_of_valued htask hin, keptFrom_of_valued htask (List.mem_append_left _ hin)]
            exact ih hargs hrest (fun _ => rfl) (fun h => nomatch h) (.inr rfl)
          · have hnot : (removed done).has a.text = false := by
              rw [removed_has, joins_of_subset hdone hjoins, contains_eq_false_iff.mpr hin]
              rfl
            rw [keptFrom_of_not_has (.inr hnot), List.map_cons]
            by_cases hflag' : a.text = flag
            · rw [withoutValuedFlagFrom, if_pos hflag', keptFrom_of_valued htask (by simp [hflag'])]
              exact ih hargs hrest (fun h => nomatch h) (fun _ => rfl) (.inl rfl)
            · have hnot' : (removed (done ++ [flag])).has a.text = false := by
                rw [removed_has, joins_of_subset hdone' hjoins,
                  contains_eq_false_iff.mpr (by simp [hin, hflag'])]
                rfl
              have hmine : a.text.startsWith (flag ++ text "=") = false := by
                rw [PermissionFlags.joins, List.any_eq_false] at hjoins
                exact Bool.eq_false_iff.mpr (hjoins flag hflag)
              rw [withoutValuedFlagFrom_keep hflag' hmine, keptFrom_of_not_has (.inr hnot')]
              exact congrArg _ (ih hargs hrest (fun h => nomatch h) (fun h => nomatch h) (.inl rfl))
        · -- a flag with its value in one token, or no flag with a value
          have hnext : withoutValuedFlagFrom flag false
                ((keptFrom (removed done) false args).map LineArg.text)
              = (keptFrom (removed (done ++ [flag])) false args).map LineArg.text :=
            ih hargs hrest (fun h => nomatch h) (fun h => nomatch h) (.inl rfl)
          have hin : a.text ∉ done := fun hmem => hvalued (hdone _ hmem)
          have hin' : a.text ∉ done ++ [flag] := fun hmem => hvalued (hdone' _ hmem)
          by_cases hjoins : (removed done).joins a.text = true
          · rw [keptFrom_of_joins htask hin hjoins,
              keptFrom_of_joins htask hin' (by rw [joins_concat, hjoins]; rfl)]
            exact hnext
          · have hnot : (removed done).has a.text = false := by
              rw [removed_has, contains_eq_false_iff.mpr hin]
              exact Bool.eq_false_iff.mpr hjoins
            have hne : a.text ≠ flag := fun heq => hvalued (heq ▸ hflag)
            rw [keptFrom_of_not_has (.inr hnot), List.map_cons]
            by_cases hmine : a.text.startsWith (flag ++ text "=") = true
            · rw [withoutValuedFlagFrom, if_neg hne, if_pos hmine,
                keptFrom_of_joins htask hin' (by rw [joins_concat, hmine, Bool.or_true])]
              exact hnext
            · have hnot' : (removed (done ++ [flag])).has a.text = false := by
                rw [removed_has, contains_eq_false_iff.mpr hin', joins_concat,
                  Bool.eq_false_iff.mpr hjoins, Bool.eq_false_iff.mpr hmine]
                rfl
              rw [withoutValuedFlagFrom_keep hne (Bool.eq_false_iff.mpr hmine),
                keptFrom_of_not_has (.inr hnot')]
              exact congrArg _ hnext

theorem keptFrom_nil (args : List LineArg) : keptFrom (removed []) false args = args := by
  induction args with
  | nil => rfl
  | cons a args ih => rw [keptFrom_of_not_has (.inr rfl), ih]

/-- **All flags with a value**, one after another. -/
theorem foldl_withoutValuedFlag_kept (hseparate : flags.Separate)
    (hargs : WellFormedFrom flags false args) (hplain : TasksPlain flags args) {rest : List Text}
    (hdone : ∀ f ∈ done, f ∈ flags.valued) (hrest : ∀ f ∈ rest, f ∈ flags.valued) :
    rest.foldl withoutValuedFlag ((keptFrom (removed done) false args).map LineArg.text)
      = (keptFrom (removed (done ++ rest)) false args).map LineArg.text := by
  induction rest generalizing done with
  | nil => rw [List.append_nil, List.foldl_nil]
  | cons flag rest ih =>
    have hflag := hrest flag List.mem_cons_self
    have hdone' : ∀ f ∈ done ++ [flag], f ∈ flags.valued := by
      intro f hf
      rcases List.mem_append.mp hf with hf | hf
      · exact hdone f hf
      · exact List.mem_singleton.mp hf ▸ hflag
    have hstep : withoutValuedFlag ((keptFrom (removed done) false args).map LineArg.text) flag
        = (keptFrom (removed (done ++ [flag])) false args).map LineArg.text :=
      withoutValuedFlagFrom_kept hseparate hdone hflag hargs hplain Bool.false_ne_true.elim
        Bool.false_ne_true.elim (.inl rfl)
    rw [List.foldl_cons, hstep, ih hdone' fun f hf => hrest f (List.mem_cons_of_mem _ hf),
      List.append_assoc]
    rfl

theorem filter_kept (hplain : TasksPlain flags args) (skip : Bool) :
    ((keptFrom (removed flags.valued) skip args).map LineArg.text).filter
        (fun t => !flags.bare.contains t)
      = (keptFrom flags skip args).map LineArg.text := by
  induction args generalizing skip with
  | nil => cases skip <;> rfl
  | cons a args ih =>
    have hrest : TasksPlain flags args := fun b hb => hplain b (List.mem_cons_of_mem _ hb)
    have hkeep : flags.has a.text = false →
        ((keptFrom (removed flags.valued) false (a :: args)).map LineArg.text).filter
            (fun t => !flags.bare.contains t)
          = (keptFrom flags false (a :: args)).map LineArg.text := by
      intro hnot
      have hbare : flags.bare.contains a.text = false := by
        simp only [PermissionFlags.has, Bool.or_eq_false_iff] at hnot
        exact hnot.2
      rw [keptFrom_of_not_has (.inr hnot),
        keptFrom_of_not_has (.inr (not_has_of_subset (fun _ hf => hf) hnot)), List.map_cons,
        List.map_cons, List.filter_cons, hbare, Bool.not_false, if_pos rfl, ih hrest]
    cases skip with
    | true => exact ih hrest false
    | false =>
      cases htask : a.isTask with
      | true => exact hkeep (hplain a List.mem_cons_self htask)
      | false =>
        by_cases hvalued : a.text ∈ flags.valued
        · have hremoved : a.text ∈ (removed flags.valued).valued := hvalued
          rw [keptFrom_of_valued htask hremoved, keptFrom_of_valued htask hvalued]
          exact ih hrest true
        · have hremoved : a.text ∉ (removed flags.valued).valued := hvalued
          cases hjoins : flags.joins a.text with
          | true =>
            rw [keptFrom_of_joins htask hremoved hjoins, keptFrom_of_joins htask hvalued hjoins]
            exact ih hrest false
          | false =>
            have hcontains := contains_eq_false_iff.mpr hvalued
            cases hbare : flags.bare.contains a.text with
            | false =>
              refine hkeep ?_
              rw [PermissionFlags.has, hcontains, hjoins, hbare]
              rfl
            | true =>
              have hnot : (removed flags.valued).has a.text = false := by
                rw [removed_has, hcontains]
                exact hjoins
              have hdropped : keptFrom flags false (a :: args)
                  = keptFrom flags false args := by
                rw [keptFrom, htask, hcontains, hjoins, hbare]
                rfl
              rw [keptFrom_of_not_has (.inr hnot), hdropped, List.map_cons,
                List.filter_cons, hbare, Bool.not_true, if_neg Bool.false_ne_true,
                ih hrest]

/-! ## All permission flags -/

/-- The arguments as they are stripped of the permission flags of a tool. -/
def stripped (flags : PermissionFlags) (args : List Text) : List Text :=
  (flags.valued.foldl withoutValuedFlag args).filter fun t => !flags.bare.contains t

theorem claudeStripped_eq (args : List Text) : claudeStripped args = stripped .claude args := by
  have hflags : CLAUDE_PERMISSION_FLAGS
      = CLAUDE_PERMISSION_FLAGS.dropLast ++ [text "--dangerously-skip-permissions"] := rfl
  have hvalued : ∀ flag ∈ CLAUDE_PERMISSION_FLAGS.dropLast,
      flag ≠ text "--dangerously-skip-permissions" := by decide
  rw [claudeStripped, hflags, List.foldl_append, List.foldl_cons, stripped]
  refine congrArg₂ (fun p l => List.filter p l) ?_ ?_
  · funext t
    simp [PermissionFlags.claude]
  · exact List.foldl_ext _ _ _ fun args flag hflag => if_neg (hvalued flag hflag)

/-- The tasks stay, and where none is taken for a permission flag nothing but the configured flags
and their values goes. -/
theorem stripped_kept (hseparate : flags.Separate) (hargs : WellFormedFrom flags false args)
    (hplain : TasksPlain flags args) :
    stripped flags (args.map LineArg.text) = (keptFrom flags false args).map LineArg.text := by
  have hfold : flags.valued.foldl withoutValuedFlag
        ((keptFrom (removed []) false args).map LineArg.text)
      = (keptFrom (removed ([] ++ flags.valued)) false args).map LineArg.text :=
    foldl_withoutValuedFlag_kept hseparate hargs hplain (fun _ h => nomatch h) fun _ h => h
  rw [keptFrom_nil, List.nil_append] at hfold
  rw [stripped, hfold, filter_kept hplain]

theorem mem_withoutValuedFlagFrom {args : List Text} (h : t ∈ withoutValuedFlagFrom flag skip args) :
    t ∈ args ∧ t ≠ flag ∧ t.startsWith (flag ++ text "=") = false := by
  induction args generalizing skip with
  | nil => cases skip <;> cases h
  | cons a args ih =>
    have hlater : ∀ {skip}, t ∈ withoutValuedFlagFrom flag skip args →
        t ∈ a :: args ∧ t ≠ flag ∧ t.startsWith (flag ++ text "=") = false :=
      fun h => ⟨List.mem_cons_of_mem _ (ih h).1, (ih h).2⟩
    cases skip with
    | true => exact hlater h
    | false =>
      rw [withoutValuedFlagFrom] at h
      split_ifs at h with hflag hjoined
      · exact hlater h
      · exact hlater h
      · rcases List.mem_cons.mp h with rfl | h
        · exact ⟨List.mem_cons_self, hflag, Bool.eq_false_iff.mpr hjoined⟩
        · exact hlater h

theorem mem_foldl_withoutValuedFlag {flags : List Text} {args : List Text}
    (h : t ∈ flags.foldl withoutValuedFlag args) :
    t ∈ args ∧ ∀ flag ∈ flags, t ≠ flag ∧ t.startsWith (flag ++ text "=") = false := by
  induction flags generalizing args with
  | nil => exact ⟨h, fun _ h => nomatch h⟩
  | cons flag flags ih =>
    obtain ⟨hmem, hflags⟩ := ih h
    obtain ⟨hargs, hflag⟩ := mem_withoutValuedFlagFrom hmem
    refine ⟨hargs, fun other hother => ?_⟩
    rcases List.mem_cons.mp hother with rfl | hother
    · exact hflag
    · exact hflags other hother

theorem not_has_of_mem_stripped {args : List Text} (h : t ∈ stripped flags args) :
    flags.has t = false := by
  obtain ⟨hmem, hbare⟩ := List.mem_filter.mp h
  obtain ⟨-, hflags⟩ := mem_foldl_withoutValuedFlag hmem
  rw [PermissionFlags.has, (Bool.not_eq_true' _).mp hbare, Bool.or_false, Bool.or_eq_false_iff,
    contains_eq_false_iff, PermissionFlags.joins, List.any_eq_false]
  exact ⟨fun hvalued => (hflags t hvalued).1 rfl,
    fun flag hflag => Bool.eq_false_iff.mp (hflags flag hflag).2⟩

theorem mem_keptFrom_of_isTask {wf : Bool} (hargs : WellFormedFrom flags wf args)
    (hskip : skip = true → wf = true) (ha : a ∈ args) (htask : a.isTask = true) :
    a ∈ keptFrom flags skip args := by
  induction args generalizing wf skip with
  | nil => cases ha
  | cons b args ih =>
    cases wf with
    | true =>
      -- what stands behind a flag that takes a value is no task
      obtain ⟨hb, hnot, hrest⟩ := hargs
      have hmem : a ∈ args := by
        rcases List.mem_cons.mp ha with rfl | hmem
        · rw [hb] at htask
          cases htask
        · exact hmem
      cases skip with
      | true => exact ih hrest (fun h => nomatch h) hmem
      | false =>
        rw [keptFrom_of_not_has (.inr hnot)]
        exact List.mem_cons_of_mem _ (ih hrest (fun h => nomatch h) hmem)
    | false =>
      obtain rfl : skip = false := Bool.eq_false_iff.mpr fun h => nomatch hskip h
      rcases List.mem_cons.mp ha with rfl | hmem
      · rw [keptFrom_of_not_has (.inl htask)]
        exact List.mem_cons_self
      · rw [keptFrom]
        split_ifs with hb hvalued hdropped
        · exact List.mem_cons_of_mem _ (ih hargs (fun h => nomatch h) hmem)
        · refine ih hargs (fun _ => ?_) hmem
          rw [Bool.eq_false_iff.mpr hb, hvalued]
          rfl
        · exact ih hargs (fun h => nomatch h) hmem
        · exact List.mem_cons_of_mem _ (ih hargs (fun h => nomatch h) hmem)

theorem not_has_of_mem_keptFrom (ha : a ∈ keptFrom flags skip args)
    (hhas : flags.has a.text = true) : a.isTask = true := by
  induction args generalizing skip with
  | nil => cases skip <;> cases ha
  | cons b args ih =>
    cases skip with
    | true => exact ih ha
    | false =>
      rw [keptFrom] at ha
      split_ifs at ha with hb hvalued hdropped
      · rcases List.mem_cons.mp ha with rfl | ha
        · exact hb
        · exact ih ha
      · exact ih ha
      · exact ih ha
      · rcases List.mem_cons.mp ha with rfl | ha
        · rw [PermissionFlags.has, Bool.or_assoc, Bool.or_eq_true] at hhas
          exact absurd hhas (not_or_intro hvalued hdropped)
        · exact ih ha

/-! ## Lines with a task -/

/-- A command line of which it is known where the task stands. -/
structure LaneLine where
  command : Text
  args : List LineArg
  env : Option SpawnEnv

/-- The line as it is run. -/
def LaneLine.invocation (line : LaneLine) : Invocation :=
  ⟨line.command, line.args.map LineArg.text, line.env⟩

/-- What is configured of it. -/
def LaneLine.configured (line : LaneLine) : Invocation :=
  ⟨line.command, (line.args.filter fun a => !a.isTask).map LineArg.text, line.env⟩

def Invocation.tokens (invoke : Invocation) : List Text :=
  invoke.command :: invoke.args

/-- What the launcher is given behind its own path. -/
def launcherOperands (args : List Text) : List Text :=
  match args.dropWhile fun a => a ≠ text "-File" && a ≠ text "/File" with
  | _ :: _ :: operands => operands
  | _ => []

/-- The tool that runs: the command, or the one that the launcher starts. -/
def toolThatRuns (launched : List Text → Option Text) (invoke : Invocation) : Option LaneTool :=
  if isAlreadyLaneLaunched invoke.command invoke.args then
    (launched (launcherOperands invoke.args)).bind toolName
  else toolName invoke.command

/-- What an approval says about how the tools are bound. -/
def ReadOnlyInvokeVerdict.binding : ReadOnlyInvokeVerdict → Option Text
  | .ok _ binding => some binding
  | .refused _ => none

/-- The line with the flags that bind it, and without the permission flags that are configured:
another such flag is the task. -/
def BoundBy (line : LaneLine) (flags : PermissionFlags) (bound : List Text)
    (invoke : Invocation) : Prop :=
  ∃ before after, before ++ after = keptFrom flags false line.args ∧
    (∀ a ∈ before ++ after, flags.has a.text = true → a.isTask = true) ∧
    invoke = { line.invocation with
      args := before.map LineArg.text ++ bound ++ after.map LineArg.text }

/-- The verdict is the one on what is configured, and an approved line is bound as the tool that
runs requires. -/
structure ReadsOnly (launched : List Text → Option Text) (line : LaneLine) : Prop where
  ignores_task : (readOnlyInvoke line.invocation).binding = (readOnlyInvoke line.configured).binding
  bound : ∀ invoke binding, readOnlyInvoke line.invocation = .ok invoke binding →
    (toolThatRuns launched line.invocation = some .claude ∧ binding = claudeBinding ∧
        BoundBy line .claude claudeBound invoke) ∨
      (toolThatRuns launched line.invocation = some .codex ∧ binding = codexBinding ∧
        BoundBy line .codex codexBound invoke)

/-- The names that lead are configured, and are those of the tool that runs; no task is taken for
one of its permission flags. -/
structure NamesDecide (launched : List Text → Option Text) (line : LaneLine) : Prop where
  claude : ClaudeLeads line.invocation.tokens ↔ ClaudeLeads line.configured.tokens
  codex : CodexLeads line.invocation.tokens ↔ CodexLeads line.configured.tokens
  claude_runs : ClaudeLeads line.invocation.tokens →
    toolThatRuns launched line.invocation = some .claude ∧ TasksPlain .claude line.args
  codex_runs : CodexLeads line.invocation.tokens →
    toolThatRuns launched line.invocation = some .codex ∧ TasksPlain .codex line.args

/-- Every configured permission flag has a value behind it. -/
def LaneLine.WellFormed (line : LaneLine) : Prop :=
  (ClaudeLeads line.invocation.tokens → WellFormedFrom .claude false line.args) ∧
    (CodexLeads line.invocation.tokens → WellFormedFrom .codex false line.args)

theorem readOnlyInvoke_binding :
    (readOnlyInvoke invoke).binding = match laneToolOf invoke with
      | some .claude => some claudeBinding
      | some .codex => some codexBinding
      | _ => none := by
  unfold readOnlyInvoke
  split <;> rename_i htool <;> rw [htool] <;> rfl

theorem binding_eq_binding_iff {i j : Invocation} :
    (readOnlyInvoke i).binding = (readOnlyInvoke j).binding ↔
      (laneToolOf i = some .claude ↔ laneToolOf j = some .claude) ∧
        (laneToolOf i = some .codex ↔ laneToolOf j = some .codex) := by
  have hne : claudeBinding ≠ codexBinding := by decide
  rw [readOnlyInvoke_binding, readOnlyInvoke_binding]
  rcases laneToolOf i with _ | (_ | _ | _ | _) <;> rcases laneToolOf j with _ | (_ | _ | _ | _) <;>
    simp [hne, hne.symm]

variable {line : LaneLine}

/-- **An approved line is bound** exactly where no task is taken for a permission flag. -/
theorem boundBy_iff (hseparate : flags.Separate) (hline : WellFormedFrom flags false line.args)
    (bound : List Text) (at_ : List Text → Nat) :
    BoundBy line flags bound { line.invocation with
        args := (stripped flags (line.args.map LineArg.text)).take
            (at_ (stripped flags (line.args.map LineArg.text))) ++ bound
          ++ (stripped flags (line.args.map LineArg.text)).drop
            (at_ (stripped flags (line.args.map LineArg.text))) } ↔
      TasksPlain flags line.args := by
  constructor
  · rintro ⟨before, after, hkept, -, hinvoke⟩ a ha htask
    -- counting the text of the task on both sides, the bound flags cancel
    by_contra hhas
    have hargs := congrArg (fun i : Invocation => i.args.count a.text) hinvoke
    have hcode : (stripped flags (line.args.map LineArg.text)).count a.text = 0 :=
      List.count_eq_zero.mpr fun hmem => hhas (not_has_of_mem_stripped hmem)
    rw [← List.take_append_drop (at_ (stripped flags (line.args.map LineArg.text)))
      (stripped flags (line.args.map LineArg.text)), List.count_append] at hcode
    have hkeeps : 0 < ((before ++ after).map LineArg.text).count a.text :=
      List.count_pos_iff.mpr (List.mem_map_of_mem
        (hkept ▸ mem_keptFrom_of_isTask hline Bool.false_ne_true.elim ha htask))
    rw [List.map_append, List.count_append] at hkeeps
    simp only [List.count_append] at hargs
    omega
  · intro hplain
    rw [stripped_kept hseparate hline hplain]
    generalize at_ ((keptFrom flags false line.args).map LineArg.text) = n
    refine ⟨(keptFrom flags false line.args).take n, (keptFrom flags false line.args).drop n,
      List.take_append_drop n _, ?_, ?_⟩
    · rw [List.take_append_drop]
      exact fun a ha => not_has_of_mem_keptFrom ha
    · rw [List.map_take, List.map_drop]

theorem claude_separate : PermissionFlags.claude.Separate := by
  unfold PermissionFlags.Separate
  decide

theorem codex_separate : PermissionFlags.codex.Separate := by
  unfold PermissionFlags.Separate
  decide

theorem boundBy_claude_iff (hline : WellFormedFrom .claude false line.args) :
    BoundBy line .claude claudeBound { line.invocation with
        args := claudeStripped line.invocation.args ++ claudeBound } ↔
      TasksPlain .claude line.args := by
  rw [← boundBy_iff claude_separate hline claudeBound List.length, List.take_length, List.drop_length, List.append_nil, claudeStripped_eq]
  rfl

theorem boundBy_codex_iff (hline : WellFormedFrom .codex false line.args) :
    BoundBy line .codex codexBound { line.invocation with
        args := (codexStripped line.invocation.args).take
            (codexInsertAt (codexStripped line.invocation.args)) ++ codexBound
          ++ (codexStripped line.invocation.args).drop
            (codexInsertAt (codexStripped line.invocation.args)) } ↔
      TasksPlain .codex line.args :=
  boundBy_iff codex_separate hline codexBound codexInsertAt

theorem readOnlyInvoke_of_claude {invoke : Invocation} (h : laneToolOf invoke = some .claude) :
    readOnlyInvoke invoke = readOnlyClaude invoke := by
  rw [readOnlyInvoke, h]

theorem readOnlyInvoke_of_codex {invoke : Invocation} (h : laneToolOf invoke = some .codex) :
    readOnlyInvoke invoke = readOnlyCodex invoke := by
  rw [readOnlyInvoke, h]

/-- The same argument, but for the task in it. -/
def LineArg.SameShape (a b : LineArg) : Prop :=
  a.isTask = b.isTask ∧ (a.isTask = false → a.text = b.text)

/-- The same line, but for the task in it. -/
structure LaneLine.SameShape (line other : LaneLine) : Prop where
  command : line.command = other.command
  args : List.Forall₂ LineArg.SameShape line.args other.args
  env : line.env = other.env

theorem LaneLine.SameShape.configured {other : LaneLine} (h : line.SameShape other) :
    line.configured = other.configured := by
  have hargs : ∀ {l l' : List LineArg}, List.Forall₂ LineArg.SameShape l l' →
      (l.filter fun a => !a.isTask).map LineArg.text
        = (l'.filter fun a => !a.isTask).map LineArg.text := by
    intro l l' hl
    induction hl with
    | nil => rfl
    | @cons a b _ _ hab _ ih =>
      rw [List.filter_cons, List.filter_cons, ← hab.1]
      cases htask : a.isTask with
      | true => exact ih
      | false =>
        rw [Bool.not_false, if_pos rfl, if_pos rfl, List.map_cons, List.map_cons, ih, hab.2 htask]
  rw [LaneLine.configured, LaneLine.configured, h.command, h.env, hargs h.args]

theorem forall₂_keptFrom {args' : List LineArg} (h : List.Forall₂ LineArg.SameShape args args')
    (skip : Bool) :
    List.Forall₂ LineArg.SameShape (keptFrom flags skip args) (keptFrom flags skip args') := by
  induction h generalizing skip with
  | nil => cases skip <;> exact .nil
  | @cons a b _ _ hab _ ih =>
    cases skip with
    | true => exact ih false
    | false =>
      cases htask : a.isTask with
      | true =>
        rw [keptFrom_of_not_has (.inl htask), keptFrom_of_not_has (.inl (hab.1 ▸ htask))]
        exact .cons hab (ih false)
      | false =>
        rw [keptFrom, keptFrom, ← hab.1, ← hab.2 htask]
        split_ifs
        · exact .cons hab (ih false)
        · exact ih true
        · exact ih false
        · exact .cons hab (ih false)

theorem LaneLine.ignores_task_iff :
    (readOnlyInvoke line.invocation).binding = (readOnlyInvoke line.configured).binding ↔
      (ClaudeLeads line.invocation.tokens ↔ ClaudeLeads line.configured.tokens) ∧
        (CodexLeads line.invocation.tokens ↔ CodexLeads line.configured.tokens) := by
  rw [binding_eq_binding_iff, laneToolOf_eq_claude_iff, laneToolOf_eq_claude_iff,
    laneToolOf_eq_codex_iff, laneToolOf_eq_codex_iff]
  rfl

/-- `codex exec` with a task behind it. -/
def codexExec (task : Text) : LaneLine :=
  ⟨text "codex", [⟨text "exec", false⟩, ⟨task, true⟩], none⟩

/-- An agent that is not known, with a task behind `--do`. -/
def someAgent (task : Text) : LaneLine :=
  ⟨text "some-agent", [⟨text "--do", false⟩, ⟨task, true⟩], none⟩

end LlmRelay.Dispatch
