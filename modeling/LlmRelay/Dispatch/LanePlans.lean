import LlmRelay.Dispatch.TaskText
import Mathlib.Data.List.TakeWhile

/-!
# Lanes and the task text

A lane's invocation is made from a plan that does not depend on the task: a command, its
configured arguments, the names that the lane rejects and an environment. From the plan alone it
can be told when every task leaves the lane the same but for its placeholders.

## Main definitions

* `LanePlan`, `lanePlan`: what a rung's invocation is made from;
* `TaskIndependent`: only the placeholders tell one task from another;
* `LanePlan.Steady`: no task is taken for something else.

## Main results

* `toLane_invoke`: a lane is rendered from its plan;
* `LanePlan.independent_iff`: when a plan is independent of the task;
* `task_text_independent_iff`: when the lanes of a view are.
-/

namespace LlmRelay.Dispatch

open Ecma Config

/-- Only the placeholders tell one task from another: a lane has no invocation, or it has one
command, one environment and one list of configured arguments that the task is put into. Only
the launcher may stand before them. -/
def TaskIndependent (invoke : Text → Option Invocation) (configured : List Text) : Prop :=
  (∀ task, NonBlank task → invoke task = none)
    ∨ ∃ (command : Text) (env : Option SpawnEnv) (added kept : List Text),
        kept.Sublist configured
          ∧ (added = [] ∨ ∃ launcherPath own, added = launcherArgs launcherPath own)
          ∧ ∀ task, NonBlank task →
            invoke task
              = some { command := command, args := added ++ kept.map (fill task), env := env }

theorem TaskIndependent.congr {invoke invoke' : Text → Option Invocation}
    (h : ∀ task, NonBlank task → invoke task = invoke' task) {configured : List Text}
    (hind : TaskIndependent invoke configured) : TaskIndependent invoke' configured := by
  rcases hind with hnone | ⟨command, env, added, kept, hsub, hadded, hsome⟩
  · exact .inl fun task htask => (h task htask).symm.trans (hnone task htask)
  · exact .inr ⟨command, env, added, kept, hsub, hadded,
      fun task htask => (h task htask).symm.trans (hsome task htask)⟩

theorem taskIndependent_none (configured : List Text) :
    TaskIndependent (fun _ => none) configured :=
  .inl fun _ _ => rfl

/-! ## Plans -/

/-- What a rung's invocation is made from, whatever the task is. -/
structure LanePlan where
  command : Text
  args : List Text
  dropped : List Text
  env : Option SpawnEnv

namespace LanePlan

/-- The invocation for a task, before the launcher. -/
def render (plan : LanePlan) (task : Option Text) (platform : Platform) : Invocation where
  command := normalizeCliCommand plan.command platform
  args := stripArgs (plan.args.map (fillTask task)) plan.dropped
  env := plan.env

/-- The invocation for a task. -/
def invocation (plan : LanePlan) (launcherPath : Option Text) (platform : Platform)
    (task : Text) : Invocation :=
  wrapForWindowsConsoleSafety (plan.render (some task) platform) launcherPath platform

/-- The configured arguments that an ordinary task leaves in the lane. -/
def kept (plan : LanePlan) : List Text :=
  stripArgs plan.args (steadyNames plan.dropped)

/-- The configured arguments that stand before a dropped token. -/
def preceding (plan : LanePlan) : List Text :=
  precedingFrom (steadyNames plan.dropped) false [] plan.args

/-- Whether the lane runs the launcher by itself. -/
def launches (plan : LanePlan) (task : Text) : Bool :=
  isAlreadyLaneLaunched (normalizeCliCommand plan.command .win32) (plan.kept.map (fill task))

/-- No task is taken for something else: no argument that is kept becomes a dropped flag or
token, none before a dropped token becomes `--config`, and all tasks agree about whether the
lane runs the launcher already. -/
structure Steady (plan : LanePlan) : Prop where
  kept : ∀ task, NonBlank task → ∀ a ∈ plan.kept, isDropped plan.dropped (fill task a) = false
  preceding : ∀ task, NonBlank task → ∀ a ∈ plan.preceding, fill task a ≠ configFlag
  launched : ∀ task task', NonBlank task → NonBlank task' →
    plan.launches task = plan.launches task'

end LanePlan

/-- The plan of a rung, where its lane has an invocation. -/
def lanePlan (rung : LadderRung) (setting : DispatchSetting) (opts : DispatchOptions) :
    Option LanePlan :=
  match cliCommand rung, relaySpec rung with
  | some (command, args), _ =>
    match notServableReason command args opts.manifest setting.now with
    | some _ => none
    | none => some
        { command := command
          args := args
          dropped := (unsupportedRungArgs command args opts.manifest setting.now).map (·.arg)
          env := rung.env }
  | none, some spec =>
    if opts.requestedByMcp && setting.reachableWithoutRelay spec then none
    else if canAddressAsSubagent opts.host then none
    else if mustTransposeEveryRung opts.host || !setting.reachableWithoutRelay spec then
      setting.cliLane.map fun template =>
        let window := (setting.specContextWindow spec).map (·.tokens)
        let invoke := transposeToCli spec template none .other window
        { command := template.command, args := invoke.args, dropped := [], env := invoke.env }
    else none
  | none, none => none

/-- The arguments that the operator configured for a rung, with the spec and the window in the
template's. -/
def configuredArgs (rung : LadderRung) (setting : DispatchSetting) : List Text :=
  match cliCommand rung, relaySpec rung, setting.cliLane with
  | some (_, args), _, _ => args
  | none, some spec, some template =>
    template.args.map (fillShared spec ((setting.specContextWindow spec).map (·.tokens)))
  | _, _, _ => []

theorem stripArgs_nil (args : List Text) : stripArgs args [] = args := by
  have hrun (out : List Text) : stripFrom [] false out args = out ++ args := by
    induction args generalizing out with
    | nil => rw [stripFrom, List.append_nil]
    | cons a args ih =>
      have hpair : isDroppedPair [] a = false := by simp [isDroppedPair]
      rw [stripFrom, hpair, if_neg Bool.false_ne_true, if_neg (by simp), ih,
        List.append_assoc, List.singleton_append]
  exact hrun []

variable {rung : LadderRung}

theorem relaySpec_eq_none_of_cli {command : Text} {args : List Text}
    (hcli : cliCommand rung = some (command, args)) : relaySpec rung = none := by
  unfold cliCommand at hcli
  unfold relaySpec
  split at hcli
  · rename_i hkind _ _
    rw [hkind]
  · cases hcli

/-- **A lane is rendered from its plan.** -/
theorem toLane_invoke (rung : LadderRung) (position : Nat) (setting : DispatchSetting)
    (opts : DispatchOptions) (platform : Platform) (launcherPath : Option Text) :
    (toLane rung position setting opts platform launcherPath).invoke
      = (lanePlan rung setting opts).map fun plan =>
          wrapForWindowsConsoleSafety (plan.render opts.task platform) launcherPath platform := by
  unfold toLane lanePlan
  dsimp only
  cases hcli : cliCommand rung with
  | some found =>
    obtain ⟨command, args⟩ := found
    rw [addRelayInvocation, relaySpec_eq_none_of_cli hcli, addCliInvocation, hcli]
    dsimp only
    cases hserved : notServableReason command args opts.manifest setting.now with
    | some reason => rfl
    | none =>
      dsimp only [Option.map_some, LanePlan.render]
      split
      · rename_i hnone
        rw [hnone, List.map_nil, stripArgs_nil]
      · rfl
  | none =>
    rw [addCliInvocation, hcli, addRelayInvocation]
    cases hspec : relaySpec rung with
    | none => rfl
    | some spec =>
      dsimp only
      split
      · rfl
      · split
        · rfl
        · split
          · cases hlane : setting.cliLane with
            | none => rfl
            | some template =>
              dsimp only [Option.map_some, LanePlan.render, transposeToCli]
              rw [stripArgs_nil, List.map_map]
              rfl
          · rfl

variable {setting : DispatchSetting} {opts : DispatchOptions}

theorem args_eq_configuredArgs {plan : LanePlan} (h : lanePlan rung setting opts = some plan) :
    plan.args = configuredArgs rung setting := by
  unfold lanePlan at h
  unfold configuredArgs
  cases hcli : cliCommand rung with
  | some found =>
    rw [hcli] at h
    dsimp only at h
    split at h
    · cases h
    · rw [← Option.some.inj h]
  | none =>
    rw [hcli] at h
    cases hspec : relaySpec rung with
    | none =>
      rw [hspec] at h
      cases h
    | some spec =>
      rw [hspec] at h
      dsimp only at h
      split at h
      · cases h
      · split at h
        · cases h
        · split at h
          · obtain ⟨template, hlane, rfl⟩ := Option.map_eq_some_iff.mp h
            rw [hlane]
            rfl
          · cases h

/-! ## Names -/

theorem equalsSign_notMem_of_mem_rungArgValues {args : List Text} {found : ArgValue}
    (h : found ∈ rungArgValues args) : equalsSign ∉ found.arg := by
  have hkey (a : Text) : equalsSign ∉ beforeEquals a := by
    intro hin
    have hne := List.mem_takeWhile_imp hin
    simp at hne
  fun_induction rungArgValues args with
  | case1 => cases h
  | case2 => cases h
  | case3 _ _ _ _ _ ih => exact ih h
  | case4 a hflag v rest _ ih =>
    rcases List.mem_cons.mp h with rfl | hrest
    · intro hin
      rw [Bool.and_eq_true, Bool.not_eq_true', ← Bool.not_eq_true] at hflag
      exact hflag.2 (List.contains_iff_mem.mpr hin)
    · exact ih hrest
  | case5 _ _ _ _ _ ih => exact ih h
  | case6 a rest _ _ _ ih =>
    rcases List.mem_cons.mp h with rfl | hrest
    · exact hkey a
    · exact ih hrest
  | case7 _ _ _ _ ih => exact ih h

theorem equalsSign_notMem_of_dropped {plan : LanePlan} (h : lanePlan rung setting opts = some plan) :
    ∀ name ∈ plan.dropped, equalsSign ∉ name := by
  intro name hname
  unfold lanePlan at h
  split at h
  · rename_i command args _
    split at h
    · cases h
    · obtain rfl := Option.some.inj h
      obtain ⟨⟨arg, reason⟩, harg, rfl⟩ := List.mem_map.mp hname
      unfold unsupportedRungArgs at harg
      split at harg
      · cases harg
      · cases harg
      · obtain ⟨⟨arg', value⟩, hfound, hdropped⟩ := List.mem_filterMap.mp harg
        dsimp only at hdropped
        split at hdropped
        · cases hdropped
        · obtain ⟨_, _, heq⟩ := Option.map_eq_some_iff.mp hdropped
          rw [← heq]
          exact equalsSign_notMem_of_mem_rungArgValues hfound
  · split at h
    · cases h
    · split at h
      · cases h
      · split at h
        · -- the template's arguments are never dropped
          obtain ⟨_, _, rfl⟩ := Option.map_eq_some_iff.mp h
          cases hname
        · cases h
  · cases h

/-! ## Independence of the task -/

namespace LanePlan

variable {plan : LanePlan}

theorem kept_sublist (plan : LanePlan) : plan.kept.Sublist plan.args :=
  stripFrom_sublist false [] plan.args

section

variable (hnames : ∀ name ∈ plan.dropped, equalsSign ∉ name)

include hnames

variable {task : Text}

theorem strip_fill_eq (hkept : ∀ a ∈ plan.kept, isDropped plan.dropped (fill task a) = false)
    (hpreceding : ∀ a ∈ plan.preceding, fill task a ≠ configFlag) :
    stripArgs (plan.args.map (fill task)) plan.dropped = plan.kept.map (fill task) :=
  stripFrom_fill hnames false hkept hpreceding

theorem steady_of_strip_eq
    (h : stripArgs (plan.args.map (fill task)) plan.dropped = plan.kept.map (fill task)) :
    (∀ a ∈ plan.kept, isDropped plan.dropped (fill task a) = false)
      ∧ ∀ a ∈ plan.preceding, fill task a ≠ configFlag := by
  have hkept : ∀ a ∈ plan.kept, isDropped plan.dropped (fill task a) = false := by
    intro a ha
    have hin : fill task a ∈ stripArgs (plan.args.map (fill task)) plan.dropped := by
      rw [h]
      exact List.mem_map_of_mem ha
    exact (mem_or_of_mem_stripFrom hin).resolve_left List.not_mem_nil
  refine ⟨hkept, fun a ha htaken => ?_⟩
  have hlt := length_stripFrom_lt hnames false hkept ha htaken
  have hlength := congrArg List.length h
  rw [List.length_map] at hlength
  exact absurd hlength (Nat.ne_of_lt hlt)

theorem render_eq (hkept : ∀ a ∈ plan.kept, isDropped plan.dropped (fill task a) = false)
    (hpreceding : ∀ a ∈ plan.preceding, fill task a ≠ configFlag) (platform : Platform) :
    plan.render (some task) platform
      = { command := normalizeCliCommand plan.command platform
          args := plan.kept.map (fill task)
          env := plan.env } := by
  rw [← strip_fill_eq hnames hkept hpreceding]
  rfl

theorem invocation_win32 (hkept : ∀ a ∈ plan.kept, isDropped plan.dropped (fill task a) = false)
    (hpreceding : ∀ a ∈ plan.preceding, fill task a ≠ configFlag) (path : Text) :
    plan.invocation (some path) .win32 task
      = if plan.launches task = true then
          { command := normalizeCliCommand plan.command .win32
            args := plan.kept.map (fill task)
            env := plan.env }
        else
          { command := text "pwsh"
            args := launcherArgs path (normalizeCliCommand plan.command .win32)
              ++ plan.kept.map (fill task)
            env := plan.env } := by
  rw [invocation, render_eq hnames hkept hpreceding]
  rfl

theorem Steady.independent (hsteady : plan.Steady) (platform : Platform)
    (launcherPath : Option Text) :
    TaskIndependent (fun task => some (plan.invocation launcherPath platform task))
      plan.args := by
  have hplain (h : ∀ invoke, wrapForWindowsConsoleSafety invoke launcherPath platform = invoke) :
      TaskIndependent (fun task => some (plan.invocation launcherPath platform task))
        plan.args := by
    refine .inr ⟨normalizeCliCommand plan.command platform, plan.env, [], plan.kept,
      plan.kept_sublist, .inl rfl, fun task htask => ?_⟩
    dsimp only [invocation]
    rw [h, render_eq hnames (hsteady.kept task htask) (hsteady.preceding task htask)]
    rfl
  cases platform with
  | other => exact hplain fun _ => rfl
  | win32 =>
    cases launcherPath with
    | none => exact hplain fun _ => rfl
    | some path =>
      have hwin (task : Text) (htask : NonBlank task) :=
        invocation_win32 hnames (hsteady.kept task htask) (hsteady.preceding task htask) path
      -- all tasks do as one of them does
      obtain ⟨v, -, -, -, hv, -⟩ := exists_ordinary []
      have hlaunches (task : Text) (htask : NonBlank task) :=
        hsteady.launched task v htask hv
      by_cases hl : plan.launches v = true
      · refine .inr ⟨normalizeCliCommand plan.command .win32, plan.env, [], plan.kept,
          plan.kept_sublist, .inl rfl, fun task htask => ?_⟩
        dsimp only
        rw [hwin task htask, hlaunches task htask, if_pos hl]
        rfl
      · refine .inr ⟨text "pwsh", plan.env,
          launcherArgs path (normalizeCliCommand plan.command .win32), plan.kept,
          plan.kept_sublist, .inr ⟨_, _, rfl⟩, fun task htask => ?_⟩
        dsimp only
        rw [hwin task htask, hlaunches task htask, if_neg hl]

theorem strip_eq_of_independent
    (hind : TaskIndependent (fun task => some (plan.invocation none .other task)) plan.args)
    (htask : NonBlank task) :
    stripArgs (plan.args.map (fill task)) plan.dropped = plan.kept.map (fill task) := by
  rcases hind with hnone | ⟨command, env, added, kept, -, -, hsome⟩
  · cases hnone task htask
  · have hargs (task : Text) (htask : NonBlank task) :
        stripArgs (plan.args.map (fill task)) plan.dropped = added ++ kept.map (fill task) :=
      congrArg Invocation.args (Option.some.inj (hsome task htask))
    obtain ⟨v, w, hv, hw, hvb, hwb, hhead⟩ := exists_ordinary plan.dropped
    have heq {v : Text} (hv : Ordinary plan.dropped v) (hvb : NonBlank v) :
        plan.kept.map (fill v) = added ++ kept.map (fill v) := by
      rw [← hargs v hvb, stripArgs_fill_of_ordinary hv hnames]
      rfl
    rw [hargs task htask]
    exact (map_fill_eq_of_two hvb.ne_nil hwb.ne_nil hhead (heq hv hvb)
      (heq hw hwb) task).symm

/-- **A plan is independent of the task** when no task is taken for something else. -/
theorem independent_iff :
    (∀ platform launcherPath, TaskIndependent
        (fun task => some (plan.invocation launcherPath platform task)) plan.args)
      ↔ plan.Steady := by
  constructor
  · intro hind
    have hstrip (task : Text) (htask : NonBlank task) :=
      steady_of_strip_eq hnames (strip_eq_of_independent hnames (hind .other none) htask)
    refine ⟨fun task htask => (hstrip task htask).1, fun task htask => (hstrip task htask).2, ?_⟩
    intro task task' htask htask'
    -- the launcher makes the arguments six longer
    have hlength (task : Text) (htask : NonBlank task) :
        (plan.invocation (some []) .win32 task).args.length
          = (if plan.launches task = true then 0 else 6) + plan.kept.length := by
      rw [invocation_win32 hnames (hstrip task htask).1 (hstrip task htask).2]
      split
      · rw [List.length_map, Nat.zero_add]
      · rw [List.length_append, List.length_map]
        rfl
    rcases hind .win32 (some []) with hnone | ⟨command, env, added, kept, -, -, hsome⟩
    · cases hnone task htask
    · have hsame (task : Text) (htask : NonBlank task) :
          (if plan.launches task = true then 0 else 6) + plan.kept.length
            = added.length + kept.length := by
        rw [← hlength task htask, Option.some.inj (hsome task htask), List.length_append,
          List.length_map]
      have hboth := (hsame task htask).trans (hsame task' htask').symm
      cases hl : plan.launches task <;> cases hl' : plan.launches task' <;>
        simp [hl, hl'] at hboth ⊢
  · exact fun hsteady platform launcherPath => hsteady.independent hnames platform launcherPath

end

end LanePlan

/-! ## Views -/

theorem normalizeTask_of_nonBlank {task : Text} (h : NonBlank task) :
    normalizeTask (some task) = some task := by
  unfold NonBlank at h
  rw [normalizeTask, Option.filter_some, if_pos (decide_eq_true h)]

theorem buildDispatch_invoke {setting : DispatchSetting} {rungs : List LadderRung}
    {opts : DispatchOptions} {platform : Platform} {launcherPath : Option Text} {i : Nat}
    (hrung : (viewRungs rungs opts)[i]? = some rung) {task : Text} (htask : NonBlank task) :
    ((buildDispatch setting rungs { opts with task := some task } platform launcherPath)[i]?).bind
        DispatchLane.invoke
      = (lanePlan rung setting opts).map (·.invocation launcherPath platform task) := by
  unfold buildDispatch
  rw [normalizeTask_of_nonBlank htask, List.getElem?_mapIdx]
  show ((viewRungs rungs opts)[i]?.map _).bind _ = _
  rw [hrung, Option.map_some, Option.bind_some, toLane_invoke]
  rfl

/-- **When the task text cannot change the lanes**: exactly when no plan of the view has an
argument that some task turns into another. -/
theorem task_text_independent_iff (setting : DispatchSetting) (rungs : List LadderRung)
    (opts : DispatchOptions) :
    (∀ platform launcherPath (i : Nat) rung, (viewRungs rungs opts)[i]? = some rung →
        TaskIndependent
          (fun task =>
            ((buildDispatch setting rungs { opts with task := some task } platform
              launcherPath)[i]?).bind DispatchLane.invoke)
          (configuredArgs rung setting))
      ↔ ∀ rung ∈ viewRungs rungs opts, ∀ plan, lanePlan rung setting opts = some plan →
          plan.Steady := by
  constructor
  · intro hind rung hrung plan hplan
    obtain ⟨i, hi⟩ := List.mem_iff_getElem?.mp hrung
    apply (LanePlan.independent_iff (equalsSign_notMem_of_dropped hplan)).mp
    intro platform launcherPath
    rw [args_eq_configuredArgs hplan]
    refine (hind platform launcherPath i rung hi).congr fun task htask => ?_
    rw [buildDispatch_invoke hi htask, hplan, Option.map_some]
  · intro hsteady platform launcherPath i rung hi
    cases hplan : lanePlan rung setting opts with
    | none =>
      refine (taskIndependent_none _).congr fun task htask => ?_
      rw [buildDispatch_invoke hi htask, hplan, Option.map_none]
    | some plan =>
      rw [← args_eq_configuredArgs hplan]
      refine ((hsteady rung (List.mem_of_getElem? hi) plan hplan).independent
        (equalsSign_notMem_of_dropped hplan) platform launcherPath).congr fun task htask => ?_
      rw [buildDispatch_invoke hi htask, hplan, Option.map_some]

section Example

/-- A tool that rejects `--effort` for its one model. -/
def effortRejected : LaneManifest :=
  OrderedMap.empty.set (text "codex")
    { via := text "probe"
      probedAt := text "now"
      probedMs := some 0
      models := []
      rejectedArgs := some (OrderedMap.empty.set (text "m") [text "--effort"]) }

def codexRung : LadderRung :=
  { id := text "codex"
    kind := .cli
    enabled := true
    command := some (text "codex")
    args := some [text "exec", text "--model", text "m", LADDER_TASK_TOKEN, text "--json",
      text "--effort", text "high"] }

def plainSetting : DispatchSetting :=
  { cliLane := none
    coolingDown := fun _ => false
    reachableWithoutRelay := fun _ => false
    offloadEnabled := false
    specContextWindow := fun _ => none
    now := 0 }

def effortOptions : DispatchOptions :=
  { task := none
    manifest := some effortRejected
    host := none
    entrypoint := none
    requestedByMcp := false
    model := none }

end Example

/-- A task that is the name of a rejected flag is dropped, with the argument after it. -/
theorem task_dropped_as_flag :
    ¬∀ (setting : DispatchSetting) (rungs : List LadderRung) (opts : DispatchOptions)
        (platform : Platform) (launcherPath : Option Text) (i : Nat) (rung : LadderRung),
      (viewRungs rungs opts)[i]? = some rung →
        TaskIndependent
          (fun task =>
            ((buildDispatch setting rungs { opts with task := some task } platform
              launcherPath)[i]?).bind DispatchLane.invoke)
          (configuredArgs rung setting) := by
  intro h
  rcases h plainSetting [codexRung] effortOptions .other none 0 codexRung rfl with
    hnone | ⟨command, env, added, kept, -, -, hsome⟩
  · exact absurd (hnone (text "fix") (by decide +kernel)) (by decide +kernel)
  · have hfix := congrArg (Option.map fun invoke => invoke.args.length)
      (hsome (text "fix") (by decide +kernel))
    have heffort := congrArg (Option.map fun invoke => invoke.args.length)
      (hsome (text "--effort") (by decide +kernel))
    simp only [Option.map_some, List.length_append, List.length_map] at hfix heffort
    exact absurd (hfix.trans heffort.symm) (by decide +kernel)

end LlmRelay.Dispatch
