import LlmRelay.Dispatch.Lanes
import Mathlib.Algebra.Order.BigOperators.Group.List

/-!
# The task text among the arguments

The task is put into the configured arguments before the arguments that a lane rejects are
removed. A run of `stripArgs` on the filled arguments is set beside the run on the configured
ones: they go together as long as no filled argument is taken for a flag or a token that is
dropped, or for the `--config` before one.

## Main definitions

* `fill`: an argument with the task in its place;
* `steadyNames`, `precedingFrom`: what the configured run looks at;
* `Ordinary`: a task that no name can be made of.

## Main results

* `stripFrom_fill`, `length_stripFrom_lt`: the runs go together, or the filled one stays shorter;
* `stripArgs_fill_of_ordinary`: an ordinary task is not looked at;
* `map_fill_eq_of_two`: two tasks that begin apart speak for all.
-/

namespace LlmRelay.Dispatch

open Ecma Config

/-- An argument with the task in the place of every `{task}`. -/
abbrev fill (task a : Text) : Text :=
  Text.replaceAll a LADDER_TASK_TOKEN task

theorem taskToken_ne_nil : LADDER_TASK_TOKEN ≠ [] := by decide

theorem equalsSign_notMem_taskToken : equalsSign ∉ LADDER_TASK_TOKEN := by decide

variable {a : Text}

theorem length_le_fill (h : a.includes LADDER_TASK_TOKEN = true) (task : Text) :
    task.length ≤ (fill task a).length :=
  Text.length_le_replaceAll taskToken_ne_nil h task

theorem fill_eq_nil_iff {task : Text} (htask : task ≠ []) : fill task a = [] ↔ a = [] := by
  cases htoken : a.includes LADDER_TASK_TOKEN with
  | false => rw [fill, Text.replaceAll_of_includes_eq_false htoken]
  | true =>
    constructor
    · intro h
      have hle := length_le_fill htoken task
      rw [h] at hle
      exact absurd (List.length_eq_zero_iff.mp (Nat.le_zero.mp hle)) htask
    · rintro rfl
      rfl

theorem fill_configFlag (task : Text) : fill task configFlag = configFlag :=
  Text.replaceAll_of_includes_eq_false (by decide) task

/-! ## What is dropped -/

/-- What `stripArgs` removes. -/
def isDropped (drop : List Text) (a : Text) : Bool :=
  drop.contains a || isDroppedPair drop a

/-- The names that no placeholder is part of. -/
def steadyNames (drop : List Text) : List Text :=
  drop.filter fun name => !name.includes LADDER_TASK_TOKEN

theorem eq_beforeEquals_append (h : a.contains equalsSign = true) :
    ∃ rest, a = beforeEquals a ++ equalsSign :: rest ∧ equalsSign ∉ beforeEquals a := by
  rw [List.contains_iff_mem] at h
  induction a with
  | nil => cases h
  | cons c a ih =>
    by_cases hc : c = equalsSign
    · subst hc
      exact ⟨a, by simp [beforeEquals], by simp [beforeEquals]⟩
    · have hin : equalsSign ∈ a := (List.mem_cons.mp h).resolve_left (Ne.symm hc)
      obtain ⟨rest, hrest, hnot⟩ := ih hin
      have hbefore : beforeEquals (c :: a) = c :: beforeEquals a := by
        simp [beforeEquals, hc]
      refine ⟨rest, ?_, ?_⟩
      · rw [hbefore, List.cons_append, ← hrest]
      · rw [hbefore, List.mem_cons, not_or]
        exact ⟨Ne.symm hc, hnot⟩

theorem beforeEquals_append {k rest : Text} (hk : equalsSign ∉ k) :
    beforeEquals (k ++ equalsSign :: rest) = k := by
  unfold beforeEquals
  rw [List.takeWhile_append_of_pos]
  · simp
  · intro c hc
    rw [decide_eq_true_eq]
    rintro rfl
    exact hk hc

section Dropped

variable {drop : List Text}

variable {a : Text}

theorem contains_fill_of_steady (h : (steadyNames drop).contains a = true) (task : Text) :
    drop.contains (fill task a) = true := by
  rw [List.contains_iff_mem, steadyNames, List.mem_filter, Bool.not_eq_true'] at h
  rw [fill, Text.replaceAll_of_includes_eq_false h.2, List.contains_iff_mem]
  exact h.1

theorem isDroppedPair_fill_of_steady (h : isDroppedPair (steadyNames drop) a = true) (task : Text) :
    isDroppedPair drop (fill task a) = true := by
  simp only [isDroppedPair, Bool.and_eq_true] at h ⊢
  obtain ⟨⟨hequals, hkey⟩, hname⟩ := h
  obtain ⟨rest, ha, hnot⟩ := eq_beforeEquals_append hequals
  have hsteady : (beforeEquals a).includes LADDER_TASK_TOKEN = false := by
    rw [List.contains_iff_mem, steadyNames, List.mem_filter, Bool.not_eq_true'] at hname
    exact hname.2
  have hfill : fill task a = beforeEquals a ++ equalsSign :: fill task rest := by
    conv_lhs => rw [ha]
    rw [fill, Text.replaceAll_append_cons taskToken_ne_nil equalsSign_notMem_taskToken,
      Text.replaceAll_of_includes_eq_false hsteady]
  have hname := contains_fill_of_steady hname task
  rw [fill, Text.replaceAll_of_includes_eq_false hsteady] at hname
  rw [hfill, beforeEquals_append hnot]
  refine ⟨⟨?_, hkey⟩, hname⟩
  simp

theorem contains_eq_false_of_equals (hnames : ∀ name ∈ drop, equalsSign ∉ name)
    (h : a.contains equalsSign = true) : drop.contains a = false := by
  rw [← Bool.not_eq_true, List.contains_iff_mem]
  intro hin
  rw [List.contains_iff_mem] at h
  exact hnames a hin h

theorem isDropped_configFlag :
    isDropped drop configFlag = isDropped (steadyNames drop) configFlag := by
  have hcontains : drop.contains configFlag = (steadyNames drop).contains configFlag := by
    rw [Bool.eq_iff_iff, List.contains_iff_mem, List.contains_iff_mem, steadyNames]
    simp [show configFlag.includes LADDER_TASK_TOKEN = false by decide]
  have hpair (names : List Text) : isDroppedPair names configFlag = false := by
    rfl
  rw [isDropped, isDropped, hcontains, hpair, hpair]

end Dropped

/-! ## Runs of `stripArgs` -/

section Strip

variable {a : Text} {skip : Bool} {out args : List Text}

variable {drop : List Text}

theorem mem_stripFrom_of_mem (hne : a ≠ configFlag) (h : a ∈ out) :
    a ∈ stripFrom drop skip out args := by
  induction args generalizing skip out with
  | nil => exact h
  | cons b args ih =>
    cases skip with
    | true => exact ih h
    | false =>
      rw [stripFrom]
      split
      · exact ih h
      · split
        · apply ih
          split
          · rename_i hlast
            -- the last one is `--config`, and so is not `a`
            rw [← List.dropLast_append_getLast? configFlag hlast, List.mem_append] at h
            exact h.resolve_right fun hin => hne (List.mem_singleton.mp hin)
          · exact h
        · exact ih (List.mem_append_left _ h)

theorem mem_or_of_mem_stripFrom (h : a ∈ stripFrom drop skip out args) :
    a ∈ out ∨ isDropped drop a = false := by
  induction args generalizing skip out with
  | nil => exact .inl h
  | cons b args ih =>
    cases skip with
    | true => exact ih h
    | false =>
      rw [stripFrom] at h
      split at h
      · exact ih h
      · rename_i hname
        split at h
        · rcases ih h with hout | hfree
          · refine .inl ?_
            split at hout
            · exact List.dropLast_subset out hout
            · exact hout
          · exact .inr hfree
        · rename_i hpair
          rcases ih h with hout | hfree
          · rcases List.mem_append.mp hout with hout | hb
            · exact .inl hout
            · rw [List.mem_singleton] at hb
              subst hb
              rw [Bool.not_eq_true] at hname hpair
              exact .inr (by rw [isDropped, hname, hpair]; rfl)
          · exact .inr hfree

theorem stripFrom_sublist (skip : Bool) (out args : List Text) :
    (stripFrom drop skip out args).Sublist (out ++ args) := by
  induction args generalizing skip out with
  | nil => rw [stripFrom, List.append_nil]
  | cons b args ih =>
    have hrest : (out ++ args).Sublist (out ++ b :: args) :=
      (List.sublist_cons_self b args).append_left out
    cases skip with
    | true => exact (ih false out).trans hrest
    | false =>
      rw [stripFrom]
      split
      · exact (ih true out).trans hrest
      · split
        · apply (ih false _).trans
          split
          · exact ((List.dropLast_sublist out).append_right args).trans hrest
          · exact hrest
        · apply (ih false _).trans
          rw [List.append_assoc]
          exact List.Sublist.refl _

/-- The arguments that stand last when a dropped token is met, but for `--config`. -/
def precedingFrom (drop : List Text) : Bool → List Text → List Text → List Text
  | _, _, [] => []
  | true, out, _ :: rest => precedingFrom drop false out rest
  | false, out, a :: rest =>
    if drop.contains a then precedingFrom drop true out rest
    else if isDroppedPair drop a then
      if out.getLast? = some configFlag then precedingFrom drop false out.dropLast rest
      else out.getLast?.toList ++ precedingFrom drop false out rest
    else precedingFrom drop false (out ++ [a]) rest

theorem ne_configFlag_of_mem_precedingFrom (h : a ∈ precedingFrom drop skip out args) :
    a ≠ configFlag := by
  induction args generalizing skip out with
  | nil => cases h
  | cons b args ih =>
    cases skip with
    | true => exact ih h
    | false =>
      rw [precedingFrom] at h
      split at h
      · exact ih h
      · split at h
        · split at h
          · exact ih h
          · rename_i hlast
            rcases List.mem_append.mp h with hout | hrest
            · rw [Option.mem_toList] at hout
              rintro rfl
              exact hlast hout
            · exact ih hrest
        · exact ih h

variable {drop : List Text} (hnames : ∀ name ∈ drop, equalsSign ∉ name) {task : Text}

theorem isDropped_fill_of_push (hname : (steadyNames drop).contains a = false)
    (hpair : isDroppedPair (steadyNames drop) a = false)
    (hkept : ∀ b ∈ stripFrom (steadyNames drop) false (out ++ [a]) args,
      isDropped drop (fill task b) = false) : isDropped drop (fill task a) = false := by
  by_cases ha : a = configFlag
  · subst ha
    rw [fill_configFlag, isDropped_configFlag, isDropped, hname]
    rfl
  · exact hkept a (mem_stripFrom_of_mem ha (by simp))

theorem getLast?_map_fill_iff (task : Text) :
    (out.map (fill task)).getLast? = some configFlag
      ↔ ∃ a, out.getLast? = some a ∧ fill task a = configFlag := by
  rw [List.getLast?_map, Option.map_eq_some_iff]

include hnames

theorem fill_of_pair (task : Text) (hpair : isDroppedPair (steadyNames drop) a = true) :
    drop.contains (fill task a) = false ∧ isDroppedPair drop (fill task a) = true := by
  have hfilled := isDroppedPair_fill_of_steady hpair task
  refine ⟨contains_eq_false_of_equals hnames ?_, hfilled⟩
  rw [isDroppedPair, Bool.and_eq_true, Bool.and_eq_true] at hfilled
  exact hfilled.1.1

/-- **The runs go together** as long as no filled argument is taken for something else. -/
theorem stripFrom_fill (skip : Bool) (hkept : ∀ a ∈ stripFrom (steadyNames drop) skip out args,
      isDropped drop (fill task a) = false)
    (hpreceding : ∀ a ∈ precedingFrom (steadyNames drop) skip out args, fill task a ≠ configFlag) :
    stripFrom drop skip (out.map (fill task)) (args.map (fill task))
      = (stripFrom (steadyNames drop) skip out args).map (fill task) := by
  induction args generalizing skip out with
  | nil => rfl
  | cons a args ih =>
    cases skip with
    | true => exact ih false hkept hpreceding
    | false =>
      rw [List.map_cons, stripFrom]
      rw [stripFrom] at hkept ⊢
      rw [precedingFrom] at hpreceding
      by_cases hname : (steadyNames drop).contains a = true
      · rw [if_pos hname] at hkept hpreceding ⊢
        rw [if_pos (contains_fill_of_steady hname task)]
        exact ih true hkept hpreceding
      · rw [if_neg hname] at hkept hpreceding ⊢
        by_cases hpair : isDroppedPair (steadyNames drop) a = true
        · rw [if_pos hpair] at hkept hpreceding ⊢
          obtain ⟨hfree, hfilled⟩ := fill_of_pair hnames task hpair
          rw [hfree, if_pos hfilled]
          by_cases hlast : out.getLast? = some configFlag
          · have hlast' : (out.map (fill task)).getLast? = some configFlag :=
              (getLast?_map_fill_iff task).mpr ⟨_, hlast, fill_configFlag task⟩
            rw [if_pos hlast] at hkept hpreceding ⊢
            rw [if_pos hlast', ← List.map_dropLast]
            exact ih false hkept hpreceding
          · rw [if_neg hlast] at hkept hpreceding ⊢
            have hlast' : (out.map (fill task)).getLast? ≠ some configFlag := by
              intro h
              obtain ⟨b, hb, heq⟩ := (getLast?_map_fill_iff task).mp h
              apply hpreceding b _ heq
              rw [hb]
              exact List.mem_append_left _ List.mem_cons_self
            rw [if_neg hlast']
            exact ih false hkept fun b hb => hpreceding b (List.mem_append_right _ hb)
        · rw [if_neg hpair] at hkept hpreceding ⊢
          rw [Bool.not_eq_true] at hname hpair
          have hfree := isDropped_fill_of_push hname hpair hkept
          rw [isDropped, Bool.or_eq_false_iff] at hfree
          rw [hfree.1, hfree.2]
          have hout : out.map (fill task) ++ [fill task a] = (out ++ [a]).map (fill task) := by
            simp
          rw [hout]
          exact ih false hkept hpreceding

theorem length_stripFrom_lt_of_lost (skip : Bool) {base upper base' : List Text} {lost : Text}
    (hlost : lost ≠ configFlag) (hbase : base'.length ≤ base.length)
    (hkept : ∀ a ∈ stripFrom (steadyNames drop) skip (base ++ lost :: upper) args,
      isDropped drop (fill task a) = false) :
    (stripFrom drop skip (base' ++ upper.map (fill task)) (args.map (fill task))).length
      < (stripFrom (steadyNames drop) skip (base ++ lost :: upper) args).length := by
  induction args generalizing skip base upper base' lost with
  | nil =>
    simp only [List.map_nil, stripFrom, List.length_append, List.length_map, List.length_cons]
    omega
  | cons a args ih =>
    cases skip with
    | true => exact ih false hlost hbase hkept
    | false =>
      rw [List.map_cons, stripFrom]
      rw [stripFrom] at hkept ⊢
      by_cases hname : (steadyNames drop).contains a = true
      · rw [if_pos hname] at hkept ⊢
        rw [if_pos (contains_fill_of_steady hname task)]
        exact ih true hlost hbase hkept
      · rw [if_neg hname] at hkept ⊢
        by_cases hpair : isDroppedPair (steadyNames drop) a = true
        · rw [if_pos hpair] at hkept ⊢
          obtain ⟨hfree, hfilled⟩ := fill_of_pair hnames task hpair
          rw [hfree, if_neg Bool.false_ne_true, if_pos hfilled]
          rcases List.eq_nil_or_concat upper with rfl | ⟨upper, u, rfl⟩
          · -- the lost argument is the last that the configured run has
            have hlast : (base ++ [lost]).getLast? ≠ some configFlag := by
              rw [List.getLast?_concat]
              exact fun h => hlost (Option.some.inj h)
            rw [if_neg hlast] at hkept ⊢
            split
            · have hshort : base'.dropLast.length ≤ base.length := by
                rw [List.length_dropLast]
                omega
              simpa using ih false hlost hshort hkept
            · simpa using ih false hlost hbase hkept
          · rw [List.concat_eq_append] at hkept ⊢
            have hconf : base ++ lost :: (upper ++ [u]) = base ++ lost :: upper ++ [u] := by simp
            have hout : base' ++ (upper ++ [u]).map (fill task)
                = base' ++ upper.map (fill task) ++ [fill task u] := by simp
            rw [hconf, List.getLast?_concat] at hkept ⊢
            rw [hout, List.getLast?_concat]
            by_cases hu : u = configFlag
            · -- both runs take it back
              subst hu
              rw [if_pos rfl, List.dropLast_concat] at hkept ⊢
              rw [fill_configFlag, if_pos rfl, List.dropLast_concat]
              exact ih false hlost hbase hkept
            · have hu' : some u ≠ some configFlag := fun h => hu (Option.some.inj h)
              rw [if_neg hu'] at hkept ⊢
              split
              · -- only the filled run does, so that it loses one more
                rw [List.dropLast_concat]
                have hshort : (base' ++ upper.map (fill task)).length
                    ≤ (base ++ lost :: upper).length := by
                  simp only [List.length_append, List.length_map, List.length_cons]
                  omega
                simpa using ih false hu hshort hkept
              · rw [← hout]
                rw [← hconf] at hkept ⊢
                exact ih false hlost hbase hkept
        · rw [if_neg hpair] at hkept ⊢
          rw [Bool.not_eq_true] at hname hpair
          have hfree := isDropped_fill_of_push hname hpair hkept
          rw [isDropped, Bool.or_eq_false_iff] at hfree
          rw [hfree.1, hfree.2]
          have hout : base' ++ upper.map (fill task) ++ [fill task a]
              = base' ++ (upper ++ [a]).map (fill task) := by simp
          have hconf : base ++ lost :: upper ++ [a] = base ++ lost :: (upper ++ [a]) := by simp
          rw [hconf] at hkept ⊢
          rw [hout]
          exact ih false hlost hbase hkept

/-- **Where the task is taken for `--config`** before a dropped token, an argument is lost. -/
theorem length_stripFrom_lt (skip : Bool) (hkept : ∀ a ∈ stripFrom (steadyNames drop) skip out args,
      isDropped drop (fill task a) = false)
    (ha : a ∈ precedingFrom (steadyNames drop) skip out args) (htaken : fill task a = configFlag) :
    (stripFrom drop skip (out.map (fill task)) (args.map (fill task))).length
      < (stripFrom (steadyNames drop) skip out args).length := by
  induction args generalizing skip out with
  | nil => cases ha
  | cons b args ih =>
    cases skip with
    | true => exact ih false hkept ha
    | false =>
      rw [List.map_cons, stripFrom]
      rw [stripFrom] at hkept ⊢
      rw [precedingFrom] at ha
      by_cases hname : (steadyNames drop).contains b = true
      · rw [if_pos hname] at hkept ha ⊢
        rw [if_pos (contains_fill_of_steady hname task)]
        exact ih true hkept ha
      · rw [if_neg hname] at hkept ha ⊢
        by_cases hpair : isDroppedPair (steadyNames drop) b = true
        · rw [if_pos hpair] at hkept ha ⊢
          obtain ⟨hfree, hfilled⟩ := fill_of_pair hnames task hpair
          rw [hfree, if_pos hfilled]
          by_cases hlast : out.getLast? = some configFlag
          · have hlast' : (out.map (fill task)).getLast? = some configFlag :=
              (getLast?_map_fill_iff task).mpr ⟨_, hlast, fill_configFlag task⟩
            rw [if_pos hlast] at hkept ha ⊢
            rw [if_pos hlast', ← List.map_dropLast]
            exact ih false hkept ha
          · rw [if_neg hlast] at hkept ha ⊢
            by_cases hlast' : (out.map (fill task)).getLast? = some configFlag
            · -- the runs part here
              obtain ⟨last, hout, -⟩ := (getLast?_map_fill_iff task).mp hlast'
              have hlost : last ≠ configFlag := fun h => hlast (h ▸ hout)
              have hdrop := List.dropLast_append_getLast? last hout
              rw [if_pos hlast']
              rw [← hdrop] at hkept ⊢
              have hlt := length_stripFrom_lt_of_lost hnames false hlost
                (List.length_map (fill task)).le hkept
              simpa using hlt
            · rw [if_neg hlast']
              apply ih false hkept
              refine (List.mem_append.mp ha).resolve_left fun hlastIn => hlast' ?_
              rw [Option.mem_toList] at hlastIn
              exact (getLast?_map_fill_iff task).mpr ⟨a, hlastIn, htaken⟩
        · rw [if_neg hpair] at hkept ha ⊢
          rw [Bool.not_eq_true] at hname hpair
          have hfree := isDropped_fill_of_push hname hpair hkept
          rw [isDropped, Bool.or_eq_false_iff] at hfree
          rw [hfree.1, hfree.2]
          have hout : out.map (fill task) ++ [fill task b] = (out ++ [b]).map (fill task) := by
            simp
          rw [hout]
          exact ih false hkept ha

end Strip

/-! ## Ordinary tasks -/

/-- A task that no name can be made of. -/
structure Ordinary (drop : List Text) (task : Text) : Prop where
  no_equals : equalsSign ∉ task
  longer : ∀ name ∈ drop, name.length < task.length
  longer_config : configFlag.length < task.length

/-- A task that is not blank. -/
def NonBlank (task : Text) : Prop :=
  Text.trim task ≠ []

instance (task : Text) : Decidable (NonBlank task) :=
  inferInstanceAs (Decidable (Text.trim task ≠ []))

section Ordinary

variable {drop : List Text} {task : Text} (hordinary : Ordinary drop task)

include hordinary

variable (a : Text)

theorem contains_fill_of_ordinary :
    drop.contains (fill task a) = (steadyNames drop).contains a := by
  rw [Bool.eq_iff_iff, List.contains_iff_mem, List.contains_iff_mem, steadyNames,
    List.mem_filter, Bool.not_eq_true']
  cases htoken : a.includes LADDER_TASK_TOKEN with
  | false =>
    rw [fill, Text.replaceAll_of_includes_eq_false htoken]
    simp
  | true =>
    -- the filled argument is longer than any name
    simp only [Bool.true_eq_false, and_false, iff_false]
    intro hin
    have hlong := hordinary.longer _ hin
    have hle := length_le_fill htoken task
    omega

theorem fill_eq_configFlag_iff : fill task a = configFlag ↔ a = configFlag := by
  cases htoken : a.includes LADDER_TASK_TOKEN with
  | false => rw [fill, Text.replaceAll_of_includes_eq_false htoken]
  | true =>
    have hle := length_le_fill htoken task
    have hlong := hordinary.longer_config
    constructor
    · intro heq
      rw [heq] at hle
      omega
    · rintro rfl
      exact fill_configFlag task

theorem contains_equals_fill : (fill task a).contains equalsSign = a.contains equalsSign := by
  rw [Bool.eq_iff_iff]
  constructor
  · intro h
    rw [List.contains_iff_mem] at h ⊢
    exact (Text.mem_replaceAll taskToken_ne_nil h).resolve_right hordinary.no_equals
  · intro h
    obtain ⟨rest, ha, -⟩ := eq_beforeEquals_append h
    rw [ha, fill, Text.replaceAll_append_cons taskToken_ne_nil equalsSign_notMem_taskToken]
    simp

theorem isDroppedPair_fill_of_ordinary :
    isDroppedPair drop (fill task a) = isDroppedPair (steadyNames drop) a := by
  unfold isDroppedPair
  rw [contains_equals_fill hordinary]
  cases hequals : a.contains equalsSign with
  | false => rfl
  | true =>
    obtain ⟨rest, ha, hnot⟩ := eq_beforeEquals_append hequals
    have hkey : beforeEquals (fill task a) = fill task (beforeEquals a) := by
      conv_lhs => rw [ha]
      rw [fill, Text.replaceAll_append_cons taskToken_ne_nil equalsSign_notMem_taskToken]
      apply beforeEquals_append
      intro hin
      rcases Text.mem_replaceAll taskToken_ne_nil hin with hbefore | htask
      · exact hnot hbefore
      · exact hordinary.no_equals htask
    have htask : task ≠ [] := by
      rintro rfl
      exact absurd hordinary.longer_config (Nat.not_lt_zero _)
    rw [hkey, contains_fill_of_ordinary hordinary]
    simp only [ne_eq, fill_eq_nil_iff htask]

theorem isDropped_fill_of_ordinary :
    isDropped drop (fill task a) = isDropped (steadyNames drop) a := by
  rw [isDropped, isDropped, contains_fill_of_ordinary hordinary,
    isDroppedPair_fill_of_ordinary hordinary]

/-- An ordinary task leaves the arguments that the configured run keeps. -/
theorem stripArgs_fill_of_ordinary (hnames : ∀ name ∈ drop, equalsSign ∉ name) (args : List Text) :
    stripArgs (args.map (fill task)) drop
      = (stripArgs args (steadyNames drop)).map (fill task) := by
  show stripFrom drop false ([].map (fill task)) _ = _
  apply stripFrom_fill hnames false
  · intro a ha
    rw [isDropped_fill_of_ordinary hordinary]
    exact (mem_or_of_mem_stripFrom ha).resolve_left List.not_mem_nil
  · intro a ha
    rw [Ne, fill_eq_configFlag_iff hordinary]
    exact ne_configFlag_of_mem_precedingFrom ha

end Ordinary

theorem ordinary_replicate {drop : List Text} {c : CodeUnit} (hc : c ≠ equalsSign) {n : Nat}
    (hn : (drop.map List.length).sum + configFlag.length < n) :
    Ordinary drop (List.replicate n c) where
  no_equals hin := hc (List.eq_of_mem_replicate hin).symm
  longer name hname := by
    have hle : name.length ≤ (drop.map List.length).sum :=
      List.le_sum_of_mem (List.mem_map_of_mem hname)
    rw [List.length_replicate]
    omega
  longer_config := by
    rw [List.length_replicate]
    omega

theorem nonBlank_replicate {c : CodeUnit} (hc : isWhitespace c = false) (n : Nat) :
    NonBlank (List.replicate (n + 1) c) := by
  have hdrop : (List.replicate (n + 1) c).dropWhile isWhitespace = List.replicate (n + 1) c := by
    rw [List.replicate_succ, List.dropWhile_cons_of_neg (by simp [hc])]
  unfold NonBlank Text.trim Text.trimStart Text.trimEnd
  rw [hdrop, List.reverse_replicate, hdrop, List.reverse_replicate]
  exact List.cons_ne_nil _ _

theorem NonBlank.ne_nil {task : Text} (h : NonBlank task) : task ≠ [] := by
  rintro rfl
  exact h rfl

theorem exists_ordinary (drop : List Text) :
    ∃ v w : Text, Ordinary drop v ∧ Ordinary drop w ∧ NonBlank v ∧ NonBlank w
      ∧ v.head? ≠ w.head? := by
  have hlong : (drop.map List.length).sum + configFlag.length
      < (drop.map List.length).sum + configFlag.length + 1 := Nat.lt_succ_self _
  refine ⟨_, _, ordinary_replicate (c := 0x78) (by decide) hlong,
    ordinary_replicate (c := 0x79) (by decide) hlong, nonBlank_replicate (by decide) _,
    nonBlank_replicate (by decide) _, ?_⟩
  rw [List.replicate_succ, List.replicate_succ, List.head?_cons, List.head?_cons]
  decide

/-! ## Two tasks that begin apart -/

/-- What two tasks that begin apart are rendered from is what every task is rendered from. -/
theorem map_fill_eq_of_two {v w : Text} (hv : v ≠ []) (hw : w ≠ []) (hhead : v.head? ≠ w.head?)
    {l added kept : List Text} (heqv : l.map (fill v) = added ++ kept.map (fill v))
    (heqw : l.map (fill w) = added ++ kept.map (fill w)) (task : Text) :
    l.map (fill task) = added ++ kept.map (fill task) := by
  induction added generalizing l with
  | nil =>
    rw [List.nil_append] at heqv heqw ⊢
    have hlist : l = kept := by
      induction l generalizing kept with
      | nil => exact (List.map_eq_nil_iff.mp heqv.symm).symm
      | cons a l ih =>
        obtain ⟨b, kept, rfl, hab, hrest⟩ := List.map_eq_cons_iff.mp heqv.symm
        obtain ⟨hab', hrest'⟩ := List.cons.inj heqw
        rw [Text.eq_of_replaceAll_eq taskToken_ne_nil hv hw hhead hab.symm hab',
          ih hrest.symm hrest']
    rw [hlist]
  | cons x added ih =>
    rw [List.cons_append] at heqv heqw ⊢
    obtain ⟨a, l, rfl, ha, hrest⟩ := List.map_eq_cons_iff.mp heqv
    rw [List.map_cons] at heqw ⊢
    obtain ⟨ha', hrest'⟩ := List.cons.inj heqw
    -- an argument that two tasks leave equal has no placeholder
    have hnone := Text.includes_eq_false_of_replaceAll_eq taskToken_ne_nil hv hw hhead
      (ha.trans ha'.symm)
    rw [ih hrest hrest', fill, Text.replaceAll_of_includes_eq_false hnone, ← ha, fill,
      Text.replaceAll_of_includes_eq_false hnone]

end LlmRelay.Dispatch
