import Mathlib.Data.List.Basic
import Mathlib.Data.Nat.Basic
import Mathlib.Order.Basic
import Mathlib.Logic.Function.Basic

/-!
# Additions chained by a conjunction

A chain of additions, each guarded by the success of all before it: `exact &&= f(..)`. An
addition works on one slot of the state and says whether it fitted. A call runs an inner chain
of its own, whose result is what the outer one is told. A step may end in a statement that is
not guarded within its call.

The same chain without the guards says what each slot would hold had every addition been made.

## Main definitions

* `Chain`: chains of additions and of calls;
* `Chain.run`, `Chain.runAll`: the chain as it runs, and without its guards;
* `Chain.overflowing`: the slots with an addition that does not fit;
* `Chain.skipped`: the slots of the additions that are not made;
* `Chain.Grows`: an addition that fits shows in the slot.

## Main results

* `Chain.run_of_not_mem_skipped`, `Chain.lt_of_mem_skipped`: where the guards show;
* `Chain.run_agrees_iff`: the guards are harmless exactly when every slot that they skip
  overflows itself.
-/

namespace Transition

variable {κ : Type*} [DecidableEq κ] {V : κ → Type*}

/-- Additions to slots, chained by their success. -/
inductive Chain {κ : Type*} (V : κ → Type*) where
  | done
  | add (s : κ) (f : V s → V s × Bool) (after : V s → V s) (rest : Chain V)
  | call (inner rest : Chain V)

namespace Chain

/-- The chain as it runs: the state, and whether every addition fitted. -/
def run : Chain V → (∀ s, V s) → Bool → (∀ s, V s) × Bool
  | done, state, exact => (state, exact)
  | add s f after rest, state, true =>
    run rest (Function.update state s (after (f (state s)).1)) (f (state s)).2
  | add s _ after rest, state, false =>
    run rest (Function.update state s (after (state s))) false
  | call inner rest, state, true =>
    run rest (run inner state true).1 (run inner state true).2
  | call _ rest, state, false => run rest state false

/-- The chain without its guards. -/
def runAll : Chain V → (∀ s, V s) → ∀ s, V s
  | done, state => state
  | add s f after rest, state =>
    runAll rest (Function.update state s (after (f (state s)).1))
  | call inner rest, state => runAll rest (runAll inner state)

/-- The slots that are added to. -/
def slots : Chain V → List κ
  | done => []
  | add s _ _ rest => s :: slots rest
  | call inner rest => slots inner ++ slots rest

/-- The slots with an addition that does not fit, each addition being made. -/
def overflowing : Chain V → (∀ s, V s) → List κ
  | done, _ => []
  | add s f after rest, state =>
    (if (f (state s)).2 then [] else [s])
      ++ overflowing rest (Function.update state s (after (f (state s)).1))
  | call inner rest, state => overflowing inner state ++ overflowing rest (runAll inner state)

/-- The slots of the additions behind the first one that does not fit. -/
def skipped : Chain V → (∀ s, V s) → List κ
  | done, _ => []
  | add s f after rest, state =>
    if (f (state s)).2 then
      skipped rest (Function.update state s (after (f (state s)).1))
    else
      slots rest
  | call inner rest, state =>
    if (overflowing inner state).isEmpty then
      skipped rest (runAll inner state)
    else
      skipped inner state ++ slots rest

/-! ## The state behind a failure -/

variable {chain : Chain V} {state : ∀ s, V s} {s : κ}

theorem run_of_not_mem_slots {exact : Bool} (h : s ∉ slots chain) :
    (run chain state exact).1 s = state s := by
  induction chain generalizing state exact with
  | done => cases exact <;> rfl
  | add t f after rest ih =>
    rw [slots, List.mem_cons, not_or] at h
    cases exact <;> rw [run, ih h.2, Function.update_of_ne h.1]
  | call inner rest ihInner ihRest =>
    rw [slots, List.mem_append, not_or] at h
    cases exact
    · rw [run, ihRest h.2]
    · rw [run, ihRest h.2, ihInner h.1]

theorem runAll_of_not_mem_slots (h : s ∉ slots chain) : runAll chain state s = state s := by
  induction chain generalizing state with
  | done => rfl
  | add t f after rest ih =>
    rw [slots, List.mem_cons, not_or] at h
    rw [runAll, ih h.2, Function.update_of_ne h.1]
  | call inner rest ihInner ihRest =>
    rw [slots, List.mem_append, not_or] at h
    rw [runAll, ihRest h.2, ihInner h.1]

theorem run_of_overflowing_nil (h : overflowing chain state = []) :
    run chain state true = (runAll chain state, true) := by
  induction chain generalizing state with
  | done => rfl
  | add s f after rest ih =>
    rw [overflowing, List.append_eq_nil_iff] at h
    have hok : (f (state s)).2 = true := by
      by_contra hno
      rw [if_neg hno] at h
      cases h.1
    rw [run, hok, ih h.2, runAll]
  | call inner rest ihInner ihRest =>
    rw [overflowing, List.append_eq_nil_iff] at h
    rw [run, ihInner h.1, ihRest h.2, runAll]

theorem run_false (chain : Chain V) (state : ∀ s, V s) : (run chain state false).2 = false := by
  induction chain generalizing state with
  | done => rfl
  | add s f after rest ih => exact ih _
  | call inner rest _ ih => exact ih _

theorem run_exact_iff : (run chain state true).2 = true ↔ overflowing chain state = [] := by
  refine ⟨fun h => ?_, fun h => by rw [run_of_overflowing_nil h]⟩
  induction chain generalizing state with
  | done => rfl
  | add s f after rest ih =>
    rw [run] at h
    cases hok : (f (state s)).2 with
    | false =>
      rw [hok, run_false] at h
      cases h
    | true =>
      rw [hok] at h
      simp [overflowing, hok, ih h]
  | call inner rest ihInner ihRest =>
    rw [run] at h
    cases hok : (run inner state true).2 with
    | false =>
      rw [hok, run_false] at h
      cases h
    | true =>
      have hinner := ihInner hok
      rw [run_of_overflowing_nil hinner] at h
      rw [overflowing, hinner, ihRest h, List.nil_append]

theorem run_of_overflowing_ne_nil (h : overflowing chain state ≠ []) :
    run chain state true = ((run chain state true).1, false) := by
  have hfalse : (run chain state true).2 = false := by
    rw [← Bool.not_eq_true, run_exact_iff]
    exact h
  rw [← hfalse]

/-! ## Slots that are not skipped -/

/-- A slot that no skipped addition is for ends as without the guards. -/
theorem run_of_not_mem_skipped (h : s ∉ skipped chain state) :
    (run chain state true).1 s = runAll chain state s := by
  induction chain generalizing state with
  | done => rfl
  | add t f after rest ih =>
    rw [skipped] at h
    rw [run, runAll]
    cases hok : (f (state t)).2 with
    | true =>
      rw [hok] at h
      exact ih h
    | false =>
      rw [hok] at h
      rw [run_of_not_mem_slots h, runAll_of_not_mem_slots h]
  | call inner rest ihInner ihRest =>
    rw [skipped] at h
    rw [run, runAll]
    by_cases hnil : overflowing inner state = []
    · rw [hnil, List.isEmpty_nil] at h
      rw [run_of_overflowing_nil hnil]
      exact ihRest h
    · rw [if_neg (by simpa using hnil), List.mem_append, not_or] at h
      rw [run_of_not_mem_slots h.2, runAll_of_not_mem_slots h.2, ihInner h.1]

/-! ## Slots that are skipped -/

section Grows

variable (μ : ∀ s, V s → Nat)

/-- An addition that fits raises the measure of its slot, and what follows it keeps the
measure. -/
def Grows : Chain V → Prop
  | done => True
  | add s f after rest =>
    (∀ v, (f v).2 = true → μ s v < μ s (f v).1) ∧ (∀ v, μ s (after v) = μ s v) ∧ Grows rest
  | call inner rest => Grows inner ∧ Grows rest

variable {μ}

variable {chain : Chain V}

theorem Grows.run_false (h : chain.Grows μ) (state : ∀ s, V s) (s : κ) :
    μ s ((run chain state false).1 s) = μ s (state s) := by
  induction chain generalizing state with
  | done => rfl
  | add t f after rest ih =>
    rw [run, ih h.2.2]
    by_cases hs : s = t
    · subst hs
      rw [Function.update_self, h.2.1]
    · rw [Function.update_of_ne hs]
  | call inner rest _ ih => exact ih h.2 state

/-- Without the guards a slot that does not overflow only grows, and grows when it is added
to. -/
theorem Grows.runAll {chain : Chain V} (h : chain.Grows μ) (hfits : s ∉ overflowing chain state) :
    μ s (state s) ≤ μ s (runAll chain state s)
      ∧ (s ∈ slots chain → μ s (state s) < μ s (runAll chain state s)) := by
  induction chain generalizing state with
  | done => exact ⟨le_rfl, fun hin => absurd hin List.not_mem_nil⟩
  | add t f after rest ih =>
    rw [overflowing, List.mem_append, not_or] at hfits
    obtain ⟨hle, hlt⟩ := ih h.2.2 hfits.2
    by_cases hs : s = t
    · subst hs
      have hok : (f (state s)).2 = true := by
        by_contra hno
        rw [if_neg hno] at hfits
        exact hfits.1 (List.mem_singleton_self s)
      have hgrow := h.1 _ hok
      rw [Function.update_self, h.2.1] at hle
      exact ⟨hgrow.le.trans hle, fun _ => hgrow.trans_le hle⟩
    · rw [Function.update_of_ne hs] at hle hlt
      refine ⟨hle, fun hin => hlt ?_⟩
      rw [slots, List.mem_cons] at hin
      exact hin.resolve_left hs
  | call inner rest ihInner ihRest =>
    rw [overflowing, List.mem_append, not_or] at hfits
    obtain ⟨hle, hlt⟩ := ihInner h.1 hfits.1
    obtain ⟨hle', hlt'⟩ := ihRest h.2 hfits.2
    refine ⟨hle.trans hle', fun hin => ?_⟩
    rw [slots, List.mem_append] at hin
    rcases hin with hin | hin
    · exact (hlt hin).trans_le hle'
    · exact hle.trans_lt (hlt' hin)

/-- A skipped slot that does not overflow is behind what it would be. -/
theorem Grows.lt_of_mem_skipped (h : chain.Grows μ)
    (hfits : s ∉ overflowing chain state) (hskipped : s ∈ skipped chain state) :
    μ s ((run chain state true).1 s) < μ s (Chain.runAll chain state s) := by
  induction chain generalizing state with
  | done => exact absurd hskipped List.not_mem_nil
  | add t f after rest ih =>
    rw [overflowing, List.mem_append, not_or] at hfits
    rw [skipped] at hskipped
    rw [run]
    cases hok : (f (state t)).2 with
    | true =>
      rw [hok] at hskipped
      exact ih h.2.2 hfits.2 hskipped
    | false =>
      rw [hok] at hskipped
      rw [h.2.2.run_false]
      exact (h.2.2.runAll hfits.2).2 hskipped
  | call inner rest ihInner ihRest =>
    rw [overflowing, List.mem_append, not_or] at hfits
    rw [skipped] at hskipped
    rw [run]
    by_cases hnil : overflowing inner state = []
    · rw [hnil, List.isEmpty_nil] at hskipped
      rw [run_of_overflowing_nil hnil]
      exact ihRest h.2 hfits.2 hskipped
    · rw [if_neg (by simpa using hnil), List.mem_append] at hskipped
      obtain ⟨hle, hlt⟩ := h.2.runAll hfits.2
      rw [run_of_overflowing_ne_nil hnil, h.2.run_false]
      -- a slot skipped in the call is behind already, another one falls behind later
      by_cases hin : s ∈ skipped inner state
      · exact (ihInner h.1 hfits.1 hin).trans_le hle
      · rw [run_of_not_mem_skipped hin]
        exact hlt (hskipped.resolve_left hin)

/-- **When the guards are harmless**: every slot that does not overflow ends as it would
without the guards exactly when every slot that is skipped overflows itself. -/
theorem Grows.run_agrees_iff (h : chain.Grows μ) (state : ∀ s, V s) :
    (∀ s, s ∉ overflowing chain state →
        (run chain state true).1 s = Chain.runAll chain state s)
      ↔ ∀ s ∈ skipped chain state, s ∈ overflowing chain state := by
  constructor
  · intro hagree s hskipped
    by_contra hfits
    have hlt := h.lt_of_mem_skipped hfits hskipped
    rw [hagree s hfits] at hlt
    exact lt_irrefl _ hlt
  · intro hskipped s hfits
    exact run_of_not_mem_skipped fun hin => hfits (hskipped s hin)

end Grows

end Chain

end Transition
