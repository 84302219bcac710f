import Mathlib.Data.List.Induction

/-!
# Runs of a reactive system

A reactive system answers each input with an output and a successor state. Its
run over a list of inputs is the final state together with the history: every
input paired with the output it got, in order.

## Main definitions

* `run step s is`: the final state and the history of the inputs `is` from `s`;
* `finalState`, `history`: its two components.

## Main results

* `run_append`, `history_snoc`: runs compose;
* `run_invariant`: a relation between states and histories that one step
  preserves holds after every run;
* `party_cases`: the parties after one of them has acted.
-/

namespace Transition

variable {σ ι ο : Type*} (step : σ → ι → σ × ο)

/-- The final state and the history of a list of inputs. -/
def run (s : σ) : List ι → σ × List (ι × ο)
  | [] => (s, [])
  | i :: rest =>
    let answer := step s i
    let later := run answer.1 rest
    (later.1, (i, answer.2) :: later.2)

/-- The state reached by a list of inputs. -/
def finalState (s : σ) (is : List ι) : σ := (run step s is).1

/-- The answered inputs of a run, in order. -/
def history (s : σ) (is : List ι) : List (ι × ο) := (run step s is).2

variable (s : σ)

@[simp] theorem finalState_nil : finalState step s [] = s := rfl

@[simp] theorem history_nil : history step s [] = [] := rfl

@[simp] theorem finalState_cons (i : ι) (rest : List ι) :
    finalState step s (i :: rest) = finalState step (step s i).1 rest := rfl

@[simp] theorem history_cons (i : ι) (rest : List ι) :
    history step s (i :: rest) = (i, (step s i).2) :: history step (step s i).1 rest := rfl

theorem finalState_append (is js : List ι) :
    finalState step s (is ++ js) = finalState step (finalState step s is) js := by
  induction is generalizing s with
  | nil => rfl
  | cons i rest ih => simp [ih]

theorem history_append (is js : List ι) :
    history step s (is ++ js)
      = history step s is ++ history step (finalState step s is) js := by
  induction is generalizing s with
  | nil => rfl
  | cons i rest ih => simp [ih]

@[simp] theorem finalState_snoc (is : List ι) (i : ι) :
    finalState step s (is ++ [i]) = (step (finalState step s is) i).1 := by
  simp [finalState_append]

@[simp] theorem history_snoc (is : List ι) (i : ι) :
    history step s (is ++ [i])
      = history step s is ++ [(i, (step (finalState step s is) i).2)] := by
  simp [history_append]

theorem map_fst_history (is : List ι) : (history step s is).map Prod.fst = is := by
  induction is generalizing s with
  | nil => rfl
  | cons i rest ih => rw [history_cons, List.map_cons, ih]

/-- **The invariant rule**: a relation between the state and the history that
holds at the start and is kept by every step holds after every run. -/
theorem run_invariant {I : σ → List (ι × ο) → Prop} {s : σ} (hinit : I s [])
    (hstep : ∀ t evs i, I t evs → I (step t i).1 (evs ++ [(i, (step t i).2)]))
    (is : List ι) : I (finalState step s is) (history step s is) := by
  induction is using List.reverseRecOn with
  | nil => exact hinit
  | append_singleton is i ih =>
    rw [finalState_snoc, history_snoc]
    exact hstep _ _ i ih

theorem finalState_invariant {I : σ → Prop} {s : σ} (hinit : I s)
    (hstep : ∀ t i, I t → I (step t i).1) (is : List ι) : I (finalState step s is) := by
  induction is using List.reverseRecOn with
  | nil => exact hinit
  | append_singleton is i ih =>
    rw [finalState_snoc]
    exact hstep _ i ih

theorem forall_step_of_earlier {P : List ι → ι → Prop} {is : List ι}
    (h : ∀ pre i, pre ++ [i] <+: is → (∀ before j, before ++ [j] <+: pre → P before j) → P pre i) :
    ∀ pre i, pre ++ [i] <+: is → P pre i := by
  have hall : ∀ pre, pre <+: is → ∀ before j, before ++ [j] <+: pre → P before j := by
    intro pre
    induction pre using List.reverseRecOn with
    | nil =>
      intro _ before j hbefore
      exact absurd hbefore (by simp)
    | append_singleton pre last ih =>
      intro hpre before j hbefore
      have hinit := ih ((List.prefix_append pre [last]).trans hpre)
      rcases List.prefix_concat_iff.mp hbefore with heq | hshort
      · obtain ⟨rfl, hlast⟩ := List.append_inj' heq rfl
        cases hlast
        exact h before _ hpre hinit
      · exact hinit before j hshort
  exact hall is List.prefix_rfl

/-! ## Parties -/

/-- After one party has acted, a party is that one, or another as before. -/
theorem party_cases {κ α : Type*} [DecidableEq κ] {parties : κ → Option α} {i j : κ} {a b : α}
    (h : Function.update parties i (some a) j = some b) :
    (j = i ∧ b = a) ∨ (j ≠ i ∧ parties j = some b) := by
  by_cases heq : j = i
  · subst heq
    rw [Function.update_self] at h
    exact .inl ⟨rfl, (Option.some.inj h).symm⟩
  · rw [Function.update_of_ne heq] at h
    exact .inr ⟨heq, h⟩

end Transition
