import Mathlib.Data.List.Induction

/-!
# Unwinding

What an observer sees of a state depends only on the inputs projected to the
observer, provided each input is local: it moves equal observations to equal
observations, an input without a projection moves none, and an input moves them as
its projection does.

## Main definitions

* `Unwinds`: the unwinding conditions, under an invariant of the states.

## Main results

* `Unwinds.observe_foldl`: the observation is that of the projected inputs;
* `Unwinds.noninterference`: equal projections lead to equal observations.
-/

namespace Transition

variable {σ ι ω : Type*}

/-- The unwinding conditions of an observer, for states that satisfy `Inv` and inputs
that satisfy `Ok`. -/
structure Unwinds (apply : σ → ι → σ) (observe : σ → ω) (project : ι → Option ι)
    (Inv : σ → Prop) (Ok : ι → Prop) : Prop where
  inv : ∀ s i, Inv s → Ok i → Inv (apply s i)
  congr : ∀ s s' i, observe s = observe s' → observe (apply s i) = observe (apply s' i)
  hidden : ∀ s i, Inv s → Ok i → project i = none → observe (apply s i) = observe s
  seen : ∀ s i i', Inv s → Ok i → project i = some i' → observe (apply s i) = observe (apply s i')

namespace Unwinds

variable {apply : σ → ι → σ} {observe : σ → ω} {project : ι → Option ι} {Inv : σ → Prop}
  {Ok : ι → Prop}

variable (h : Unwinds apply observe project Inv Ok)

include h

theorem foldl_congr (is : List ι) {s s' : σ}
    (hs : observe s = observe s') : observe (is.foldl apply s) = observe (is.foldl apply s') := by
  induction is generalizing s s' with
  | nil => exact hs
  | cons i is ih => exact ih (h.congr s s' i hs)

/-- **The observation is that of the projected inputs.** -/
theorem observe_foldl {is : List ι} (hok : ∀ i ∈ is, Ok i) {s : σ} (hs : Inv s) :
    observe (is.foldl apply s) = observe ((is.filterMap project).foldl apply s) := by
  induction is generalizing s with
  | nil => rfl
  | cons i is ih =>
    have hi := hok i List.mem_cons_self
    have hrest := ih (fun j hj => hok j (List.mem_cons_of_mem i hj)) (h.inv s i hs hi)
    rw [List.foldl_cons, hrest]
    cases hp : project i with
    | none =>
      rw [List.filterMap_cons_none hp]
      exact h.foldl_congr _ (h.hidden s i hs hi hp)
    | some i' =>
      rw [List.filterMap_cons_some hp]
      exact h.foldl_congr _ (h.seen s i i' hs hi hp)

/-- **Noninterference**: equal projections lead to equal observations. -/
theorem noninterference {is js : List ι}
    (his : ∀ i ∈ is, Ok i) (hjs : ∀ j ∈ js, Ok j) {s : σ} (hs : Inv s)
    (hproject : is.filterMap project = js.filterMap project) :
    observe (is.foldl apply s) = observe (js.foldl apply s) := by
  rw [h.observe_foldl his hs, h.observe_foldl hjs hs, hproject]

end Unwinds

end Transition
