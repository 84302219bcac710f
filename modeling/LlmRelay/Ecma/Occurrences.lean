import LlmRelay.Ecma.Text

/-!
# Where one string occurs in another

The positions at which a string occurs, when it grows and when it is searched from a
position on. Two strings that start with one character and hold it nowhere else occur
without overlap.

## Main definitions

* `Text.OccursAt`: a string occurs at a position of another;
* `Text.indexOfFrom`: `String.prototype.indexOf` with a position.

## Main results

* `Text.OccursAt.add_length_le`: occurrences do not overlap;
* `Text.indexOfFrom_spec`: the first occurrence from a position on.
-/

namespace Ecma.Text

/-- `p` occurs in `t` at the position `i`. -/
def OccursAt (p t : Text) (i : Nat) : Prop :=
  p <+: t.drop i

/-- `String.prototype.indexOf` from a position on; absent where the method answers `-1`. -/
def indexOfFrom (t p : Text) (position : Nat) : Option Nat :=
  (indexOf (t.drop position) p).map (position + ·)

variable {p q t : Text} {i j : Nat}

theorem OccursAt.append (h : OccursAt p t i) (u : Text) : OccursAt p (t ++ u) i := by
  unfold OccursAt at h ⊢
  rw [List.drop_append]
  exact h.trans (List.prefix_append _ _)

theorem OccursAt.of_append {u : Text} (h : OccursAt p (t ++ u) i) (hle : i + p.length ≤ t.length) :
    OccursAt p t i := by
  unfold OccursAt at h ⊢
  rw [List.drop_append_of_le_length (by omega)] at h
  refine List.prefix_of_prefix_length_le h (List.prefix_append _ _) ?_
  rw [List.length_drop]
  omega

theorem OccursAt.le_length (h : OccursAt p t i) (hp : p ≠ []) : i + p.length ≤ t.length := by
  have hle := h.length_le
  have hpos := List.length_pos_iff.mpr hp
  rw [List.length_drop] at hle
  omega

theorem OccursAt.getElem? (h : OccursAt p t i) {k : Nat} (hk : k < p.length) :
    t[i + k]? = p[k]? := by
  obtain ⟨rest, hrest⟩ := h
  rw [← List.getElem?_drop, ← hrest, List.getElem?_append_left hk]

theorem occursAt_drop : OccursAt p (t.drop i) j ↔ OccursAt p t (i + j) := by
  unfold OccursAt
  rw [List.drop_drop]

/-- **Occurrences do not overlap**: where the second string starts with a character that the
first one holds at most at its start. -/
theorem OccursAt.add_length_le {c : CodeUnit} (hp : OccursAt p t i) (hq : OccursAt q t j)
    (hhead : q[0]? = some c) (htail : c ∉ p.tail) (hij : i < j) : i + p.length ≤ j := by
  by_contra hlt
  have hqlen : 0 < q.length := by
    by_contra hzero
    rw [List.getElem?_eq_none (by omega)] at hhead
    cases hhead
  obtain ⟨k, rfl⟩ : ∃ k, j = i + (k + 1) := ⟨j - i - 1, by omega⟩
  have hk : k + 1 < p.length := by omega
  have hfirst := hq.getElem? hqlen
  rw [Nat.add_zero, hhead, hp.getElem? hk] at hfirst
  refine htail (List.mem_of_getElem? (i := k) ?_)
  rw [List.getElem?_tail]
  exact hfirst

theorem infix_iff_occursAt : p <:+: t ↔ ∃ i, OccursAt p t i := by
  constructor
  · rintro ⟨front, back, rfl⟩
    refine ⟨front.length, ?_⟩
    unfold OccursAt
    rw [List.append_assoc, List.drop_left]
    exact List.prefix_append _ _
  · rintro ⟨i, h⟩
    exact h.isInfix.trans (List.drop_suffix i t).isInfix

theorem includes_eq_false_iff : t.includes p = false ↔ ∀ i, ¬ OccursAt p t i := by
  rw [← Bool.not_eq_true, includes_iff, infix_iff_occursAt, not_exists]

/-- **The first occurrence** from a position on. -/
theorem indexOfFrom_spec {position : Nat} (h : indexOfFrom t p position = some i) :
    position ≤ i ∧ OccursAt p t i ∧ ∀ j, position ≤ j → j < i → ¬ OccursAt p t j := by
  obtain ⟨k, hk, rfl⟩ := Option.map_eq_some_iff.mp h
  refine ⟨by omega, occursAt_drop.mp (indexOf_spec hk).1, fun j hj hlt hoccurs => ?_⟩
  refine not_prefix_of_lt_indexOf hk (j := j - position) (by omega) ?_
  rw [List.drop_drop, show position + (j - position) = j by omega]
  exact hoccurs

theorem indexOfFrom_eq_none {position : Nat} (h : indexOfFrom t p position = none) (hj : position ≤ j) :
    ¬ OccursAt p t j := by
  intro hoccurs
  refine indexOf_eq_none_iff.mp (Option.map_eq_none_iff.mp h) (infix_iff_occursAt.mpr ?_)
  exact ⟨j - position, occursAt_drop.mpr (by rwa [show position + (j - position) = j by omega])⟩

end Ecma.Text
