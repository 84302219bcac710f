import Mathlib.Algebra.Order.Group.Unbundled.Basic
import Mathlib.Algebra.Order.Monoid.Defs
import Mathlib.Data.List.TakeWhile
import Mathlib.Data.List.Induction

/-!
# Sliding windows over a log of instants

A log lists instants, oldest first. A limiter admits a new instant where the trailing
window that ends there holds fewer than a limit, which bounds every window of that
width. A log that is pruned at an age and at a length still answers the limiter.

## Main definitions

* `trailing`, `within`: how many instants a window that ends, or begins, somewhere holds;
* `Admitted`: every instant passed the limiter;
* `retain`, `Retained`: pruning, and what a pruned log keeps.

## Main results

* `within_le_of_admitted`: a limiter that looks back bounds every window;
* `Retained.snoc`: pruning keeps the relation to the whole log;
* `Retained.trailing_eq`: below the cap a pruned log counts as the whole log does.
-/

namespace Transition

variable {α : Type*} [AddCommGroup α] [LinearOrder α]

/-- The instants after `now - width`. -/
def trailing (width : α) (log : List α) (now : α) : Nat :=
  log.countP fun t => now - width < t

/-- The instants of the half-open window of a width that begins at `s`. -/
def within (width : α) (log : List α) (s : α) : Nat :=
  log.countP fun t => s ≤ t ∧ t < s + width

/-- Each instant found fewer than `limit` earlier ones in its trailing window. -/
def Admitted (width : α) (limit : Nat) (log : List α) : Prop :=
  ∀ earlier t later, log = earlier ++ t :: later → trailing width earlier t < limit

section Windows

variable {width : α} {limit : Nat} {log : List α}

theorem Admitted.of_append {later : List α} (h : Admitted width limit (log ++ later)) :
    Admitted width limit log := by
  rintro earlier t rest rfl
  exact h earlier t (rest ++ later) (by rw [List.append_assoc, List.cons_append])

theorem Admitted.snoc {t : α} (h : Admitted width limit log) (ht : trailing width log t < limit) :
    Admitted width limit (log ++ [t]) := by
  intro earlier u later hsplit
  rcases List.eq_nil_or_concat later with rfl | ⟨rest, v, rfl⟩
  · obtain ⟨rfl, hu⟩ := List.append_inj' hsplit rfl
    rw [← List.head_eq_of_cons_eq hu]
    exact ht
  · rw [List.concat_eq_append, ← List.cons_append, ← List.append_assoc] at hsplit
    exact h earlier u rest (List.append_inj' hsplit rfl).1

variable [IsOrderedAddMonoid α]

theorem within_le_trailing {s t : α} (ht : t < s + width) :
    within width log s ≤ trailing width log t := by
  refine List.countP_mono_left fun u _ hu => ?_
  simp only [decide_eq_true_eq] at hu ⊢
  exact lt_of_lt_of_le (sub_lt_iff_lt_add.mpr ht) hu.1

/-- **A limiter that looks back bounds every window**: where each instant found fewer
than `limit` before it, no window of the width holds more than `limit`. -/
theorem within_le_of_admitted (h : Admitted width limit log) (s : α) :
    within width log s ≤ limit := by
  induction log using List.reverseRecOn with
  | nil => exact Nat.zero_le _
  | append_singleton log t ih =>
    have hlog := ih h.of_append
    have hlast := h log t [] rfl
    rw [within, List.countP_append]
    by_cases ht : s ≤ t ∧ t < s + width
    · -- the window holds the last instant, so it is counted from there
      have hle : within width log s ≤ trailing width log t := within_le_trailing ht.2
      have hone : [t].countP (fun u => decide (s ≤ u ∧ u < s + width)) ≤ 1 :=
        List.countP_le_length
      simp only [within] at hle
      omega
    · have hzero : [t].countP (fun u => decide (s ≤ u ∧ u < s + width)) = 0 := by
        simp [ht]
      rw [hzero]
      exact hlog

end Windows

/-! ## Pruning -/

/-- Drops the instants older than `width`, and then the oldest over the cap. -/
def retain (width : α) (cap : Nat) (log : List α) (now : α) : List α :=
  let kept := log.dropWhile fun t => t < now - width
  kept.drop (kept.length - cap)

/-- The pruned log is the end of the whole one, and what is missing is too old, or the
pruned log is full. -/
def Retained (width : α) (cap : Nat) (all log : List α) : Prop :=
  ∃ dropped, all = dropped ++ log ∧
    ((∀ t ∈ dropped, ∀ last ∈ all.getLast?, t < last - width) ∨ cap ≤ log.length)

section Pruning

variable {width : α} {cap : Nat} {all log : List α}

theorem Retained.nil : Retained width cap ([] : List α) [] :=
  ⟨[], rfl, .inl fun _ h => absurd h List.not_mem_nil⟩

variable [IsOrderedAddMonoid α]

/-- **One more instant**: pruning after an append keeps the relation. -/
theorem Retained.snoc {t : α} (h : Retained width cap all log)
    (hsorted : (all ++ [t]).Pairwise (· ≤ ·)) :
    Retained width cap (all ++ [t]) (retain width cap (log ++ [t]) t) := by
  obtain ⟨dropped, hall, hmissing⟩ := h
  set expired := (log ++ [t]).takeWhile fun u => decide (u < t - width)
  set kept := (log ++ [t]).dropWhile fun u => decide (u < t - width)
  have hparts : expired ++ kept = log ++ [t] := List.takeWhile_append_dropWhile
  have hsplit : all ++ [t]
      = (dropped ++ expired ++ kept.take (kept.length - cap)) ++ kept.drop (kept.length - cap) := by
    rw [List.append_assoc, List.take_append_drop, List.append_assoc, hparts, hall,
      List.append_assoc]
  refine ⟨_, hsplit, ?_⟩
  by_cases hfull : cap ≤ kept.length
  · right
    change cap ≤ (kept.drop (kept.length - cap)).length
    rw [List.length_drop]
    omega
  · left
    intro u hu last hlast
    have hnone : kept.length - cap = 0 := by omega
    rw [hnone, List.take_zero, List.append_nil] at hu
    rw [List.getLast?_concat, Option.mem_some_iff] at hlast
    subst hlast
    rw [List.mem_append] at hu
    rcases hu with hu | hu
    · rcases hmissing with hold | hcap
      · -- what was too old before is too old now
        have hlast := List.getLast?_eq_some_getLast (l := all) (by
          rintro rfl
          rw [List.nil_eq, List.append_eq_nil_iff] at hall
          rw [hall.1] at hu
          exact absurd hu List.not_mem_nil)
        refine lt_of_lt_of_le (hold u hu _ hlast) (sub_le_sub_right ?_ width)
        exact (List.pairwise_append.mp hsorted).2.2 _ (List.getLast_mem _) t (List.mem_singleton_self t)
      · -- a full log shrank, so its first instant expired, and `u` is no younger
        have hexpired : expired ≠ [] := by
          intro hnil
          rw [hnil, List.nil_append] at hparts
          rw [hparts, List.length_append] at hfull
          omega
        obtain ⟨e, he⟩ := List.exists_mem_of_ne_nil _ hexpired
        have hlt : e < t - width := by
          simpa using List.mem_takeWhile_imp he
        have hmem : e ∈ log ++ [t] := by
          rw [← hparts]
          exact List.mem_append_left _ he
        rw [hall, List.append_assoc] at hsorted
        exact lt_of_le_of_lt ((List.pairwise_append.mp hsorted).2.2 u hu e hmem) hlt
    · simpa using List.mem_takeWhile_imp hu

/-- **Below the cap a pruned log is exact**: where it counts fewer than a limit that is
at most the cap, the whole log holds no more. -/
theorem Retained.trailing_eq {short now : α} {limit : Nat} (h : Retained width cap all log)
    (hsorted : all.Pairwise (· ≤ ·)) (hnow : ∀ t ∈ all, t ≤ now) (hshort : short ≤ width)
    (hlimit : limit ≤ cap) (hlt : trailing short log now < limit) :
    trailing short all now = trailing short log now := by
  obtain ⟨dropped, hall, hmissing⟩ := h
  have hnone : trailing short dropped now = 0 := by
    refine List.countP_eq_zero.mpr fun u hu => ?_
    rw [decide_eq_true_eq, not_lt]
    rcases hmissing with hold | hcap
    · have hne : all ≠ [] := by
        rintro rfl
        rw [List.nil_eq, List.append_eq_nil_iff] at hall
        rw [hall.1] at hu
        exact absurd hu List.not_mem_nil
      have hlast := hnow _ (List.getLast_mem hne)
      refine (hold u hu _ (List.getLast?_eq_some_getLast hne)).le.trans ?_
      exact sub_le_sub hlast hshort
    · -- otherwise the whole full log would lie in the window
      by_contra hnot
      rw [not_le] at hnot
      have hwhole : trailing short log now = log.length := by
        refine List.countP_eq_length.mpr fun v hv => ?_
        rw [decide_eq_true_eq]
        rw [hall] at hsorted
        exact lt_of_lt_of_le hnot ((List.pairwise_append.mp hsorted).2.2 u hu v hv)
      omega
  rw [hall, trailing, List.countP_append]
  change trailing short dropped now + trailing short log now = _
  rw [hnone, Nat.zero_add]

end Pruning

end Transition
