import LlmRelay.Ecma.Number
import Mathlib.Data.List.Nodup
import Mathlib.Data.List.Perm.Basic
import Mathlib.Data.List.Perm.Subperm
import Mathlib.Data.List.Sort

/-!
# Sorting an array, and keeping its end

`Array.prototype.sort` is stable: what compares equal keeps its order. An element is among
the last `n` of the sorted array exactly when fewer than `n` others come after it.

## Main definitions

* `sortedAfter le a l`: what comes after `a` once `l` is sorted;
* `compareNumbers`: the comparison of a sort by numbers.

## Main results

* `mem_drop_mergeSort_iff`: which elements are among the last `n`;
* `pairwise_insertionSort_iff`: what holds in order of a sorted list, told from the list;
* `getLast?_filter_mergeSort_rank`: which element of a kind is the last one, sorted by a rank.
-/

namespace Ecma

/-! ## What comes after an element -/

section After

variable {α : Type*}

theorem mem_of_pair_sublist {a b : α} {before after : List α}
    (hnodup : (before ++ a :: after).Nodup) (h : [b, a].Sublist (before ++ a :: after)) :
    b ∈ before := by
  obtain ⟨-, htail, hapart⟩ := List.nodup_append.mp hnodup
  obtain ⟨first, second, heq, hfirst, hsecond⟩ := List.sublist_append_iff.mp h
  rcases first with _ | ⟨c, rest⟩
  · -- then both are in the tail, where `a` comes first
    subst heq
    have hin : a ∈ after := by
      cases hsecond with
      | cons _ hsub => exact hsub.subset (by simp)
      | cons_cons _ hsub => exact hsub.subset (by simp)
    exact absurd hin (List.nodup_cons.mp htail).1
  · obtain ⟨rfl, -⟩ := List.cons.inj heq
    exact hfirst.subset List.mem_cons_self

theorem mem_of_sublist_pair {a b : α} {before after : List α}
    (hnodup : (before ++ a :: after).Nodup) (h : [a, b].Sublist (before ++ a :: after)) :
    b ∈ after := by
  obtain ⟨-, htail, hapart⟩ := List.nodup_append.mp hnodup
  have hnot : a ∉ before := fun hin => hapart a hin a List.mem_cons_self rfl
  obtain ⟨first, second, heq, hfirst, hsecond⟩ := List.sublist_append_iff.mp h
  rcases first with _ | ⟨c, rest⟩
  · rw [List.nil_append] at heq
    subst heq
    cases hsecond with
    | cons _ hsub =>
      exact absurd (hsub.subset List.mem_cons_self) (List.nodup_cons.mp htail).1
    | cons_cons _ hsub => exact hsub.subset List.mem_cons_self
  · obtain ⟨rfl, -⟩ := List.cons.inj heq
    exact absurd (hfirst.subset List.mem_cons_self) hnot

variable [DecidableEq α] {le : α → α → Bool}

/-- The elements after `a` once the list is sorted: the greater ones, and those of its rank
that stood behind it. -/
def sortedAfter (le : α → α → Bool) (a : α) (l : List α) : List α :=
  (l.takeWhile (· ≠ a)).filter (fun b => !le b a) ++
    (l.dropWhile (· ≠ a)).tail.filter fun b => le a b

theorem sortedAfter_append {a : α} {front back : List α} (h : a ∉ front) :
    sortedAfter le a (front ++ a :: back)
      = front.filter (fun b => !le b a) ++ back.filter fun b => le a b := by
  have hfront : ∀ b ∈ front, decide (b ≠ a) = true := by
    intro b hb
    rw [decide_eq_true_eq]
    rintro rfl
    exact h hb
  rw [sortedAfter, List.takeWhile_append_of_pos hfront, List.dropWhile_append_of_pos hfront]
  simp

theorem mem_sortedAfter_of_lt {a b : α} {l : List α} (hb : b ∈ l) (hle : le a b = true)
    (hlt : le b a = false) : b ∈ sortedAfter le a l := by
  have hne : b ≠ a := by
    rintro rfl
    rw [hle] at hlt
    cases hlt
  rw [sortedAfter, List.mem_append, List.mem_filter, List.mem_filter, Bool.not_eq_true']
  rw [← List.takeWhile_append_dropWhile (p := (· ≠ a)) (l := l), List.mem_append] at hb
  rcases hb with hfront | hback
  · exact .inl ⟨hfront, hlt⟩
  · refine .inr ⟨?_, hle⟩
    cases hdrop : l.dropWhile (· ≠ a) with
    | nil =>
      rw [hdrop] at hback
      cases hback
    | cons c rest =>
      -- the first element left is `a` itself
      have hhead := List.head?_dropWhile_not (· ≠ a) l
      rw [hdrop] at hback hhead
      have hc : c = a := by simpa using hhead
      rw [hc] at hback
      exact (List.mem_cons.mp hback).resolve_left hne

section Sorted

variable (trans : ∀ a b c, le a b = true → le b c = true → le a c = true)
  (total : ∀ a b, (le a b || le b a) = true)

include trans total

theorem perm_sortedAfter {l before after : List α} (hnodup : l.Nodup) {a : α}
    (hsorted : l.mergeSort le = before ++ a :: after) : after.Perm (sortedAfter le a l) := by
  have hperm : (before ++ a :: after).Perm l := hsorted ▸ List.mergeSort_perm l le
  have hmem : a ∈ l := hperm.mem_iff.mp (List.mem_append_right _ List.mem_cons_self)
  obtain ⟨front, back, rfl⟩ := List.append_of_mem hmem
  have hnodup' : (before ++ a :: after).Nodup := hperm.nodup_iff.mpr hnodup
  have hpairwise := List.pairwise_mergeSort trans total (front ++ a :: back)
  rw [hsorted] at hpairwise
  obtain ⟨-, htail, hordered⟩ := List.pairwise_append.mp hpairwise
  obtain ⟨-, hnodupTail, -⟩ := List.nodup_append.mp hnodup'
  obtain ⟨hfront, hback, hapart⟩ := List.nodup_append.mp hnodup
  have hnotFront : a ∉ front := fun hin => hapart a hin a List.mem_cons_self rfl
  rw [List.nodup_cons] at hback hnodupTail
  -- the sort keeps the order of two elements that need no exchange
  have hstable : ∀ b c, le b c = true → [b, c].Sublist (front ++ a :: back) →
      [b, c].Sublist (before ++ a :: after) := by
    intro b c hle hsub
    exact hsorted ▸ List.pair_sublist_mergeSort trans total hle hsub
  have hbefore : ∀ b ∈ front, le b a = true → b ∈ before := by
    intro b hin hle
    refine mem_of_pair_sublist hnodup' (hstable b a hle ?_)
    exact (List.singleton_sublist.mpr hin).append (List.singleton_sublist.mpr List.mem_cons_self)
  have hafter : ∀ b ∈ back, le a b = true → b ∈ after := by
    intro b hin hle
    refine mem_of_sublist_pair hnodup' (hstable a b hle ?_)
    exact ((List.singleton_sublist.mpr hin).cons_cons a).trans (List.sublist_append_right _ _)
  have hapart' : ∀ b ∈ before, b ∉ after := by
    intro b hin hin'
    exact (List.nodup_append.mp hnodup').2.2 b hin b (List.mem_cons_of_mem a hin') rfl
  rw [sortedAfter_append hnotFront]
  refine (List.perm_ext_iff_of_nodup hnodupTail.2 ?_).mpr fun b => ?_
  · refine List.nodup_append.mpr ⟨hfront.filter _, hback.2.filter _, ?_⟩
    intro b hb c hc
    exact hapart b (List.mem_of_mem_filter hb) c
      (List.mem_cons_of_mem a (List.mem_of_mem_filter hc))
  · rw [List.mem_append, List.mem_filter, List.mem_filter, Bool.not_eq_true', ← Bool.not_eq_true]
    constructor
    · intro hb
      have hne : b ≠ a := fun heq => hnodupTail.1 (heq ▸ hb)
      have hin := hperm.mem_iff.mp (List.mem_append_right before (List.mem_cons_of_mem a hb))
      rcases List.mem_append.mp hin with hin | hin
      · exact .inl ⟨hin, fun hle => hapart' b (hbefore b hin hle) hb⟩
      · rcases List.mem_cons.mp hin with heq | hin
        · exact absurd heq hne
        · exact .inr ⟨hin, List.rel_of_pairwise_cons htail hb⟩
    · rintro (⟨hin, hgreater⟩ | ⟨hin, hle⟩)
      · have hmem' := hperm.mem_iff.mpr (List.mem_append_left (a :: back) hin)
        rcases List.mem_append.mp hmem' with hb | hb
        · exact absurd (hordered b hb a List.mem_cons_self) hgreater
        · rcases List.mem_cons.mp hb with heq | hb
          · exact absurd (heq ▸ hin) hnotFront
          · exact hb
      · exact hafter b hin hle

/-- **Keeping the end of a sorted array**: an element is among the last `n` exactly when
fewer than `n` others come after it. -/
theorem mem_drop_mergeSort_iff {l : List α} (hnodup : l.Nodup) {a : α} (ha : a ∈ l) (n : Nat) :
    a ∈ (l.mergeSort le).drop (l.length - n) ↔ (sortedAfter le a l).length < n := by
  obtain ⟨before, after, hsorted⟩ := List.append_of_mem (List.mem_mergeSort.mpr ha)
  have hperm : (before ++ a :: after).Perm l := hsorted ▸ List.mergeSort_perm l le
  have hnodup' : (before ++ a :: after).Nodup := hperm.nodup_iff.mpr hnodup
  have hlength : before.length + (after.length + 1) = l.length := by
    rw [← hperm.length_eq, List.length_append, List.length_cons]
  rw [← (perm_sortedAfter trans total hnodup hsorted).length_eq, hsorted]
  obtain ⟨-, htail, hapart⟩ := List.nodup_append.mp hnodup'
  rw [List.nodup_cons] at htail
  constructor
  · intro hin
    by_contra hmany
    -- the cut is behind `a`
    have hcut : (before ++ [a]).length ≤ l.length - n := by
      rw [List.length_append, List.length_singleton]
      omega
    rw [← List.singleton_append, ← List.append_assoc, List.drop_append,
      List.drop_eq_nil_of_le hcut] at hin
    exact htail.1 (List.mem_of_mem_drop hin)
  · intro hfew
    have hcut : l.length - n ≤ before.length := by omega
    rw [List.drop_append_of_le_length hcut]
    exact List.mem_append_right _ List.mem_cons_self

end Sorted

end After

/-! ## What holds in the order of a sorted list -/

section Order

variable {α : Type*} {r : α → α → Prop} [DecidableRel r] [IsTrans α r]
  {R : α → α → Prop}

theorem pairwise_orderedInsert_iff {a : α} {l : List α} (hl : l.Pairwise r) :
    (l.orderedInsert r a).Pairwise R ↔
      (∀ b ∈ l, (r a b → R a b) ∧ (¬ r a b → R b a)) ∧ l.Pairwise R := by
  induction l with
  | nil => simp
  | cons b rest ih =>
    rw [List.pairwise_cons] at hl
    by_cases hab : r a b
    · -- it precedes all that follow
      have hall : ∀ c ∈ b :: rest, r a c := by
        intro c hc
        rcases List.mem_cons.mp hc with rfl | hc
        · exact hab
        · exact IsTrans.trans a b c hab (hl.1 c hc)
      rw [List.orderedInsert_cons, if_pos hab, List.pairwise_cons]
      refine and_congr_left fun _ => forall₂_congr fun c hc => ?_
      simp only [hall c hc, true_imp_iff, not_true_eq_false, false_imp_iff, and_true]
    · rw [List.orderedInsert_cons, if_neg hab, List.pairwise_cons, ih hl.2, List.pairwise_cons,
        List.forall_mem_cons]
      have hmem : (∀ c ∈ rest.orderedInsert r a, R b c) ↔ R b a ∧ ∀ c ∈ rest, R b c := by
        simp only [List.mem_orderedInsert, forall_eq_or_imp]
      rw [hmem]
      simp only [hab, false_imp_iff, not_false_eq_true, true_imp_iff, true_and]
      constructor
      · rintro ⟨⟨hba, hrest⟩, hall, hpairs⟩
        exact ⟨⟨hba, hall⟩, hrest, hpairs⟩
      · rintro ⟨⟨hba, hall⟩, hrest, hpairs⟩
        exact ⟨⟨hba, hrest⟩, hall, hpairs⟩

/-- **The order of a stable sort**: of two elements the earlier one stands first exactly where it
compares as no greater. -/
theorem pairwise_insertionSort_iff [Std.Total r] {l : List α} :
    (l.insertionSort r).Pairwise R ↔
      l.Pairwise fun a b => (r a b → R a b) ∧ (¬ r a b → R b a) := by
  induction l with
  | nil => simp
  | cons a rest ih =>
    rw [List.insertionSort_cons, pairwise_orderedInsert_iff (List.pairwise_insertionSort r rest),
      ih, List.pairwise_cons]
    simp only [List.mem_insertionSort]

end Order

/-! ## Sorting by a rank -/

section Rank

variable {α : Type*} (rank : α → Nat)

/-- The elements of one rank keep their order. -/
theorem filter_mergeSort_rank (r : Nat) (l : List α) :
    (l.mergeSort fun a b => decide (rank a ≤ rank b)).filter (rank · = r)
      = l.filter (rank · = r) := by
  have hperm := List.mergeSort_perm l fun a b => decide (rank a ≤ rank b)
  have hequal : (l.filter (rank · = r)).Pairwise fun a b => decide (rank a ≤ rank b) = true := by
    refine List.pairwise_of_forall_mem_list fun a ha b hb => ?_
    rw [of_decide_eq_true (List.mem_filter.mp ha).2, of_decide_eq_true (List.mem_filter.mp hb).2]
    exact decide_eq_true le_rfl
  have hsub : (l.filter (rank · = r)).Sublist (l.mergeSort fun a b => decide (rank a ≤ rank b)) := by
    refine List.sublist_mergeSort (fun a b c hab hbc => ?_) (fun a b => ?_) hequal
      List.filter_sublist
    · exact decide_eq_true ((of_decide_eq_true hab).trans (of_decide_eq_true hbc))
    · rw [Bool.or_eq_true, decide_eq_true_iff, decide_eq_true_iff]
      exact Nat.le_total _ _
  -- the elements of the rank are a part of the sorted ones, and as many
  have hfilter := hsub.filter (rank · = r)
  rw [List.filter_filter] at hfilter
  simp only [Bool.and_self] at hfilter
  exact (hfilter.eq_of_length (hperm.filter _).length_eq.symm).symm

/-- The last of the sorted elements with a property has the highest rank of these, and is the
last one of this rank. -/
theorem getLast?_filter_mergeSort_rank {p : α → Bool} {l : List α} {b : α} :
    ((l.mergeSort fun a b => decide (rank a ≤ rank b)).filter p).getLast? = some b ↔
      (∀ a ∈ l.filter p, rank a ≤ rank b) ∧
        ((l.filter p).filter (rank · = rank b)).getLast? = some b := by
  have hperm := (List.mergeSort_perm l fun a b => decide (rank a ≤ rank b)).filter p
  have hsame : ∀ r, ((l.mergeSort fun a b => decide (rank a ≤ rank b)).filter p).filter
      (rank · = r) = (l.filter p).filter (rank · = r) := by
    intro r
    rw [List.filter_comm, filter_mergeSort_rank, List.filter_comm]
  have hlast : ∀ {c}, ((l.mergeSort fun a b => decide (rank a ≤ rank b)).filter p).getLast?
      = some c → (∀ a ∈ l.filter p, rank a ≤ rank c) ∧
        ((l.filter p).filter (rank · = rank c)).getLast? = some c := by
    intro c hc
    obtain ⟨front, hfront⟩ := List.getLast?_eq_some_iff.mp hc
    have hsorted : ((l.mergeSort fun a b => decide (rank a ≤ rank b)).filter p).Pairwise
        fun a b => rank a ≤ rank b := by
      refine List.Pairwise.filter _ ((List.pairwise_mergeSort ?_ ?_ l).imp fun h =>
        of_decide_eq_true h)
      · exact fun a b c hab hbc =>
          decide_eq_true ((of_decide_eq_true hab).trans (of_decide_eq_true hbc))
      · intro a b
        rw [Bool.or_eq_true, decide_eq_true_iff, decide_eq_true_iff]
        exact Nat.le_total _ _
    rw [hfront] at hsorted
    refine ⟨fun a ha => ?_, ?_⟩
    · have hmem := hperm.mem_iff.mpr ha
      rw [hfront, List.mem_append, List.mem_singleton] at hmem
      rcases hmem with hfirst | rfl
      · exact (List.pairwise_append.mp hsorted).2.2 a hfirst c (List.mem_singleton.mpr rfl)
      · exact le_rfl
    · rw [← hsame, hfront, List.filter_append, List.filter_singleton, decide_eq_true rfl,
        cond_true, List.getLast?_append]
      rfl
  refine ⟨hlast, fun ⟨hmax, hb⟩ => ?_⟩
  have hmem : b ∈ l.filter p := (List.mem_filter.mp (List.mem_of_getLast? hb)).1
  -- the last of the sorted list has the same rank, so it is the same element
  cases hc : ((l.mergeSort fun a b => decide (rank a ≤ rank b)).filter p).getLast? with
  | none =>
    rw [List.getLast?_eq_none_iff] at hc
    rw [← hperm.mem_iff, hc] at hmem
    cases hmem
  | some c =>
    obtain ⟨hmax', hlast'⟩ := hlast hc
    have hrank : rank c = rank b :=
      le_antisymm (hmax c (List.mem_filter.mp (List.mem_of_getLast? hlast')).1) (hmax' b hmem)
    rw [hrank, hb] at hlast'
    exact hlast'.symm

end Rank

theorem insertionSort_congr {α : Type*} {r r' : α → α → Prop} [DecidableRel r] [DecidableRel r']
    {l : List α} (h : ∀ a ∈ l, ∀ b ∈ l, r a b ↔ r' a b) :
    l.insertionSort r = l.insertionSort r' := by
  have hmap := List.map_insertionSort r r' id l h
  rwa [List.map_id, List.map_id] at hmap

/-! ## Sorting by numbers -/

namespace Number

/-- A difference that asks for no exchange: `sort` takes `NaN` for zero. -/
def keepsOrder (x y : Number) : Bool :=
  decide (x.sub y = nan) || (x.sub y).le 0

/-- The order of numbers with `nan` at its end. -/
def rankLe (x y : Number) : Bool :=
  decide (y = nan) || x.le y

theorem rankLe_trans (x y z : Number) (hxy : x.rankLe y = true) (hyz : y.rankLe z = true) :
    x.rankLe z = true := by
  rw [rankLe, Bool.or_eq_true, decide_eq_true_eq] at hxy hyz ⊢
  rcases hyz with hz | hyz
  · exact .inl hz
  · rcases hxy with rfl | hxy
    · cases hyz
    · exact .inr (le_trans hxy hyz)

theorem rankLe_total (x y : Number) : (x.rankLe y || y.rankLe x) = true := by
  rw [Bool.or_eq_true, rankLe, rankLe, Bool.or_eq_true, Bool.or_eq_true, decide_eq_true_eq,
    decide_eq_true_eq]
  by_cases hx : x = nan
  · exact .inr (.inl hx)
  · by_cases hy : y = nan
    · exact .inl (.inl hy)
    · exact (le_total hx hy).imp .inr .inr

theorem keepsOrder_iff {x y : Number} (hx : x ≠ nan) (hy : y ≠ nan) : x.keepsOrder y = x.le y := by
  rw [Bool.eq_iff_iff, keepsOrder, Bool.or_eq_true, decide_eq_true_eq]
  exact sub_le_zero_or_nan hx hy

end Number

section ByNumber

variable {α : Type*} [DecidableEq α] {key : α → Number}

/-- `array.sort((a, b) => key(a) - key(b))`. -/
def sortByNumber (key : α → Number) (l : List α) : List α :=
  l.mergeSort fun a b => (key a).keepsOrder (key b)

omit [DecidableEq α] in
@[simp] theorem mem_sortByNumber {l : List α} {a : α} : a ∈ sortByNumber key l ↔ a ∈ l :=
  List.mem_mergeSort

omit [DecidableEq α] in
theorem perm_sortByNumber (key : α → Number) (l : List α) : (sortByNumber key l).Perm l :=
  List.mergeSort_perm l _

/-- **The last `n` by number.** -/
theorem mem_drop_sortByNumber_iff {l : List α} (hnodup : l.Nodup)
    (hkey : ∀ a ∈ l, key a ≠ .nan) {a : α} (ha : a ∈ l) (n : Nat) :
    a ∈ (sortByNumber key l).drop (l.length - n) ↔
      (sortedAfter (fun b c => (key b).le (key c)) a l).length < n := by
  have hrank : ∀ b ∈ l, ∀ c ∈ l, (key b).rankLe (key c) = (key b).le (key c) := by
    intro b _ c hc
    rw [Number.rankLe, decide_eq_false (hkey c hc), Bool.false_or]
  have hsort : sortByNumber key l = l.mergeSort fun b c => (key b).rankLe (key c) := by
    have hmap := @List.map_mergeSort _ _ (fun b c => (key b).keepsOrder (key c))
      (fun b c => (key b).rankLe (key c)) id l ?_
    · rw [List.map_id, List.map_id] at hmap
      exact hmap
    · intro b hb c hc
      rw [Number.keepsOrder_iff (hkey b hb) (hkey c hc)]
      exact (hrank b hb c hc).symm
  have hafter : sortedAfter (fun b c => (key b).rankLe (key c)) a l
      = sortedAfter (fun b c => (key b).le (key c)) a l := by
    rw [sortedAfter]
    congr 1
    · refine List.filter_congr fun b hb => ?_
      rw [hrank b (List.takeWhile_subset _ hb) a ha]
    · refine List.filter_congr fun b hb => ?_
      exact hrank a ha b (List.dropWhile_suffix _ |>.subset (List.mem_of_mem_tail hb))
  rw [hsort, mem_drop_mergeSort_iff (fun b c d => Number.rankLe_trans (key b) (key c) (key d))
    (fun b c => Number.rankLe_total (key b) (key c)) hnodup ha, hafter]

end ByNumber

end Ecma
