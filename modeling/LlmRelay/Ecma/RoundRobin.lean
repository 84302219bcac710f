import LlmRelay.Ecma.OrderedMap
import Mathlib.Algebra.GroupWithZero.Nat
import Mathlib.Data.List.Pairwise
import Mathlib.Data.List.Perm.Basic
import Mathlib.Tactic.Common

/-!
# Taking turns

A list is queued by key, and the queues are emptied round by round: each gives its first
element in every round. What stands where in the result is told from the list alone, by the
turn that an element has within its key and by the place where its key opens.

## Main definitions

* `queuesOf`: the queue of every key;
* `firstBy`: a list without what repeats a key;
* `drain`: emptying queues round by round;
* `interleaveBy`: both;
* `Sooner`: which of two elements comes first.

## Main results

* `interleaveBy_perm`: nothing is lost or added;
* `pairwise_interleaveBy`: the result is in the order of `Sooner`;
* `filter_interleaveBy`: the elements of one key keep their order;
* `pair_sublist_iff`: which of two elements comes first in a list that is ordered.
-/

namespace Ecma

/-! ## Order within a list -/

section PairOrder

variable {α : Type*} {r : α → α → Prop}

/-- In a list that is ordered, the order tells which of two elements comes first. -/
theorem pair_sublist_iff {l : List α} (hr : l.Pairwise r)
    (hasymm : ∀ {a b}, r a b → ¬r b a) {a b : α} (ha : a ∈ l) (hb : b ∈ l) :
    [a, b].Sublist l ↔ r a b := by
  constructor
  · intro hsub
    exact List.pairwise_iff_forall_sublist.mp hr hsub
  · intro hab
    have hne : a ≠ b := by
      rintro rfl
      exact hasymm hab hab
    obtain ⟨before, after, rfl⟩ := List.append_of_mem ha
    rcases List.mem_append.mp hb with hbefore | hafter
    · -- then the list has them the other way round
      have hba := (List.pairwise_append.mp hr).2.2 b hbefore a List.mem_cons_self
      exact absurd hba (hasymm hab)
    · have hlast : b ∈ after := (List.mem_cons.mp hafter).resolve_left (Ne.symm hne)
      apply List.Sublist.trans _ (List.sublist_append_right before (a :: after))
      exact (List.singleton_sublist.mpr hlast).cons_cons a

theorem eq_of_perm_of_pairwise {l l' : List α} (hperm : l.Perm l')
    (hl : l.Pairwise r) (hl' : l'.Pairwise r) (hasymm : ∀ {a b}, r a b → ¬r b a) : l = l' := by
  apply hperm.eq_of_pairwise _ hl hl'
  intro a b _ _ hab hba
  exact absurd hba (hasymm hab)

end PairOrder

/-! ## The first of every key -/

section FirstBy

variable {α κ : Type*} [DecidableEq κ] (key : α → κ)

/-- The list without what repeats a key. -/
def firstBy : List α → List α
  | [] => []
  | a :: l => a :: (firstBy l).filter fun e => decide (key e ≠ key a)

theorem firstBy_sublist (l : List α) : (firstBy key l).Sublist l := by
  induction l with
  | nil => exact .slnil
  | cons a l ih => exact (List.filter_sublist.trans ih).cons_cons a

theorem pairwise_firstBy (l : List α) : (firstBy key l).Pairwise fun a b => key a ≠ key b := by
  induction l with
  | nil => exact .nil
  | cons a l ih =>
    apply List.pairwise_cons.mpr
    refine ⟨?_, ih.filter _⟩
    intro b hb
    exact Ne.symm (of_decide_eq_true (List.mem_filter.mp hb).2)

theorem exists_mem_firstBy {l : List α} {a : α} (ha : a ∈ l) :
    ∃ b ∈ firstBy key l, key b = key a := by
  induction l with
  | nil => cases ha
  | cons c l ih =>
    by_cases hc : key a = key c
    · exact ⟨c, List.mem_cons_self, hc.symm⟩
    · have hl : a ∈ l := (List.mem_cons.mp ha).resolve_left fun heq => hc (heq ▸ rfl)
      obtain ⟨b, hb, hkey⟩ := ih hl
      refine ⟨b, List.mem_cons_of_mem c (List.mem_filter.mpr ⟨hb, ?_⟩), hkey⟩
      rw [hkey]
      exact decide_eq_true hc

theorem firstBy_filter {p : α → Bool} {l : List α}
    (hp : ∀ a ∈ l, ∀ b ∈ l, key a = key b → p a = p b) :
    firstBy key (l.filter p) = (firstBy key l).filter p := by
  induction l with
  | nil => rfl
  | cons a l ih =>
    have ih := ih fun x hx y hy => hp x (List.mem_cons_of_mem a hx) y (List.mem_cons_of_mem a hy)
    cases hpa : p a with
    | true =>
      rw [List.filter_cons_of_pos hpa, firstBy, firstBy, List.filter_cons_of_pos hpa, ih,
        List.filter_filter, List.filter_filter]
      simp only [Bool.and_comm]
    | false =>
      have hpa' : ¬p a = true := by simp [hpa]
      rw [List.filter_cons_of_neg hpa', firstBy, List.filter_cons_of_neg hpa', ih,
        List.filter_filter]
      apply List.filter_congr
      intro b hb
      -- what repeats the key of `a` fails the test with it
      have hbl := (firstBy_sublist key l).subset hb
      by_cases hkey : key b = key a
      · rw [hp b (List.mem_cons_of_mem a hbl) a List.mem_cons_self hkey, hpa]
        rfl
      · simp [hkey]

end FirstBy

/-! ## Emptying queues -/

section Drain

variable {α : Type*}

/-- The first elements of the queues that are not empty. -/
def heads (queues : List (List α)) : List α :=
  queues.filterMap List.head?

/-- The queues once each has given its first element. -/
def tails (queues : List (List α)) : List (List α) :=
  queues.map List.tail

theorem length_heads_add (queues : List (List α)) :
    (heads queues).length + ((tails queues).map List.length).sum
      = (queues.map List.length).sum := by
  induction queues with
  | nil => rfl
  | cons queue rest ih =>
    unfold heads tails at ih ⊢
    cases queue with
    | nil =>
      rw [List.filterMap_cons_none List.head?_nil]
      simpa using ih
    | cons a queue =>
      simp only [List.filterMap_cons, List.head?_cons, List.length_cons, List.map_cons,
        List.tail_cons, List.sum_cons]
      omega

/-- Round by round, each queue that is not empty gives its first element. -/
def drain (queues : List (List α)) : List α :=
  if heads queues = [] then [] else heads queues ++ drain (tails queues)
termination_by (queues.map List.length).sum
decreasing_by
  rename_i h
  have hpos := List.length_pos_iff.mpr h
  have hsum := length_heads_add queues
  omega

theorem heads_append_tails_perm (queues : List (List α)) :
    (heads queues ++ (tails queues).flatten).Perm queues.flatten := by
  induction queues with
  | nil => exact .nil
  | cons queue rest ih =>
    unfold heads tails at ih ⊢
    cases queue with
    | nil =>
      rw [List.filterMap_cons_none List.head?_nil]
      simpa using ih
    | cons a queue =>
      apply List.Perm.cons a
      -- the rest of the first queue moves past the other first elements
      calc rest.filterMap List.head? ++ (queue ++ (rest.map List.tail).flatten)
          |>.Perm (queue ++ (rest.filterMap List.head? ++ (rest.map List.tail).flatten)) := by
            rw [← List.append_assoc, ← List.append_assoc]
            exact List.perm_append_comm.append_right _
        _ |>.Perm (queue ++ rest.flatten) := ih.append_left queue

/-- **Nothing is lost or added** by emptying the queues. -/
theorem drain_perm (queues : List (List α)) : (drain queues).Perm queues.flatten := by
  induction queues using drain.induct with
  | case1 queues h =>
    have hnil : (tails queues).flatten = [] := by
      apply List.flatten_eq_nil_iff.mpr
      intro tail htail
      obtain ⟨queue, hqueue, rfl⟩ := List.mem_map.mp htail
      rw [List.head?_eq_none_iff.mp (List.filterMap_eq_nil_iff.mp h queue hqueue)]
      rfl
    have hperm := heads_append_tails_perm queues
    rw [h, hnil] at hperm
    rw [drain, if_pos h]
    exact hperm
  | case2 queues h ih =>
    rw [drain, if_neg h]
    exact (ih.append_left _).trans (heads_append_tails_perm queues)

/-- What a queue gives in a round, if it is long enough. -/
def given (queues : List (List α)) (round queue : Nat) : Option α :=
  queues[queue]?.bind (·[round]?)

theorem given_tails (queues : List (List α)) (round queue : Nat) :
    given (tails queues) round queue = given queues (round + 1) queue := by
  unfold given tails
  rw [List.getElem?_map]
  cases queues[queue]? with
  | none => rfl
  | some q => simp

theorem exists_given_of_mem_flatten {queues : List (List α)} {a : α} (h : a ∈ queues.flatten) :
    ∃ round queue, given queues round queue = some a := by
  obtain ⟨q, hq, ha⟩ := List.mem_flatten.mp h
  obtain ⟨queue, hqueue⟩ := List.getElem?_of_mem hq
  obtain ⟨round, hround⟩ := List.getElem?_of_mem ha
  exact ⟨round, queue, by rw [given, hqueue, Option.bind_some, hround]⟩

/-- **The order of the result**: by round, and within a round by queue. -/
theorem pairwise_drain {r : α → α → Prop} {queues : List (List α)}
    (h : ∀ {i j c d a b}, given queues i c = some a → given queues j d = some b →
      i < j ∨ i = j ∧ c < d → r a b) : (drain queues).Pairwise r := by
  induction queues using drain.induct with
  | case1 queues hnil =>
    rw [drain, if_pos hnil]
    exact .nil
  | case2 queues hne ih =>
    rw [drain, if_neg hne]
    apply List.pairwise_append.mpr
    refine ⟨?_, ?_, ?_⟩
    · -- one round
      apply List.pairwise_filterMap.mpr
      apply List.pairwise_iff_getElem.mpr
      intro c d hc hd hcd a ha b hb
      have hfirst : given queues 0 c = some a := by
        rw [given, List.getElem?_eq_getElem hc, Option.bind_some, ← List.head?_eq_getElem?, ha]
      have hsecond : given queues 0 d = some b := by
        rw [given, List.getElem?_eq_getElem hd, Option.bind_some, ← List.head?_eq_getElem?, hb]
      exact h hfirst hsecond (.inr ⟨rfl, hcd⟩)
    · apply ih
      intro i j c d a b ha hb hlt
      rw [given_tails] at ha hb
      apply h ha hb
      omega
    · -- the first round precedes the others
      intro a ha b hb
      obtain ⟨q, hq, hhead⟩ := List.mem_filterMap.mp ha
      obtain ⟨c, hc⟩ := List.getElem?_of_mem hq
      have hfirst : given queues 0 c = some a := by
        rw [given, hc, Option.bind_some, ← List.head?_eq_getElem?, hhead]
      obtain ⟨j, d, hlater⟩ := exists_given_of_mem_flatten ((drain_perm _).mem_iff.mp hb)
      rw [given_tails] at hlater
      exact h hfirst hlater (.inl (Nat.succ_pos j))

end Drain

/-! ## Queues by key -/

section Interleave

variable {α κ : Type*} [DecidableEq κ] (key : α → κ)

/-- Every element is queued behind those of its key. -/
def queuesOf (entries : List α) : OrderedMap κ (List α) :=
  entries.foldl (fun queues entry =>
    queues.set (key entry) ((queues.get? (key entry)).getD [] ++ [entry])) .empty

/-- The elements of a list, the keys taking turns. -/
def interleaveBy (entries : List α) : List α :=
  drain (queuesOf key entries).values

variable (entries : List α)

theorem queuesOf_concat (entry : α) :
    queuesOf key (entries ++ [entry])
      = (queuesOf key entries).set (key entry)
          (((queuesOf key entries).get? (key entry)).getD [] ++ [entry]) := by
  rw [queuesOf, List.foldl_append]
  rfl

theorem get?_queuesOf (k : κ) :
    (queuesOf key entries).get? k
      = if k ∈ entries.map key then some (entries.filter fun e => decide (key e = k))
        else none := by
  induction entries using List.reverseRecOn with
  | nil => rfl
  | append_singleton entries entry ih =>
    rw [queuesOf_concat, OrderedMap.get?_set]
    by_cases hk : key entry = k
    · subst hk
      have hlast : key entry ∈ (entries ++ [entry]).map key :=
        List.mem_map_of_mem (by simp)
      rw [if_pos rfl, ih, List.filter_append]
      split
      · simp
      · rename_i hnew
        -- the entry opens its key
        have hnone : (entries.filter fun e => decide (key e = key entry)) = [] := by
          rw [List.filter_eq_nil_iff]
          intro e he heq
          exact hnew (List.mem_map.mpr ⟨e, he, of_decide_eq_true heq⟩)
        rw [hnone]
        simp
    · rw [ih]
      simp [hk, Ne.symm hk]

theorem pairwise_keys_queuesOf :
    (queuesOf key entries).keys.Pairwise fun k k' =>
      (entries.map key).idxOf k < (entries.map key).idxOf k' := by
  have hmem : ∀ (es : List α) {k}, k ∈ (queuesOf key es).keys → k ∈ es.map key := by
    intro es k hk
    rw [OrderedMap.mem_keys_iff, get?_queuesOf] at hk
    by_contra hnot
    rw [if_neg hnot] at hk
    cases hk
  induction entries using List.reverseRecOn with
  | nil => exact .nil
  | append_singleton entries entry ih =>
    -- a key that is there keeps its place
    have hkept : (queuesOf key entries).keys.Pairwise fun k k' =>
        ((entries ++ [entry]).map key).idxOf k < ((entries ++ [entry]).map key).idxOf k' := by
      apply ih.imp_of_mem
      intro k k' hk hk' hlt
      rw [List.map_append, List.idxOf_append_of_mem (hmem entries hk),
        List.idxOf_append_of_mem (hmem entries hk')]
      exact hlt
    rw [queuesOf_concat, OrderedMap.keys_set]
    split
    · exact hkept
    · rename_i hnew
      apply List.pairwise_append.mpr
      refine ⟨hkept, List.pairwise_singleton _ _, ?_⟩
      intro k hk k' hk'
      rw [List.mem_singleton] at hk'
      subst hk'
      have hout : key entry ∉ entries.map key := by
        intro hin
        apply hnew
        rw [OrderedMap.mem_keys_iff, get?_queuesOf, if_pos hin]
        rfl
      rw [List.map_append, List.idxOf_append_of_mem (hmem entries hk),
        List.idxOf_append_of_notMem hout]
      have hlt := List.idxOf_lt_length_of_mem (hmem entries hk)
      omega

variable {entries : List α}

theorem mem_interleaveBy {a : α} : a ∈ interleaveBy key entries ↔ a ∈ entries := by
  rw [interleaveBy, (drain_perm _).mem_iff, List.mem_flatten]
  constructor
  · rintro ⟨q, hq, ha⟩
    obtain ⟨⟨k, q'⟩, hentry, rfl⟩ := List.mem_map.mp hq
    have hget := (OrderedMap.mem_entries_iff _).mp hentry
    rw [get?_queuesOf] at hget
    split at hget
    · cases hget
      exact List.mem_of_mem_filter ha
    · cases hget
  · intro ha
    refine ⟨entries.filter fun e => decide (key e = key a), ?_, ?_⟩
    · apply OrderedMap.mem_values_of_get? (k := key a)
      rw [get?_queuesOf, if_pos (List.mem_map_of_mem ha)]
    · exact List.mem_filter.mpr ⟨ha, decide_eq_true rfl⟩

/-! ## Who comes first -/

variable [DecidableEq α]

/-- How many elements of its key stand before an element. -/
def turn (entries : List α) (a : α) : Nat :=
  (entries.filter fun e => decide (key e = key a)).idxOf a

/-- Where the key of an element opens. -/
def opening (entries : List α) (a : α) : Nat :=
  (entries.map key).idxOf (key a)

/-- An earlier turn comes first, and within one turn the key that opens first. -/
def Sooner (entries : List α) (a b : α) : Prop :=
  turn key entries a < turn key entries b
    ∨ turn key entries a = turn key entries b ∧ opening key entries a < opening key entries b

instance (entries : List α) (a b : α) : Decidable (Sooner key entries a b) :=
  inferInstanceAs (Decidable (_ ∨ _))

theorem Sooner.asymm {a b : α} (h : Sooner key entries a b) : ¬Sooner key entries b a := by
  unfold Sooner at h ⊢
  omega

variable (hnodup : entries.Nodup)

include hnodup

theorem given_queuesOf {round queue : Nat} {a : α}
    (h : given (queuesOf key entries).values round queue = some a) :
    turn key entries a = round
      ∧ (queuesOf key entries).keys[queue]? = some (key a) := by
  obtain ⟨q, hq, ha⟩ := Option.bind_eq_some_iff.mp h
  unfold OrderedMap.values at hq
  rw [List.getElem?_map, Option.map_eq_some_iff] at hq
  obtain ⟨⟨k, q'⟩, hentry, rfl⟩ := hq
  have hget := (OrderedMap.mem_entries_iff _).mp (List.mem_of_getElem? hentry)
  rw [get?_queuesOf] at hget
  split at hget
  · cases hget
    obtain ⟨hlt, ha⟩ := List.getElem?_eq_some_iff.mp ha
    have hka : key a = k := by
      have hin := List.mem_filter.mp (ha ▸ List.getElem_mem hlt)
      exact of_decide_eq_true hin.2
    subst hka
    refine ⟨?_, ?_⟩
    · have hidx := (hnodup.filter fun e => decide (key e = key a)).idxOf_getElem round hlt
      rw [ha] at hidx
      exact hidx
    · unfold OrderedMap.keys
      rw [List.getElem?_map, hentry]
      rfl
  · cases hget

/-- **The result is in the order of the turns.** -/
theorem pairwise_interleaveBy : (interleaveBy key entries).Pairwise (Sooner key entries) := by
  apply pairwise_drain
  intro i j c d a b ha hb hlt
  obtain ⟨hturn, hkey⟩ := given_queuesOf key hnodup ha
  obtain ⟨hturn', hkey'⟩ := given_queuesOf key hnodup hb
  rw [Sooner, hturn, hturn']
  refine hlt.imp id ?_
  rintro ⟨hij, hcd⟩
  refine ⟨hij, ?_⟩
  obtain ⟨hc, hkey⟩ := List.getElem?_eq_some_iff.mp hkey
  obtain ⟨hd, hkey'⟩ := List.getElem?_eq_some_iff.mp hkey'
  have hopen := List.pairwise_iff_getElem.mp (pairwise_keys_queuesOf key entries) c d hc hd hcd
  rw [hkey, hkey'] at hopen
  exact hopen

/-- **Nothing is lost or added.** -/
theorem interleaveBy_perm : (interleaveBy key entries).Perm entries := by
  have hresult : (interleaveBy key entries).Nodup := by
    apply (pairwise_interleaveBy key hnodup).imp
    rintro a b hab rfl
    exact hab.asymm key hab
  exact (List.perm_ext_iff_of_nodup hresult hnodup).mpr fun a => mem_interleaveBy key

theorem pairwise_filter_key (k : κ) :
    (entries.filter fun e => decide (key e = k)).Pairwise (Sooner key entries) := by
  apply List.pairwise_iff_getElem.mpr
  intro i j hi hj hij
  have hturn : ∀ (n : Nat) (hn : n < (entries.filter fun e => decide (key e = k)).length),
      turn key entries (entries.filter fun e => decide (key e = k))[n] = n := by
    intro n hn
    have hkey := of_decide_eq_true (List.mem_filter.mp (List.getElem_mem hn)).2
    rw [turn, hkey]
    exact (hnodup.filter _).idxOf_getElem n hn
  apply Or.inl
  rw [hturn i hi, hturn j hj]
  exact hij

/-- **The elements of one key keep their order.** -/
theorem filter_interleaveBy (k : κ) :
    (interleaveBy key entries).filter (fun e => decide (key e = k))
      = entries.filter fun e => decide (key e = k) := by
  apply eq_of_perm_of_pairwise ((interleaveBy_perm key hnodup).filter _)
    ((pairwise_interleaveBy key hnodup).filter _) (pairwise_filter_key key hnodup k)
  intro a b hab
  exact hab.asymm key

end Interleave

end Ecma
