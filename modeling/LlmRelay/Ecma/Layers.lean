import LlmRelay.Ecma.OrderedMap
import Mathlib.Order.Lattice

/-!
# Entries laid over a map

A loop lays entries over a map one after another; each is taken or not, according to what the
map has under its key.

## Main definitions

* `OrderedMap.layer take base entries`: the loop;
* `OrderedMap.filterEntries`: the entries that satisfy a test.

## Main results

* `OrderedMap.get?_layer`: what is found in the end, where the keys laid over are distinct;
* `OrderedMap.mem_layer`: everything found was in the map or among the entries;
* `OrderedMap.exists_get?_layer`: where the higher rank is taken, nothing lower is found.
-/

namespace Ecma.OrderedMap

variable {κ α : Type*} [DecidableEq κ]

/-- `for (const [k, v] of entries) if (take(map[k], v)) map[k] = v`. -/
def layer (take : Option α → α → Bool) (base : OrderedMap κ α) (entries : List (κ × α)) :
    OrderedMap κ α :=
  entries.foldl (fun map (k, v) => if take (map.get? k) v then map.set k v else map) base

variable {take : Option α → α → Bool}

theorem layer_cons (base : OrderedMap κ α) (k : κ) (v : α) (rest : List (κ × α)) :
    layer take base ((k, v) :: rest)
      = layer take (if take (base.get? k) v then base.set k v else base) rest :=
  rfl

theorem get?_take (base : OrderedMap κ α) (k k' : κ) (v : α) :
    (if take (base.get? k) v then base.set k v else base).get? k'
      = if k = k' then (if take (base.get? k') v then some v else base.get? k')
        else base.get? k' := by
  by_cases hk : k = k'
  · subst hk
    rw [if_pos rfl]
    split
    · exact get?_set_self base k v
    · rfl
  · rw [if_neg hk]
    split
    · exact get?_set_of_ne base v hk
    · rfl

variable {base : OrderedMap κ α} {entries : List (κ × α)} {k : κ}

theorem get?_layer_of_not_mem
    (h : k ∉ entries.map Prod.fst) : (layer take base entries).get? k = base.get? k := by
  induction entries generalizing base with
  | nil => rfl
  | cons e rest ih =>
    rw [List.map_cons, List.mem_cons, not_or] at h
    rw [layer_cons, ih h.2, get?_take, if_neg fun he => h.1 he.symm]

/-- What is found in the end. -/
theorem get?_layer (hnodup : (entries.map Prod.fst).Nodup) (k : κ) :
    (layer take base entries).get? k
      = match lookupEntry k entries with
        | some v => if take (base.get? k) v then some v else base.get? k
        | none => base.get? k := by
  induction entries generalizing base with
  | nil => rfl
  | cons e rest ih =>
    rw [List.map_cons, List.nodup_cons] at hnodup
    rw [layer_cons, lookupEntry]
    by_cases hk : e.1 = k
    · subst hk
      rw [if_pos rfl, get?_layer_of_not_mem hnodup.1, get?_take, if_pos rfl]
    · rw [if_neg hk, ih hnodup.2, get?_take, if_neg hk]

theorem get?_layer_empty (htake : ∀ v, take none v = true) (m : OrderedMap κ α) (k : κ) :
    (layer take empty m.entries).get? k = m.get? k := by
  rw [get?_layer m.nodup]
  show _ = lookupEntry k m.entries
  cases lookupEntry k m.entries with
  | none => rfl
  | some v => exact if_pos (htake v)

/-- Everything that is found was in the map or among the entries. -/
theorem mem_layer {v : α} (h : (layer take base entries).get? k = some v) :
    base.get? k = some v ∨ (k, v) ∈ entries := by
  induction entries generalizing base with
  | nil => exact .inl h
  | cons e rest ih =>
    rcases ih h with hbase | hrest
    · rw [get?_take] at hbase
      split at hbase
      · rename_i hk
        subst hk
        split at hbase
        · cases hbase
          exact .inr List.mem_cons_self
        · exact .inl hbase
      · exact .inl hbase
    · exact .inr (List.mem_cons_of_mem _ hrest)

section Ranked

variable {ρ : Type*} [LinearOrder ρ] {rank : α → ρ} (hnone : ∀ v, take none v = true)
  (hsome : ∀ u v, take (some u) v = decide (rank u < rank v))

include hnone hsome

theorem exists_get?_take {k k' : κ} {u v : α} (h : base.get? k' = some u ∨ (k = k' ∧ u = v)) :
    ∃ v', (if take (base.get? k) v then base.set k v else base).get? k' = some v' ∧
      rank u ≤ rank v' := by
  rw [get?_take]
  by_cases hk : k = k'
  · rw [if_pos hk]
    cases hbase : base.get? k' with
    | none =>
      rw [hbase] at h
      rcases h with h | ⟨-, rfl⟩
      · cases h
      · exact ⟨u, if_pos (hnone u), le_rfl⟩
    | some w =>
      rw [hbase] at h
      rw [hsome]
      by_cases hlt : rank w < rank v
      · refine ⟨v, if_pos (decide_eq_true hlt), ?_⟩
        rcases h with h | ⟨-, rfl⟩
        · cases h
          exact le_of_lt hlt
        · exact le_rfl
      · refine ⟨w, if_neg (by simpa using hlt), ?_⟩
        rcases h with h | ⟨-, rfl⟩
        · cases h
          exact le_rfl
        · exact not_lt.mp hlt
  · rw [if_neg hk]
    rcases h with h | ⟨heq, -⟩
    · exact ⟨u, h, le_rfl⟩
    · exact absurd heq hk

/-- What is found ranks no lower than what was there, and than every entry under its key. -/
theorem exists_get?_layer {v : α} (h : base.get? k = some v ∨ (k, v) ∈ entries) :
    ∃ v', (layer take base entries).get? k = some v' ∧ rank v ≤ rank v' := by
  induction entries generalizing base v with
  | nil =>
    rcases h with h | h
    · exact ⟨v, h, le_rfl⟩
    · cases h
  | cons e rest ih =>
    obtain ⟨key, entry⟩ := e
    have hround (h : base.get? k = some v ∨ (key = k ∧ v = entry)) :
        ∃ v', (layer take (if take (base.get? key) entry then base.set key entry else base)
          rest).get? k = some v' ∧ rank v ≤ rank v' := by
      obtain ⟨u, hu, hle⟩ := exists_get?_take hnone hsome h
      obtain ⟨v', hv', hle'⟩ := ih (.inl hu)
      exact ⟨v', hv', le_trans hle hle'⟩
    rcases h with h | h
    · exact hround (.inl h)
    · rcases List.mem_cons.mp h with heq | h
      · obtain ⟨rfl, rfl⟩ := Prod.mk.inj heq
        exact hround (.inr ⟨rfl, rfl⟩)
      · exact ih (.inr h)

end Ranked

omit [DecidableEq κ] in
/-- The entries that satisfy a test. -/
def filterEntries (p : κ → α → Bool) (m : OrderedMap κ α) : OrderedMap κ α where
  entries := m.entries.filter fun e => p e.1 e.2
  nodup := m.nodup.sublist (List.filter_sublist.map _)

theorem get?_filterEntries_eq_some {p : κ → α → Bool} {m : OrderedMap κ α} {v : α} :
    (m.filterEntries p).get? k = some v ↔ m.get? k = some v ∧ p k v = true := by
  rw [← mem_entries_iff, ← mem_entries_iff]
  exact List.mem_filter

theorem filterEntries_eq_self {p : κ → α → Bool} {m : OrderedMap κ α}
    (h : ∀ k v, m.get? k = some v → p k v = true) : m.filterEntries p = m :=
  OrderedMap.ext (List.filter_eq_self.mpr fun e he => h e.1 e.2 ((mem_entries_iff m).mp he))

end Ecma.OrderedMap
