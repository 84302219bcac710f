import Mathlib.Data.List.Induction
import Mathlib.Data.List.Nodup

/-!
# Insertion-ordered maps

The `Map` of ECMAScript: at most one entry for a key, entries enumerated in the
order in which their keys were first inserted, and an overwrite keeps the
entry's place.

## Main definitions

* `OrderedMap κ α`: an association list with distinct keys;
* `OrderedMap.get?`, `OrderedMap.set`, `OrderedMap.delete`: the operations.

## Main results

* `OrderedMap.get?_set`, `OrderedMap.get?_delete`: what a lookup finds after an
  update;
* `OrderedMap.mem_entries_iff`: an entry is listed exactly when it is found.
-/

namespace Ecma

section Entries

variable {κ α : Type*} [DecidableEq κ] {l : List (κ × α)} {k : κ} {v : α}

/-- The value stored under `k` in an association list. -/
def lookupEntry (k : κ) : List (κ × α) → Option α
  | [] => none
  | (k', v) :: rest => if k' = k then some v else lookupEntry k rest

/-- Overwrites the entry of `k` in its place, or appends one. -/
def setEntry (k : κ) (v : α) : List (κ × α) → List (κ × α)
  | [] => [(k, v)]
  | (k', v') :: rest => if k' = k then (k, v) :: rest else (k', v') :: setEntry k v rest

theorem lookupEntry_setEntry (k k' : κ) (v : α) (l : List (κ × α)) :
    lookupEntry k' (setEntry k v l) = if k = k' then some v else lookupEntry k' l := by
  induction l with
  | nil => simp [setEntry, lookupEntry]
  | cons e rest ih =>
    by_cases he : e.1 = k
    · by_cases hk : k = k' <;> simp [setEntry, lookupEntry, he, hk]
    · by_cases hk : e.1 = k'
      · subst hk
        simp [setEntry, lookupEntry, he, Ne.symm he]
      · simp [setEntry, lookupEntry, he, hk, ih]

theorem setEntry_setEntry (k : κ) (v v' : α) (l : List (κ × α)) :
    setEntry k v' (setEntry k v l) = setEntry k v' l := by
  induction l with
  | nil => simp [setEntry]
  | cons e rest ih =>
    by_cases he : e.1 = k
    · simp [setEntry, he]
    · simp [setEntry, he, ih]

theorem mem_keys_setEntry {k k' : κ} :
    k' ∈ (setEntry k v l).map Prod.fst ↔ k' = k ∨ k' ∈ l.map Prod.fst := by
  induction l with
  | nil => simp [setEntry]
  | cons e rest ih =>
    by_cases he : e.1 = k
    · simp [setEntry, he]
    · simp only [setEntry, he, if_false, List.map_cons, List.mem_cons]
      tauto

theorem nodup_setEntry (k : κ) (v : α) (h : (l.map Prod.fst).Nodup) :
    ((setEntry k v l).map Prod.fst).Nodup := by
  induction l with
  | nil => simp [setEntry]
  | cons e rest ih =>
    simp only [List.map_cons, List.nodup_cons] at h
    by_cases he : e.1 = k
    · simp only [setEntry, he, if_true, List.map_cons, List.nodup_cons]
      exact ⟨he ▸ h.1, h.2⟩
    · simp only [setEntry, he, if_false, List.map_cons, List.nodup_cons]
      refine ⟨fun hmem => ?_, ih h.2⟩
      rcases mem_keys_setEntry.mp hmem with heq | hrest
      · exact he heq
      · exact h.1 hrest

theorem setEntry_of_lookupEntry (h : lookupEntry k l = some v) : setEntry k v l = l := by
  induction l with
  | nil => cases h
  | cons e rest ih =>
    by_cases he : e.1 = k
    · subst he
      simp only [lookupEntry, if_true, Option.some.injEq] at h
      simp [setEntry, ← h]
    · simp only [lookupEntry, he] at h
      simp [setEntry, he, ih h]

theorem lookupEntry_eq_none_iff : lookupEntry k l = none ↔ k ∉ l.map Prod.fst := by
  induction l with
  | nil => simp [lookupEntry]
  | cons e rest ih =>
    by_cases he : e.1 = k
    · simp [lookupEntry, he]
    · have hne : ¬k = e.1 := fun h => he h.symm
      simp only [lookupEntry, he, if_false, ih, List.map_cons, List.mem_cons, hne, false_or]

theorem mem_of_lookupEntry (h : lookupEntry k l = some v) : (k, v) ∈ l := by
  induction l with
  | nil => cases h
  | cons e rest ih =>
    rw [lookupEntry] at h
    split at h
    · rename_i he
      rw [← he, ← Option.some.inj h]
      exact List.mem_cons_self
    · exact List.mem_cons_of_mem e (ih h)

theorem lookupEntry_eq_some_iff
    (h : (l.map Prod.fst).Nodup) : lookupEntry k l = some v ↔ (k, v) ∈ l := by
  induction l with
  | nil => simp [lookupEntry]
  | cons e rest ih =>
    simp only [List.map_cons, List.nodup_cons] at h
    by_cases he : e.1 = k
    · subst he
      have hnot : ∀ b, (e.1, b) ∉ rest := fun b hb => h.1 (List.mem_map.mpr ⟨_, hb, rfl⟩)
      simp [lookupEntry, hnot, Prod.ext_iff, eq_comm]
    · have hne : (k, v) ≠ e := fun heq => he (by rw [← heq])
      simp only [lookupEntry, he, if_false, ih h.2, List.mem_cons, hne, false_or]

theorem countP_setEntry_of_some (p : α → Bool) (v' : α) (h : lookupEntry k l = some v) :
    ((setEntry k v' l).map Prod.snd).countP p + (if p v then 1 else 0)
      = (l.map Prod.snd).countP p + (if p v' then 1 else 0) := by
  induction l with
  | nil => cases h
  | cons e rest ih =>
    by_cases he : e.1 = k
    · simp only [lookupEntry, he, if_true, Option.some.injEq] at h
      simp only [setEntry, he, if_true, List.map_cons, List.countP_cons, h]
      omega
    · simp only [lookupEntry, he] at h
      simp only [setEntry, he, if_false, List.map_cons, List.countP_cons]
      have hrest := ih h
      omega

theorem countP_setEntry_of_none (p : α → Bool) (v' : α) (h : lookupEntry k l = none) :
    ((setEntry k v' l).map Prod.snd).countP p
      = (l.map Prod.snd).countP p + (if p v' then 1 else 0) := by
  induction l with
  | nil => simp [setEntry]
  | cons e rest ih =>
    by_cases he : e.1 = k
    · simp [lookupEntry, he] at h
    · simp only [lookupEntry, he] at h
      simp only [setEntry, he, if_false, List.map_cons, List.countP_cons]
      have hrest := ih h
      omega

theorem setEntry_of_none (v : α) (h : lookupEntry k l = none) : setEntry k v l = l ++ [(k, v)] := by
  induction l with
  | nil => rfl
  | cons e rest ih =>
    by_cases he : e.1 = k
    · simp [lookupEntry, he] at h
    · simp only [lookupEntry, he] at h
      simp [setEntry, he, ih h]

theorem map_snd_setEntry {β : Type*} (f : α → β) {v v' : α}
    (h : lookupEntry k l = some v) (hf : f v' = f v) :
    ((setEntry k v' l).map Prod.snd).map f = (l.map Prod.snd).map f := by
  induction l with
  | nil => cases h
  | cons e rest ih =>
    by_cases he : e.1 = k
    · simp only [lookupEntry, he, if_true, Option.some.injEq] at h
      simp [setEntry, he, hf, h]
    · simp only [lookupEntry, he] at h
      simp only [setEntry, he, if_false, List.map_cons, ih h]

theorem map_snd_perm_filter_ne (hnodup : (l.map Prod.fst).Nodup) (h : lookupEntry k l = some v) :
    (l.map Prod.snd).Perm (v :: (l.filter fun e => e.1 ≠ k).map Prod.snd) := by
  induction l with
  | nil => cases h
  | cons e rest ih =>
    simp only [List.map_cons, List.nodup_cons] at hnodup
    by_cases he : e.1 = k
    · subst he
      simp only [lookupEntry, if_true, Option.some.injEq] at h
      have hrest : rest.filter (fun e' => e'.1 ≠ e.1) = rest := by
        rw [List.filter_eq_self]
        intro e' he'
        simpa using fun heq : e'.1 = e.1 => hnodup.1 (heq ▸ List.mem_map_of_mem he')
      rw [List.filter_cons_of_neg (by simp), hrest, List.map_cons, h]
    · simp only [lookupEntry, he] at h
      rw [List.filter_cons_of_pos (by simpa using he)]
      exact ((ih hnodup.2 h).cons e.2).trans (List.Perm.swap _ _ _)

theorem lookupEntry_append (k : κ) (l l' : List (κ × α)) :
    lookupEntry k (l ++ l') = (lookupEntry k l).or (lookupEntry k l') := by
  induction l with
  | nil => rfl
  | cons e rest ih =>
    rw [List.cons_append, lookupEntry, lookupEntry]
    split
    · rfl
    · exact ih

theorem lookupEntry_filter_ne (k k' : κ) (l : List (κ × α)) :
    lookupEntry k' (l.filter fun e => e.1 ≠ k) = if k = k' then none else lookupEntry k' l := by
  induction l with
  | nil => simp [lookupEntry]
  | cons e rest ih =>
    by_cases he : e.1 = k
    · rw [List.filter_cons_of_neg (by simpa using he), ih]
      by_cases hk : k = k'
      · simp [hk]
      · have hne : ¬e.1 = k' := fun h => hk (he.symm.trans h)
        simp [lookupEntry, hne]
    · rw [List.filter_cons_of_pos (by simpa using he)]
      by_cases hk : e.1 = k'
      · have hne : ¬k = k' := fun h => he (hk.trans h.symm)
        simp [lookupEntry, hk, hne]
      · simp only [lookupEntry, hk, if_false, ih]

/-- Where the entry of `k` stands. -/
def entryPosition (k : κ) (l : List (κ × α)) : Nat :=
  l.findIdx fun e => decide (e.1 = k)

theorem entryPosition_cons (k : κ) (e : κ × α) (l : List (κ × α)) :
    entryPosition k (e :: l) = if e.1 = k then 0 else entryPosition k l + 1 := by
  rw [entryPosition, List.findIdx_cons]
  by_cases h : e.1 = k <;> simp [entryPosition]

theorem find?_filterMap_of_two {β : Type*} {read : κ × α → Option β} {wanted : β → Bool}
    {a b : κ} {v w : α} {x y : β} (hab : a ≠ b)
    (honly : ∀ e z, read e = some z → wanted z = true → e.1 = a ∨ e.1 = b)
    (hv : lookupEntry a l = some v) (hx : read (a, v) = some x) (hwx : wanted x = true)
    (hw : lookupEntry b l = some w) (hy : read (b, w) = some y) (hwy : wanted y = true) :
    (l.filterMap read).find? wanted
      = some (if entryPosition a l < entryPosition b l then x else y) := by
  induction l with
  | nil => cases hv
  | cons e rest ih =>
    obtain ⟨k, u⟩ := e
    rw [entryPosition_cons, entryPosition_cons]
    by_cases hka : k = a
    · subst hka
      rw [lookupEntry, if_pos rfl] at hv
      cases hv
      rw [List.filterMap_cons_some hx, List.find?_cons_of_pos hwx, if_pos rfl, if_neg hab,
        if_pos (Nat.succ_pos _)]
    · by_cases hkb : k = b
      · subst hkb
        rw [lookupEntry, if_pos rfl] at hw
        cases hw
        rw [List.filterMap_cons_some hy, List.find?_cons_of_pos hwy, if_pos rfl,
          if_neg (Nat.not_lt_zero _)]
      · rw [lookupEntry, if_neg hka] at hv
        rw [lookupEntry, if_neg hkb] at hw
        rw [if_neg hka, if_neg hkb]
        simp only [Nat.add_lt_add_iff_right]
        rw [← ih hv hw]
        cases hread : read (k, u) with
        | none => rw [List.filterMap_cons_none hread]
        | some z =>
          rw [List.filterMap_cons_some hread, List.find?_cons_of_neg]
          intro hz
          rcases honly (k, u) z hread hz with h | h
          · exact hka h
          · exact hkb h

end Entries

/-- A map whose keys are distinct and listed in insertion order. -/
@[ext] structure OrderedMap (κ α : Type*) where
  entries : List (κ × α)
  nodup : (entries.map Prod.fst).Nodup

namespace OrderedMap

variable {κ α : Type*} [DecidableEq κ] {m : OrderedMap κ α} {k : κ} {v : α}

instance [DecidableEq α] : DecidableEq (OrderedMap κ α) := fun a b =>
  decidable_of_iff (a.entries = b.entries) OrderedMap.ext_iff.symm

/-- `new Map()`. -/
def empty : OrderedMap κ α := ⟨[], List.nodup_nil⟩

instance : Inhabited (OrderedMap κ α) := ⟨empty⟩

/-- `map.get(k)`; `none` is `undefined`. -/
def get? (m : OrderedMap κ α) (k : κ) : Option α :=
  lookupEntry k m.entries

/-- `map.has(k)`. -/
def has (m : OrderedMap κ α) (k : κ) : Bool :=
  (m.get? k).isSome

/-- `map.set(k, v)`. -/
def set (m : OrderedMap κ α) (k : κ) (v : α) : OrderedMap κ α :=
  ⟨setEntry k v m.entries, nodup_setEntry k v m.nodup⟩

/-- `map.delete(k)`. -/
def delete (m : OrderedMap κ α) (k : κ) : OrderedMap κ α :=
  ⟨m.entries.filter fun e => e.1 ≠ k, m.nodup.sublist (List.filter_sublist.map _)⟩

/-- `[...map.keys()]`. -/
def keys (m : OrderedMap κ α) : List κ :=
  m.entries.map Prod.fst

/-- `[...map.values()]`. -/
def values (m : OrderedMap κ α) : List α :=
  m.entries.map Prod.snd

omit [DecidableEq κ] in
@[simp] theorem length_values (m : OrderedMap κ α) : m.values.length = m.entries.length := by
  simp [values]

@[simp] theorem get?_empty (k : κ) : (empty : OrderedMap κ α).get? k = none := rfl

theorem get?_set (m : OrderedMap κ α) (k k' : κ) (v : α) :
    (m.set k v).get? k' = if k = k' then some v else m.get? k' :=
  lookupEntry_setEntry k k' v m.entries

@[simp] theorem get?_set_self (m : OrderedMap κ α) (k : κ) (v : α) :
    (m.set k v).get? k = some v := by
  simp [get?_set]

theorem get?_set_of_ne (m : OrderedMap κ α) {k k' : κ} (v : α) (h : k ≠ k') :
    (m.set k v).get? k' = m.get? k' := by
  simp [get?_set, h]

theorem set_set (m : OrderedMap κ α) (k : κ) (v v' : α) : (m.set k v).set k v' = m.set k v' :=
  OrderedMap.ext (setEntry_setEntry k v v' m.entries)

theorem set_of_get? (h : m.get? k = some v) : m.set k v = m :=
  OrderedMap.ext (setEntry_of_lookupEntry h)

theorem get?_delete (m : OrderedMap κ α) (k k' : κ) :
    (m.delete k).get? k' = if k = k' then none else m.get? k' :=
  lookupEntry_filter_ne k k' m.entries

theorem countP_values_set_of_some (p : α → Bool) (v' : α) (h : m.get? k = some v) :
    (m.set k v').values.countP p + (if p v then 1 else 0)
      = m.values.countP p + (if p v' then 1 else 0) :=
  countP_setEntry_of_some p v' h

theorem countP_values_set_of_none (p : α → Bool) (v' : α) (h : m.get? k = none) :
    (m.set k v').values.countP p = m.values.countP p + (if p v' then 1 else 0) :=
  countP_setEntry_of_none p v' h

theorem entries_set_of_none (v : α) (h : m.get? k = none) :
    (m.set k v).entries = m.entries ++ [(k, v)] :=
  setEntry_of_none v h

theorem map_values_set {β : Type*} (f : α → β) {v v' : α}
    (h : m.get? k = some v) (hf : f v' = f v) : (m.set k v').values.map f = m.values.map f :=
  map_snd_setEntry f h hf

theorem values_perm_delete (h : m.get? k = some v) : m.values.Perm (v :: (m.delete k).values) :=
  map_snd_perm_filter_ne m.nodup h

theorem mem_entries_iff (m : OrderedMap κ α) : (k, v) ∈ m.entries ↔ m.get? k = some v :=
  (lookupEntry_eq_some_iff m.nodup).symm

/-- Every value in its place, changed. -/
def mapValues (f : α → α) (m : OrderedMap κ α) : OrderedMap κ α where
  entries := m.entries.map fun e => (e.1, f e.2)
  nodup := by
    rw [List.map_map]
    exact m.nodup

theorem get?_mapValues (f : α → α) (m : OrderedMap κ α) (k : κ) :
    (m.mapValues f).get? k = (m.get? k).map f := by
  unfold get? mapValues
  dsimp only
  induction m.entries with
  | nil => rfl
  | cons e rest ih =>
    by_cases hk : e.1 = k
    · simp [lookupEntry, hk]
    · simpa [lookupEntry, hk] using ih

/-- Every value in its place, changed according to its key. -/
def mapEntries (f : κ → α → α) (m : OrderedMap κ α) : OrderedMap κ α where
  entries := m.entries.map fun e => (e.1, f e.1 e.2)
  nodup := by
    rw [List.map_map]
    exact m.nodup

theorem get?_mapEntries (f : κ → α → α) (m : OrderedMap κ α) (k : κ) :
    (m.mapEntries f).get? k = (m.get? k).map (f k) := by
  unfold get? mapEntries
  dsimp only
  induction m.entries with
  | nil => rfl
  | cons e rest ih =>
    by_cases hk : e.1 = k
    · simp [lookupEntry, hk]
    · simpa [lookupEntry, hk] using ih

/-- Values stored one after another under their own keys: the last one of a key is
found. -/
theorem get?_foldl_set (key : α → κ) (vs : List α) (k : κ) :
    (vs.foldl (fun m v => m.set (key v) v) empty).get? k
      = (vs.filter fun v => decide (key v = k)).getLast? := by
  induction vs using List.reverseRecOn with
  | nil => rfl
  | append_singleton vs v ih =>
    rw [List.foldl_append, List.foldl_cons, List.foldl_nil, get?_set, ih]
    by_cases hk : key v = k <;> simp [hk]

theorem mem_entries_foldl_set (key : α → κ) (vs : List α) :
    ∀ e ∈ (vs.foldl (fun m v => m.set (key v) v) empty).entries, e.1 = key e.2 := by
  induction vs using List.reverseRecOn with
  | nil => exact fun e he => absurd he List.not_mem_nil
  | append_singleton vs v ih =>
    rw [List.foldl_append, List.foldl_cons, List.foldl_nil]
    rintro ⟨k, w⟩ he
    rw [mem_entries_iff, get?_set] at he
    split at he
    · rename_i hk
      rw [← hk, Option.some.inj he]
    · exact ih (k, w) ((mem_entries_iff _).mpr he)

/-- `for (const [k, v] of map) if (p(v)) map.delete(k)`. -/
def removeWhere (p : α → Bool) (m : OrderedMap κ α) : OrderedMap κ α :=
  ⟨m.entries.filter fun e => !p e.2, m.nodup.sublist (List.filter_sublist.map _)⟩

/-- `for (const k of map.keys()) if (!p(k)) map.delete(k)`. -/
def filterKeys (p : κ → Bool) (m : OrderedMap κ α) : OrderedMap κ α :=
  ⟨m.entries.filter fun e => p e.1, m.nodup.sublist (List.filter_sublist.map _)⟩

theorem get?_filterKeys (p : κ → Bool) (m : OrderedMap κ α) (k : κ) :
    (m.filterKeys p).get? k = if p k then m.get? k else none := by
  apply Option.ext
  intro v
  rw [← mem_entries_iff, filterKeys, List.mem_filter]
  split
  · next hp => rw [mem_entries_iff, and_iff_left hp]
  · next hp => exact ⟨fun h => absurd h.2 hp, fun h => (by cases h)⟩

omit [DecidableEq κ] in
theorem values_removeWhere (p : α → Bool) (m : OrderedMap κ α) :
    (m.removeWhere p).values = m.values.filter fun v => !p v := by
  rw [values, removeWhere, values, List.filter_map]
  rfl

theorem mem_values_of_get? (h : m.get? k = some v) : v ∈ m.values :=
  List.mem_map.mpr ⟨(k, v), (mem_entries_iff m).mpr h, rfl⟩

theorem mem_values_set {v w : α} (h : w ∈ (m.set k v).values) : w = v ∨ w ∈ m.values := by
  obtain ⟨⟨k', w'⟩, he, rfl⟩ := List.mem_map.mp h
  rw [mem_entries_iff, get?_set] at he
  split at he
  · exact .inl (Option.some.inj he).symm
  · exact .inr (List.mem_map.mpr ⟨(k', w'), (mem_entries_iff m).mpr he, rfl⟩)

theorem keys_set (m : OrderedMap κ α) (k : κ) (v : α) :
    (m.set k v).keys = if k ∈ m.keys then m.keys else m.keys ++ [k] := by
  unfold keys set
  dsimp only
  generalize m.entries = entries
  induction entries with
  | nil => rfl
  | cons entry rest ih =>
    by_cases hkey : entry.1 = k
    · simp [setEntry, hkey]
    · simp only [setEntry, if_neg hkey, List.map_cons, ih, List.mem_cons, Ne.symm hkey, false_or]
      split
      · rfl
      · rfl


theorem mem_keys_iff (m : OrderedMap κ α) : k ∈ m.keys ↔ (m.get? k).isSome := by
  rw [← not_iff_not, Option.not_isSome_iff_eq_none]
  exact lookupEntry_eq_none_iff.symm

end OrderedMap

end Ecma
