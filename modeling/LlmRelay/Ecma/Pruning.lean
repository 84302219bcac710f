import LlmRelay.Ecma.OrderedMap

/-!
# Maps that lose entries

A loop over the entries that a map has at its start, which deletes each of them or assigns it
a new value, leaves the map of what it assigned, in the old order.

## Main definitions

* `OrderedMap.filterMapValues f`: the entries whose value has an image under `f`, with it;
* `OrderedMap.prune`: the loop.

## Main results

* `OrderedMap.prune_eq`: the loop computes `filterMapValues`;
* `OrderedMap.filterMapValues_filterMapValues`: two rounds are one;
* `OrderedMap.mapValues_set`: a change of all values commutes with an assignment.
-/

namespace Ecma.OrderedMap

variable {κ α β γ : Type*}

/-- The entries whose value has an image, with the image in its place. -/
def filterMapValues (f : α → Option β) (m : OrderedMap κ α) : OrderedMap κ β where
  entries := m.entries.filterMap fun e => (f e.2).map fun v => (e.1, v)
  nodup := by
    refine m.nodup.sublist ?_
    induction m.entries with
    | nil => exact List.Sublist.refl _
    | cons e rest ih =>
      rw [List.filterMap_cons]
      cases f e.2 with
      | none => exact ih.cons _
      | some v => exact ih.cons_cons _

variable {m : OrderedMap κ α} {k : κ}

theorem mem_filterMapValues {f : α → Option β} {v : β} :
    (k, v) ∈ (m.filterMapValues f).entries ↔ ∃ u, (k, u) ∈ m.entries ∧ f u = some v := by
  constructor
  · intro h
    obtain ⟨⟨k', u⟩, hin, heq⟩ := List.mem_filterMap.mp h
    obtain ⟨w, hw, hkw⟩ := Option.map_eq_some_iff.mp heq
    cases hkw
    exact ⟨u, hin, hw⟩
  · rintro ⟨u, hin, hu⟩
    exact List.mem_filterMap.mpr ⟨(k, u), hin, by simp [hu]⟩

@[simp] theorem filterMapValues_some (m : OrderedMap κ α) : m.filterMapValues some = m := by
  ext1
  show m.entries.filterMap (fun e => some (e.1, e.2)) = m.entries
  exact List.filterMap_some

/-- Two rounds are one. -/
theorem filterMapValues_filterMapValues (f : α → Option β) (g : β → Option γ) (m : OrderedMap κ α) :
    (m.filterMapValues f).filterMapValues g = m.filterMapValues fun v => (f v).bind g := by
  ext1
  show List.filterMap _ (List.filterMap _ _) = List.filterMap _ _
  rw [List.filterMap_filterMap]
  refine List.filterMap_congr fun e _ => ?_
  dsimp only
  cases f e.2 <;> rfl

section Loops

variable [DecidableEq κ]

/-- `for (const [k, v] of Object.entries(map))`, where a value is deleted or assigned. -/
def prune (kept : κ → α → Option α) (map : OrderedMap κ α) : OrderedMap κ α :=
  map.entries.foldl (fun pruned (k, v) =>
    match kept k v with
    | none => pruned.delete k
    | some v' => pruned.set k v') map

variable {before rest : List (κ × α)}

theorem entries_delete_middle {v : α}
    (h : m.entries = before ++ (k, v) :: rest) : (m.delete k).entries = before ++ rest := by
  have hnodup := m.nodup
  rw [h, List.map_append, List.map_cons, List.nodup_middle, List.nodup_cons, ← List.map_append]
    at hnodup
  show m.entries.filter _ = _
  rw [h, List.filter_append, List.filter_cons_of_neg (by simp), ← List.filter_append,
    List.filter_eq_self]
  intro e he
  have hkey : e.1 ∈ (before ++ rest).map Prod.fst := List.mem_map_of_mem he
  exact decide_eq_true fun hk => hnodup.1 (hk ▸ hkey)

theorem setEntry_append_of_not_mem {v : α} (h : k ∉ before.map Prod.fst) :
    setEntry k v (before ++ rest) = before ++ setEntry k v rest := by
  induction before with
  | nil => rfl
  | cons e before ih =>
    rw [List.map_cons, List.mem_cons, not_or] at h
    rw [List.cons_append, setEntry, if_neg fun he => h.1 he.symm, ih h.2, List.cons_append]

theorem entries_set_middle {v v' : α} (h : m.entries = before ++ (k, v) :: rest) :
    (m.set k v').entries = before ++ (k, v') :: rest := by
  have hnodup := m.nodup
  rw [h, List.map_append, List.map_cons, List.nodup_middle, List.nodup_cons] at hnodup
  show setEntry k v' m.entries = _
  rw [h, setEntry_append_of_not_mem fun hin => hnodup.1 (List.mem_append_left _ hin), setEntry,
    if_pos rfl]

theorem entries_foldl_prune (kept : κ → α → Option α) (rest : List (κ × α)) :
    ∀ (m : OrderedMap κ α) (before : List (κ × α)), m.entries = before ++ rest →
      (rest.foldl (fun pruned (k, v) =>
        match kept k v with
        | none => pruned.delete k
        | some v' => pruned.set k v') m).entries
        = before ++ rest.filterMap fun e => (kept e.1 e.2).map fun v => (e.1, v) := by
  induction rest with
  | nil => exact fun m before h => h
  | cons e rest ih =>
    intro m before h
    rw [List.foldl_cons, List.filterMap_cons]
    dsimp only
    cases hkept : kept e.1 e.2 with
    | none => exact ih _ before (entries_delete_middle h)
    | some v' =>
      have hset : (m.set e.1 v').entries = (before ++ [(e.1, v')]) ++ rest := by
        rw [entries_set_middle h, List.append_assoc, List.singleton_append]
      rw [ih _ _ hset, List.append_assoc]
      rfl

/-- **The loop** keeps the entries that have an image. -/
theorem prune_eq {kept : κ → α → Option α} {f : α → Option α} (h : ∀ k v, kept k v = f v)
    (map : OrderedMap κ α) : map.prune kept = map.filterMapValues f := by
  ext1
  show (map.entries.foldl _ map).entries = List.filterMap _ _
  rw [entries_foldl_prune kept map.entries map [] rfl]
  exact List.filterMap_congr fun e _ => by rw [h]

variable (f : α → α)

theorem map_setEntry (k : κ) (v : α) (l : List (κ × α)) :
    (setEntry k v l).map (fun e => (e.1, f e.2))
      = setEntry k (f v) (l.map fun e => (e.1, f e.2)) := by
  induction l with
  | nil => rfl
  | cons e rest ih =>
    rw [setEntry, List.map_cons, setEntry]
    split
    · rfl
    · rw [List.map_cons, ih]

/-- A change of all values commutes with an assignment. -/
theorem mapValues_set (m : OrderedMap κ α) (k : κ) (v : α) :
    (m.set k v).mapValues f = (m.mapValues f).set k (f v) :=
  OrderedMap.ext (map_setEntry f k v m.entries)

theorem has_mapValues (m : OrderedMap κ α) (k : κ) : (m.mapValues f).has k = m.has k := by
  rw [has, get?_mapValues, Option.isSome_map, has]

end Loops

@[simp] theorem keys_mapValues (f : α → α) (m : OrderedMap κ α) : (m.mapValues f).keys = m.keys := by
  show (m.entries.map _).map _ = m.entries.map _
  rw [List.map_map]
  rfl

end Ecma.OrderedMap
