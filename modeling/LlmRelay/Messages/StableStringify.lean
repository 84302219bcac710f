import LlmRelay.Ecma.JsonRoundTrip

/-!
# The order-independent text of a value

`stableStringify` writes the properties of every object in the order of their keys. The schema
cache takes its keys from it, and the repair guard compares content blocks by it.

## Main definitions

* `stableStringify`: the text;
* `deepEqual`: deep equality, up to the order of the properties;
* `sortKeys`: the value with its properties in the order of their keys.

## Main results

* `stableStringify_eq`: the text is the plain one of the sorted value;
* `sortKeys_eq_iff`: two values are sorted to one exactly when they are deeply equal;
* `stableStringify_eq_iff`: and so do they have one text.
-/

namespace LlmRelay

open Ecma

mutual
/-- `stableStringify(v)`. -/
def stableStringify : Json → Text
  | .arr items => text "[" ++ Text.join (text ",") (stableItems items) ++ text "]"
  | .obj fields =>
    let texts := stableFields fields
    let keys := (fields.map Prod.fst).mergeSort fun a b => decide (a ≤ b)
    text "\x7b" ++ Text.join (text ",") (keys.map fun k =>
      (Json.str k).stringify ++ text ":" ++ (lookupEntry k texts).getD (text "undefined"))
      ++ text "\x7d"
  | v => v.stringify

/-- `v.map(stableStringify)`. -/
def stableItems : List Json → List Text
  | [] => []
  | v :: rest => stableStringify v :: stableItems rest

/-- The text of `v[k]` for each own key `k`. -/
def stableFields : List (Text × Json) → List (Text × Text)
  | [] => []
  | (k, v) :: rest => (k, stableStringify v) :: stableFields rest
end

mutual
/-- Deep equality, up to the order of the properties of an object. -/
def deepEqual : Json → Json → Bool
  | .arr a, .arr b => deepEqualItems a b
  | .obj a, .obj b => a.length == b.length && deepEqualFields a b
  | v, w => decide (v = w)

/-- Deep equality of elements. -/
def deepEqualItems : List Json → List Json → Bool
  | [], [] => true
  | v :: a, w :: b => deepEqual v w && deepEqualItems a b
  | _, _ => false

/-- The second object has each property of the first. -/
def deepEqualFields : List (Text × Json) → List (Text × Json) → Bool
  | [], _ => true
  | (k, v) :: a, b => (lookupEntry k b).any (deepEqual v ·) && deepEqualFields a b
end

/-- The properties in the order of their keys, by code units. -/
def sortFields (fields : List (Text × Json)) : List (Text × Json) :=
  fields.mergeSort fun p q => decide (p.1 ≤ q.1)

variable {a b : List (Text × Json)}

theorem perm_sortFields (fields : List (Text × Json)) : (sortFields fields).Perm fields :=
  List.mergeSort_perm fields _

theorem pairwise_sortFields (fields : List (Text × Json)) :
    (sortFields fields).Pairwise fun p q => p.1 ≤ q.1 := by
  have hsorted : (sortFields fields).Pairwise fun p q => decide (p.1 ≤ q.1) = true := by
    refine List.pairwise_mergeSort (fun p q r hpq hqr => ?_) (fun p q => ?_) fields
    · rw [decide_eq_true_eq] at *
      exact List.le_trans hpq hqr
    · rw [Bool.or_eq_true, decide_eq_true_eq, decide_eq_true_eq]
      exact List.le_total p.1 q.1
  exact hsorted.imp of_decide_eq_true

/-- Objects are sorted to one exactly when they have the same properties. -/
theorem sortFields_eq_iff (hkeys : (a.map Prod.fst).Nodup) :
    sortFields a = sortFields b ↔ a.Perm b := by
  constructor
  · intro h
    exact (perm_sortFields a).symm.trans (h ▸ perm_sortFields b)
  · intro h
    have hperm := (perm_sortFields a).trans (h.trans (perm_sortFields b).symm)
    -- two properties of the same object that are ordered both ways have one key
    refine hperm.eq_of_pairwise (fun p q hp hq hpq hqp => ?_) (pairwise_sortFields a)
      (pairwise_sortFields b)
    have hp' := (perm_sortFields a).mem_iff.mp hp
    have hq' := h.mem_iff.mpr ((perm_sortFields b).mem_iff.mp hq)
    exact List.inj_on_of_nodup_map hkeys hp' hq' (List.le_antisymm hpq hqp)

/-! ## Sorted values -/

/-- The value with the properties of every object in the order of their keys. -/
def sortKeys : Json → Json := Json.rebuild sortFields

/-- The value as it is written: a number that is not finite is null. -/
def written : Json → Json := Json.rebuild id

variable (items : List Json)

theorem sortKeys_arr : sortKeys (.arr items) = .arr (items.map sortKeys) :=
  congrArg Json.arr (Json.rebuildItems_eq sortFields items)

theorem sortKeys_obj (fields : List (Text × Json)) :
    sortKeys (.obj fields) = .obj (sortFields (fields.map fun p => (p.1, sortKeys p.2))) :=
  congrArg (fun fields => Json.obj (sortFields fields)) (Json.rebuildFields_eq sortFields fields)

section Arrange

variable {v : Json} {f : List (Text × Json) → List (Text × Json)}
  (hf : ∀ fields, (fields.map Prod.fst).Nodup → (f fields).Perm fields)

include hf

/-- An arrangement of the properties leaves a value proper. -/
theorem proper_rebuild (h : v.Proper) : (v.rebuild f).Proper := by
  induction h with
  | null => exact .null
  | bool b => exact .bool b
  | num hx =>
    rw [Json.rebuild]
    split
    · exact .num hx
    · exact .null
  | str s => exact .str s
  | arr _ ih =>
    rw [Json.rebuild, Json.rebuildItems_eq]
    exact .arr (List.forall_mem_map.mpr ih)
  | @obj fields hkeys _ ih =>
    rw [Json.rebuild, Json.rebuildFields_eq]
    have hperm := hf (fields.map fun p => (p.1, p.2.rebuild f)) (by rwa [List.map_map])
    refine .obj ?_ fun p hp => ?_
    · rw [(hperm.map Prod.fst).nodup_iff, List.map_map]
      exact hkeys
    · obtain ⟨q, hq, rfl⟩ := List.mem_map.mp (hperm.mem_iff.mp hp)
      exact ih q hq

/-- Sorting forgets an arrangement of the properties. -/
theorem sortKeys_rebuild (h : v.Proper) : sortKeys (v.rebuild f) = sortKeys v := by
  induction h with
  | null | bool | str => rfl
  | @num x _ => cases x <;> rfl
  | arr _ ih =>
    rw [Json.rebuild, Json.rebuildItems_eq, sortKeys_arr, sortKeys_arr, List.map_map]
    exact congrArg Json.arr (List.map_congr_left ih)
  | @obj fields hkeys _ ih =>
    have hperm := hf (fields.map fun p => (p.1, p.2.rebuild f)) (by rwa [List.map_map])
    have hsame : (fields.map fun p => (p.1, sortKeys (p.2.rebuild f)))
        = fields.map fun p => (p.1, sortKeys p.2) :=
      List.map_congr_left fun p hp => congrArg (Prod.mk p.1) (ih p hp)
    rw [Json.rebuild, Json.rebuildFields_eq, sortKeys_obj, sortKeys_obj, ← hsame]
    refine congrArg Json.obj ((sortFields_eq_iff ?_).mpr ?_)
    · rw [List.map_map]
      exact (hperm.map Prod.fst).nodup_iff.mpr (by rwa [List.map_map])
    · have hmap := hperm.map fun p => (p.1, sortKeys p.2)
      rwa [List.map_map] at hmap

end Arrange

theorem perm_enumerate (h : (a.map Prod.fst).Nodup) : (Json.enumerate a).Perm a := by
  have hkeys : (([] ++ a).map Prod.fst).Nodup := h
  exact perm_foldl_setProperty hkeys

/-! ## The text -/

theorem stringifyItems_eq_join :
    Json.stringifyItems items = Text.join [0x2C] (items.map Json.stringify) := by
  induction items with
  | nil => rfl
  | cons v rest ih => cases rest <;> simp_all [Json.stringifyItems, Text.join]

theorem stringifyFields_eq_join (fields : List (Text × Json)) :
    Json.stringifyFields fields
      = Text.join [0x2C] (fields.map fun p => Json.quote p.1 ++ 0x3A :: p.2.stringify) := by
  induction fields with
  | nil => rfl
  | cons p rest ih => cases rest <;> simp_all [Json.stringifyFields, Text.join]

theorem stableItems_eq : stableItems items = items.map stableStringify := by
  induction items with
  | nil => rfl
  | cons v rest ih => rw [stableItems, ih, List.map_cons]

theorem stableFields_eq (fields : List (Text × Json)) :
    stableFields fields = fields.map fun p => (p.1, stableStringify p.2) := by
  induction fields with
  | nil => rfl
  | cons p rest ih => rw [stableFields, ih, List.map_cons]

/-- **The text** of a value is the plain one of its sorted form. -/
theorem stableStringify_eq {v : Json} (h : v.Proper) :
    stableStringify v = (sortKeys v).stringify := by
  induction h with
  | null | str => rfl
  | bool b => cases b <;> rfl
  | @num x _ => cases x <;> rfl
  | @arr items _ ih =>
    rw [stableStringify, stableItems_eq, sortKeys_arr, Json.stringify, stringifyItems_eq_join,
      List.map_map, List.map_congr_left ih]
    rfl
  | @obj fields hkeys _ ih =>
    -- sorting the keys is sorting the properties by them
    have hsort : (fields.map Prod.fst).mergeSort (fun a b => decide (a ≤ b))
        = (sortFields (fields.map fun p => (p.1, sortKeys p.2))).map Prod.fst := by
      rw [sortFields, List.map_mergeSort (s := fun a b => decide (a ≤ b)) fun _ _ _ _ => rfl,
        List.map_map]
      rfl
    rw [stableStringify, sortKeys_obj, Json.stringify, stringifyFields_eq_join, hsort, List.map_map]
    have htexts : ((stableFields fields).map Prod.fst).Nodup := by
      rw [stableFields_eq, List.map_map]
      exact hkeys
    refine congrArg (fun texts => 0x7B :: Text.join [0x2C] texts ++ [0x7D])
      (List.map_congr_left fun q hq => ?_)
    obtain ⟨p, hp, rfl⟩ := List.mem_map.mp ((perm_sortFields _).mem_iff.mp hq)
    have hfound : lookupEntry p.1 (stableFields fields) = some (stableStringify p.2) := by
      rw [lookupEntry_eq_some_iff htexts, stableFields_eq]
      exact List.mem_map.mpr ⟨p, hp, rfl⟩
    show _ ++ [0x3A] ++ (lookupEntry p.1 _).getD _ = _
    rw [hfound, Option.getD_some, ih p hp, List.append_assoc]
    rfl

/-- The text reads back, up to the order of the properties. -/
theorem sortKeys_parse {v : Json} (h : v.Proper) :
    (Json.parse (stableStringify v)).map sortKeys = some (sortKeys v) := by
  have hproper : (sortKeys v).Proper := proper_rebuild (fun fields _ => perm_sortFields fields) h
  have hparse := (Json.reads_stringify hproper).parse Json.noSpace
  rw [List.append_nil, ← stableStringify_eq h] at hparse
  -- reading enumerates the properties, which sorting forgets
  rw [hparse, Option.map_some]
  exact congrArg some ((sortKeys_rebuild (fun _ h => perm_enumerate h) hproper).trans
    (sortKeys_rebuild (fun fields _ => perm_sortFields fields) h))

/-- The text determines the sorted value. -/
theorem stableStringify_eq_iff_sortKeys {v w : Json} (hv : v.Proper) (hw : w.Proper) :
    stableStringify v = stableStringify w ↔ sortKeys v = sortKeys w := by
  constructor
  · intro h
    have hsorted := sortKeys_parse hv
    rw [h, sortKeys_parse hw] at hsorted
    exact (Option.some.inj hsorted).symm
  · intro h
    rw [stableStringify_eq hv, stableStringify_eq hw, h]

/-! ## Deep equality -/

theorem deepEqualFields_iff : deepEqualFields a b = true ↔
    ∀ p ∈ a, ∃ w, lookupEntry p.1 b = some w ∧ deepEqual p.2 w = true := by
  induction a with
  | nil => simp [deepEqualFields]
  | cons p rest ih => simp [deepEqualFields, ih, Option.any_eq_true]

theorem map_sortKeys_eq_iff {items other : List Json}
    (h : ∀ v ∈ items, ∀ w ∈ other, sortKeys v = sortKeys w ↔
      deepEqual (written v) (written w) = true) :
    items.map sortKeys = other.map sortKeys ↔
      deepEqualItems (items.map written) (other.map written) = true := by
  induction items generalizing other with
  | nil => cases other <;> simp [deepEqualItems]
  | cons v items ih =>
    cases other with
    | nil => simp [deepEqualItems]
    | cons w other =>
      have hrest := ih fun x hx y hy =>
        h x (List.mem_cons_of_mem v hx) y (List.mem_cons_of_mem w hy)
      simp [deepEqualItems, hrest, h v List.mem_cons_self w List.mem_cons_self]

/-- **Two values** are sorted to one exactly when they are deeply equal. -/
theorem sortKeys_eq_iff {v w : Json} (hv : v.Proper) (hw : w.Proper) :
    sortKeys v = sortKeys w ↔ deepEqual (written v) (written w) = true := by
  induction hv generalizing w with
  | @arr items _ ih =>
    cases hw with
    | @arr other hother =>
      rw [sortKeys_arr, sortKeys_arr, Json.arr.injEq]
      simp only [written, Json.rebuild, Json.rebuildItems_eq, deepEqual]
      exact map_sortKeys_eq_iff fun v hv w hw => ih v hv (hother w hw)
    | @num x _ => cases x <;> simp [sortKeys, written, Json.rebuild, deepEqual, Number.isFinite]
    | _ => simp [sortKeys, written, Json.rebuild, deepEqual]
  | @obj a hkeys _ ih =>
    cases hw with
    | @obj b hkeys' hb =>
      have hnodup : ((a.map fun p => (p.1, sortKeys p.2)).map Prod.fst).Nodup := by
        rwa [List.map_map]
      have hnodup' : ((b.map fun p => (p.1, written p.2)).map Prod.fst).Nodup := by
        rwa [List.map_map]
      have hmem : ∀ p ∈ a, (p.1, sortKeys p.2) ∈ b.map (fun p => (p.1, sortKeys p.2)) ↔
          ∃ x, lookupEntry p.1 (b.map fun p => (p.1, written p.2)) = some x ∧
            deepEqual (written p.2) x = true := by
        intro p hp
        simp only [lookupEntry_eq_some_iff hnodup', List.mem_map, Prod.mk.injEq]
        constructor
        · rintro ⟨q, hq, hkey, hsame⟩
          exact ⟨written q.2, ⟨q, hq, hkey, rfl⟩, (ih p hp (hb q hq)).mp hsame.symm⟩
        · rintro ⟨_, ⟨q, hq, hkey, rfl⟩, hdeep⟩
          exact ⟨q, hq, hkey, ((ih p hp (hb q hq)).mpr hdeep).symm⟩
      rw [sortKeys_obj, sortKeys_obj, Json.obj.injEq, sortFields_eq_iff hnodup]
      simp only [written, Json.rebuild, Json.rebuildFields_eq, deepEqual, id, Bool.and_eq_true,
        beq_iff_eq, List.length_map, deepEqualFields_iff, List.forall_mem_map]
      -- distinct keys, and as many properties: one inclusion is enough
      constructor
      · intro h
        exact ⟨by simpa using h.length_eq,
          fun p hp => (hmem p hp).mp (h.subset (List.mem_map_of_mem hp))⟩
      · rintro ⟨hlength, hall⟩
        have hsubset := List.forall_mem_map.mpr fun p hp => (hmem p hp).mpr (hall p hp)
        exact (List.subperm_of_subset hnodup.of_map hsubset).perm_of_length_le (by simp [hlength])
    | @num x _ => cases x <;> simp [sortKeys, written, Json.rebuild, deepEqual, Number.isFinite]
    | _ => simp [sortKeys, written, Json.rebuild, deepEqual]
  | @num x _ =>
    cases x <;> cases hw with
    | @num y _ => cases y <;> simp [sortKeys, written, Json.rebuild, deepEqual, Number.isFinite]
    | _ => simp [sortKeys, written, Json.rebuild, deepEqual, Number.isFinite]
  | _ =>
    cases hw with
    | @num x _ => cases x <;> simp [sortKeys, written, Json.rebuild, deepEqual, Number.isFinite]
    | _ => simp [sortKeys, written, Json.rebuild, deepEqual]

/-- **Two values** have one text exactly when they are deeply equal up to the order of their
properties, where a number that is not finite counts as null. -/
theorem stableStringify_eq_iff {v w : Json} (hv : v.Proper) (hw : w.Proper) :
    stableStringify v = stableStringify w ↔ deepEqual (written v) (written w) = true :=
  (stableStringify_eq_iff_sortKeys hv hw).trans (sortKeys_eq_iff hv hw)

theorem stableStringify_eq_iff_swapped :
    stableStringify (.obj [(text "a", .null), (text "b", .num .posInf)])
        = stableStringify (.obj [(text "b", .null), (text "a", .null)]) ↔
      deepEqual (written (.obj [(text "a", .null), (text "b", .num .posInf)]))
        (written (.obj [(text "b", .null), (text "a", .null)])) = true :=
  stableStringify_eq_iff
    (.obj (by decide) (by simp [Json.Proper.null, Json.Proper.num]))
    (.obj (by decide) (by simp [Json.Proper.null]))

/-- `JSON.parse` reads `1e400` as infinity, whose text is the one of null. -/
theorem infinity_text_eq_null : Json.parse (text "1e400") = some (.num .posInf) ∧
    ¬ ∀ v w : Json, v.Proper → w.Proper →
      (stableStringify v = stableStringify w ↔ deepEqual v w = true) := by
  refine ⟨by decide +kernel, fun h => ?_⟩
  have hdeep := (h (.num .posInf) .null (.num nofun) .null).mp rfl
  revert hdeep
  decide

end LlmRelay
