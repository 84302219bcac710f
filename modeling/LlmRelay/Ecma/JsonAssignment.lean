import LlmRelay.Ecma.JsonRoundTrip

/-!
# Assigning a property of a normal value

Where a property goes depends on the keys alone, so overwriting one keeps the properties of an
object in enumeration order, and the value is still one that `JSON.parse` reads back.

## Main results

* `lookupEntry_foldl_setProperty`: what is found after several assignments;
* `Json.normal_literal`: an object literal with normal values is normal;
* `Json.Normal.get?`: the properties of a normal value are normal;
* `Json.Normal.assign`: an object stays normal when a property it has is overwritten by a normal
  value.
-/

namespace Ecma

/-- Gives every property the value that `g` computes from it. -/
def revalue (g : Text → Json → Json) (fields : List (Text × Json)) : List (Text × Json) :=
  fields.map fun p => (p.1, g p.1 p.2)

variable (g : Text → Json → Json)

theorem isSome_lookupEntry_revalue (k : Text) (fields : List (Text × Json)) :
    (lookupEntry k (revalue g fields)).isSome = (lookupEntry k fields).isSome := by
  induction fields with
  | nil => rfl
  | cons p rest ih =>
    show (lookupEntry k ((p.1, g p.1 p.2) :: revalue g rest)).isSome = _
    by_cases hk : p.1 = k
    · simp [lookupEntry, hk]
    · simpa [lookupEntry, hk] using ih

theorem setEntry_revalue (k : Text) (v : Json) (fields : List (Text × Json)) :
    setEntry k (g k v) (revalue g fields) = revalue g (setEntry k v fields) := by
  induction fields with
  | nil => rfl
  | cons p rest ih =>
    show setEntry k (g k v) ((p.1, g p.1 p.2) :: revalue g rest) = _
    by_cases hk : p.1 = k
    · simp [setEntry, hk, revalue]
    · rw [setEntry, if_neg hk, ih, setEntry, if_neg hk]
      rfl

theorem insertProperty_revalue (k : Text) (v : Json) (fields : List (Text × Json)) :
    insertProperty k (g k v) (revalue g fields) = revalue g (insertProperty k v fields) := by
  induction fields with
  | nil => rfl
  | cons p rest ih =>
    show insertProperty k (g k v) ((p.1, g p.1 p.2) :: revalue g rest) = _
    rw [insertProperty, insertProperty, ih]
    split
    · split <;> rfl
    · rfl
    · rfl

theorem setProperty_revalue (k : Text) (v : Json) (fields : List (Text × Json)) :
    setProperty (revalue g fields) k (g k v) = revalue g (setProperty fields k v) := by
  rw [setProperty, setProperty, isSome_lookupEntry_revalue, setEntry_revalue,
    insertProperty_revalue]
  split <;> rfl

theorem foldl_setProperty_revalue (fields acc : List (Text × Json)) :
    (revalue g fields).foldl (fun acc p => setProperty acc p.1 p.2) (revalue g acc)
      = revalue g (fields.foldl (fun acc p => setProperty acc p.1 p.2) acc) := by
  induction fields generalizing acc with
  | nil => rfl
  | cons p rest ih =>
    show (revalue g rest).foldl _ (setProperty (revalue g acc) p.1 (g p.1 p.2)) = _
    rw [setProperty_revalue, ih]
    rfl

/-! ## Keys -/

variable {fields acc : List (Text × Json)} {k : Text}

/-- Overwrites the value of one key. -/
def overwrite (k : Text) (v : Json) (key : Text) (w : Json) : Json :=
  if key = k then v else w

theorem revalue_overwrite_of_notMem {v : Json} (h : k ∉ fields.map Prod.fst) :
    revalue (overwrite k v) fields = fields := by
  induction fields with
  | nil => rfl
  | cons p rest ih =>
    rw [List.map_cons, List.mem_cons, not_or] at h
    show (p.1, overwrite k v p.1 p.2) :: revalue (overwrite k v) rest = _
    rw [ih h.2, overwrite, if_neg fun heq => h.1 heq.symm]

theorem setEntry_eq_revalue {v : Json} (hnodup : (fields.map Prod.fst).Nodup)
    (hmem : k ∈ fields.map Prod.fst) : setEntry k v fields = revalue (overwrite k v) fields := by
  induction fields with
  | nil => cases hmem
  | cons p rest ih =>
    rw [List.map_cons, List.nodup_cons] at hnodup
    show _ = (p.1, overwrite k v p.1 p.2) :: revalue (overwrite k v) rest
    by_cases hk : p.1 = k
    · subst hk
      rw [setEntry, if_pos rfl, revalue_overwrite_of_notMem hnodup.1, overwrite, if_pos rfl]
    · have hrest : k ∈ rest.map Prod.fst := by
        rcases List.mem_cons.mp hmem with heq | hrest
        · exact absurd heq.symm hk
        · exact hrest
      rw [setEntry, if_neg hk, ih hnodup.2 hrest, overwrite, if_neg hk]

/-- What is found after several assignments, of which none overwrites another. -/
theorem lookupEntry_foldl_setProperty (k : Text) {more : List (Text × Json)}
    (hmore : (more.map Prod.fst).Nodup) (fields : List (Text × Json)) :
    lookupEntry k (more.foldl (fun acc p => setProperty acc p.1 p.2) fields)
      = (lookupEntry k more).or (lookupEntry k fields) := by
  induction more generalizing fields with
  | nil => rfl
  | cons p rest ih =>
    rw [List.map_cons, List.nodup_cons] at hmore
    rw [List.foldl_cons, ih hmore.2, lookupEntry_setProperty, lookupEntry]
    by_cases hk : p.1 = k
    · have hnone : lookupEntry k rest = none := lookupEntry_eq_none_iff.mpr (hk ▸ hmore.1)
      rw [if_pos hk, if_pos hk, hnone]
      rfl
    · rw [if_neg hk, if_neg hk]

theorem insertProperty_of_plain (hk : arrayIndex? k = none) (v : Json)
    (fields : List (Text × Json)) : insertProperty k v fields = fields ++ [(k, v)] := by
  induction fields with
  | nil => rfl
  | cons p rest ih =>
    rw [insertProperty]
    simp only [hk, ih]
    rfl

theorem foldl_setProperty_of_plain (hplain : ∀ p ∈ fields, arrayIndex? p.1 = none)
    (hnodup : ((acc ++ fields).map Prod.fst).Nodup) :
    fields.foldl (fun acc p => setProperty acc p.1 p.2) acc = acc ++ fields := by
  induction fields generalizing acc with
  | nil => rw [List.foldl_nil, List.append_nil]
  | cons p rest ih =>
    have hset : setProperty acc p.1 p.2 = acc ++ [p] := by
      rw [setProperty_of_nodup hnodup, insertProperty_of_plain (hplain p List.mem_cons_self)]
    rw [List.foldl_cons, hset, ih (fun q hq => hplain q (List.mem_cons_of_mem p hq))]
    · rw [List.append_assoc, List.singleton_append]
    · rw [List.append_assoc, List.singleton_append]
      exact hnodup

namespace Json

/-! ## Normal values -/

variable {fields : List (Text × Json)} {k : Text} {v : Json}

theorem normalFields_iff : NormalFields fields ↔ ∀ p ∈ fields, p.2.Normal := by
  induction fields with
  | nil => simp [NormalFields]
  | cons p rest ih => simp [NormalFields, ih]

/-- An object literal is normal when its values are. -/
theorem normal_literal (hplain : ∀ p ∈ fields, arrayIndex? p.1 = none)
    (hnodup : (fields.map Prod.fst).Nodup) (hvalues : ∀ p ∈ fields, p.2.Normal) :
    (obj fields).Normal :=
  ⟨foldl_setProperty_of_plain hplain hnodup, normalFields_iff.mpr hvalues⟩

theorem Normal.nodup_keys (h : (obj fields).Normal) : (fields.map Prod.fst).Nodup := by
  rw [← h.1]
  exact nodup_foldl_setProperty fields List.nodup_nil

theorem NormalFields.of_lookupEntry (h : NormalFields fields) (hk : lookupEntry k fields = some v) :
    v.Normal := by
  induction fields with
  | nil => cases hk
  | cons p rest ih =>
    rw [lookupEntry] at hk
    split at hk
    · cases hk
      exact h.1
    · exact ih h.2 hk

/-- The properties of a normal value are normal. -/
theorem Normal.get? {w : Json} (h : v.Normal) (hk : v.get? k = some w) : w.Normal := by
  match v with
  | .obj fields => exact NormalFields.of_lookupEntry h.2 hk

theorem NormalFields.revalue {fields : List (Text × Json)} (h : NormalFields fields)
    {k : Text} {v : Json} (hv : v.Normal) : NormalFields (revalue (overwrite k v) fields) := by
  induction fields with
  | nil => trivial
  | cons p rest ih =>
    refine ⟨?_, ih h.2⟩
    show (overwrite k v p.1 p.2).Normal
    rw [overwrite]
    split
    · exact hv
    · exact h.1

/-- **An object stays normal** when a property that it has is overwritten. -/
theorem Normal.assign (h : (obj fields).Normal) {w : Json} (hk : lookupEntry k fields = some w)
    (hv : v.Normal) : (obj (setProperty fields k v)).Normal := by
  have hnodup := h.nodup_keys
  have hmem : k ∈ fields.map Prod.fst := by
    by_contra hnot
    rw [lookupEntry_eq_none_iff.mpr hnot] at hk
    cases hk
  have hset : setProperty fields k v = Ecma.revalue (overwrite k v) fields := by
    rw [setProperty, hk, Option.isSome_some, if_pos rfl, setEntry_eq_revalue hnodup hmem]
  rw [hset]
  refine ⟨?_, h.2.revalue hv⟩
  have hfold := foldl_setProperty_revalue (overwrite k v) fields []
  rw [h.1] at hfold
  exact hfold

end Json

end Ecma
