import LlmRelay.Ecma.OrderedMap
import Mathlib.Data.List.Basic
import Mathlib.Tactic.Tauto

/-!
# Rows filed under a code of their label

A table files each row under a code of the label that the row states, so a row whose
label has the code of another takes its place. Its index lists the rows under the labels
themselves.

## Main definitions

* `Table label code`: rows filed under the codes of their labels;
* `Table.put`, `Table.putNew`, `Table.removeWhere`: its operations;
* `Table.index`: the rows by label.

## Main results

* `Table.index_put_iff`: a row is stored as in a map by label exactly when no row of
  another label has its code;
* `Table.index_removeWhere`: rows are removed as from a map by label;
* `forall_eq_of_joined_iff`: when a code that joins two parts determines them.
-/

namespace Ecma

variable {ι κ α : Type*} {label : α → ι} {code : ι → κ}

/-- Rows filed under the codes of their labels. -/
@[ext] structure Table (label : α → ι) (code : ι → κ) where
  rows : OrderedMap κ α
  filed : ∀ e ∈ rows.entries, e.1 = code (label e.2)

namespace Table

variable {t : Table label code} {rows : List α} {row row' : α}

/-- The table without rows. -/
def empty : Table label code :=
  ⟨.empty, fun _ he => absurd he List.not_mem_nil⟩

theorem label_mem_of_code [DecidableEq κ] (t : Table label code)
    (h : row ∈ t.rows.values) : t.rows.get? (code (label row)) = some row := by
  obtain ⟨⟨k, row'⟩, he, rfl⟩ := List.mem_map.mp h
  have hk : k = code (label row') := t.filed _ he
  subst hk
  exact (OrderedMap.mem_entries_iff t.rows).mp he

theorem eq_of_code_eq [DecidableEq κ] (t : Table label code)
    (h : row ∈ t.rows.values) (h' : row' ∈ t.rows.values)
    (hcode : code (label row) = code (label row')) : row = row' :=
  Option.some.inj ((t.label_mem_of_code h).symm.trans (hcode ▸ t.label_mem_of_code h'))

theorem nodup_codes (t : Table label code) :
    (t.rows.values.map fun row => code (label row)).Nodup := by
  have hkeys : t.rows.entries.map Prod.fst = t.rows.values.map fun row => code (label row) := by
    rw [OrderedMap.values, List.map_map]
    exact List.map_congr_left t.filed
  exact hkeys ▸ t.rows.nodup

theorem nodup_labels (t : Table label code) : (t.rows.values.map label).Nodup := by
  have hcodes : ((t.rows.values.map label).map code).Nodup := by
    rw [List.map_map]
    exact t.nodup_codes
  exact List.Nodup.of_map code hcodes

/-- The rows by label. -/
def index (t : Table label code) : OrderedMap ι α where
  entries := t.rows.values.map fun row => (label row, row)
  nodup := by
    rw [List.map_map]
    exact t.nodup_labels

@[simp] theorem values_index (t : Table label code) : t.index.values = t.rows.values := by
  simp [index, OrderedMap.values]

theorem ext_values {t t' : Table label code} (hvalues : t.rows.values = t'.rows.values) :
    t = t' := by
  have hentries : ∀ t : Table label code,
      t.rows.entries = t.rows.values.map fun row => (code (label row), row) := by
    intro t
    rw [OrderedMap.values, List.map_map]
    conv_lhs => rw [← List.map_id t.rows.entries]
    exact List.map_congr_left fun e he => Prod.ext (t.filed e he) rfl
  exact Table.ext (OrderedMap.ext (by rw [hentries, hentries, hvalues]))

/-- Removes the rows that satisfy `p`. -/
def removeWhere (p : α → Bool) (t : Table label code) : Table label code where
  rows := t.rows.removeWhere p
  filed := fun e he => t.filed e (List.mem_of_mem_filter he)

variable (p : α → Bool)

@[simp] theorem values_removeWhere (t : Table label code) :
    (t.removeWhere p).rows.values = t.rows.values.filter fun row => !p row :=
  OrderedMap.values_removeWhere p t.rows

/-- Rows are removed as from a map by label. -/
theorem index_removeWhere (t : Table label code) :
    (t.removeWhere p).index = t.index.removeWhere p := by
  apply OrderedMap.ext
  change (t.removeWhere p).rows.values.map (fun row => (label row, row))
    = (t.rows.values.map fun row => (label row, row)).filter fun e => !p e.2
  rw [values_removeWhere, List.filter_map]
  rfl

section Put

variable [DecidableEq κ]

/-- `table[code(label(row))] = row`. -/
def put (t : Table label code) (row : α) : Table label code where
  rows := t.rows.set (code (label row)) row
  filed := by
    rintro ⟨k, row'⟩ he
    rw [OrderedMap.mem_entries_iff, OrderedMap.get?_set] at he
    split at he
    · rename_i hk
      rw [← Option.some.inj he]
      exact hk.symm
    · exact t.filed _ ((OrderedMap.mem_entries_iff _).mpr he)

/-- `table[code(label(row))] ??= row`. -/
def putNew (t : Table label code) (row : α) : Table label code :=
  if t.rows.has (code (label row)) then t else t.put row

theorem mem_values_put (h : row' ∈ (t.put row).rows.values) : row' = row ∨ row' ∈ t.rows.values :=
  OrderedMap.mem_values_set h

theorem mem_values_put_iff :
    row' ∈ (t.put row).rows.values ↔
      row' = row ∨ (row' ∈ t.rows.values ∧ code (label row') ≠ code (label row)) := by
  constructor
  · intro h
    have hfound : (t.rows.set (code (label row)) row).get? (code (label row')) = some row' :=
      label_mem_of_code (t.put row) h
    rw [OrderedMap.get?_set] at hfound
    split at hfound
    · exact .inl (Option.some.inj hfound).symm
    · rename_i hcode
      exact .inr ⟨OrderedMap.mem_values_of_get? hfound, Ne.symm hcode⟩
  · rintro (rfl | ⟨hmem, hcode⟩)
    · exact OrderedMap.mem_values_of_get? (OrderedMap.get?_set_self _ _ _)
    · refine OrderedMap.mem_values_of_get? (k := code (label row')) ?_
      change (t.rows.set (code (label row)) row).get? (code (label row')) = _
      rw [OrderedMap.get?_set_of_ne _ _ (Ne.symm hcode)]
      exact label_mem_of_code t hmem

/-- Rows of distinct codes, stored one after another, are all there, with the earlier rows
of other codes. -/
theorem mem_values_foldl_put (hnodup : (rows.map fun row => code (label row)).Nodup) :
    row ∈ (rows.foldl put t).rows.values ↔
      row ∈ rows ∨
        (row ∈ t.rows.values ∧ ∀ other ∈ rows, code (label row) ≠ code (label other)) := by
  induction rows using List.reverseRecOn with
  | nil => simp
  | append_singleton rows last ih =>
    rw [List.map_append, List.nodup_append] at hnodup
    obtain ⟨hrows, -, hlast⟩ := hnodup
    rw [List.foldl_append, List.foldl_cons, List.foldl_nil, mem_values_put_iff, ih hrows]
    constructor
    · rintro (rfl | ⟨hold | ⟨hold, hothers⟩, hcode⟩)
      · exact .inl (by simp)
      · exact .inl (List.mem_append_left _ hold)
      · refine .inr ⟨hold, fun other hother => ?_⟩
        rcases List.mem_append.mp hother with h | h
        · exact hothers other h
        · rw [List.mem_singleton.mp h]
          exact hcode
    · rintro (hnew | ⟨hold, hothers⟩)
      · rcases List.mem_append.mp hnew with h | h
        · refine .inr ⟨.inl h, ?_⟩
          exact hlast _ (List.mem_map_of_mem h) _
            (List.mem_map_of_mem (List.mem_singleton_self last))
        · exact .inl (List.mem_singleton.mp h)
      · exact .inr ⟨.inr ⟨hold, fun other h => hothers other (List.mem_append_left _ h)⟩,
          hothers last (by simp)⟩

theorem mem_values_putNew
    (h : row' ∈ (t.putNew row).rows.values) : row' = row ∨ row' ∈ t.rows.values := by
  unfold putNew at h
  split at h
  · exact .inr h
  · exact mem_values_put h

theorem values_putNew (h : t.rows.get? (code (label row)) = none) :
    (t.putNew row).rows.values = t.rows.values ++ [row] := by
  have hmissing : t.rows.has (code (label row)) = false := by simp [OrderedMap.has, h]
  rw [putNew, hmissing]
  change (t.rows.set (code (label row)) row).entries.map Prod.snd = _
  rw [OrderedMap.entries_set_of_none row h, List.map_append]
  rfl

theorem get?_putNew (t : Table label code) (row : α) (k : κ) :
    (t.putNew row).rows.get? k
      = (t.rows.get? k).or (if code (label row) = k then some row else none) := by
  unfold putNew OrderedMap.has
  split
  · rename_i h
    split
    · rename_i hk
      obtain ⟨other, hother⟩ := Option.isSome_iff_exists.mp (hk ▸ h)
      rw [hother, Option.some_or]
    · rw [Option.or_none]
  · rename_i h
    change (t.rows.set (code (label row)) row).get? k = _
    rw [OrderedMap.get?_set]
    split
    · rename_i hk
      have hnone : t.rows.get? k = none := by rw [← hk]; simpa using h
      rw [hnone, Option.none_or]
    · rw [Option.or_none]

/-- **A row is stored as in a map by label** exactly when no row of another label has its
code. -/
theorem index_put_iff [DecidableEq ι] (t : Table label code) (row : α) :
    (t.put row).index = t.index.set (label row) row ↔
      ∀ other ∈ t.rows.values, code (label other) = code (label row) → label other = label row := by
  constructor
  · intro h other hother hcode
    by_contra hlabel
    -- the map by label still has the other row
    have hkept : (t.index.set (label row) row).get? (label other) = some other := by
      rw [OrderedMap.get?_set_of_ne _ _ (Ne.symm hlabel), ← OrderedMap.mem_entries_iff]
      exact List.mem_map.mpr ⟨other, hother, rfl⟩
    have hmem : other ∈ (t.put row).rows.values := by
      rw [← values_index, h]
      exact List.mem_map.mpr ⟨_, (OrderedMap.mem_entries_iff _).mpr hkept, rfl⟩
    have hfound := label_mem_of_code _ hmem
    rw [hcode] at hfound
    change (t.rows.set (code (label row)) row).get? _ = _ at hfound
    rw [OrderedMap.get?_set_self] at hfound
    exact hlabel (congrArg label (Option.some.inj hfound)).symm
  · intro h
    apply OrderedMap.ext
    change ((setEntry (code (label row)) row t.rows.entries).map Prod.snd).map
        (fun row => (label row, row))
      = setEntry (label row) row ((t.rows.entries.map Prod.snd).map fun row => (label row, row))
    have hfiled := t.filed
    have hothers : ∀ e ∈ t.rows.entries, code (label e.2) = code (label row) →
        label e.2 = label row := fun e he => h e.2 (List.mem_map.mpr ⟨e, he, rfl⟩)
    generalize t.rows.entries = entries at hfiled hothers
    induction entries with
    | nil => rfl
    | cons e entries ih =>
      have hrest := ih (fun e' he' => hfiled e' (List.mem_cons_of_mem e he'))
        fun e' he' => hothers e' (List.mem_cons_of_mem e he')
      by_cases hk : e.1 = code (label row)
      · have hcode := (hfiled e List.mem_cons_self).symm.trans hk
        have hlabel := hothers e List.mem_cons_self hcode
        simp [setEntry, hk, hlabel]
      · have hlabel : label e.2 ≠ label row := by
          intro hlabel
          exact hk ((hfiled e List.mem_cons_self).trans (congrArg code hlabel))
        simpa [setEntry, hk, hlabel] using hrest

theorem get?_foldl_putNew (rows : List α) (t : Table label code) (k : κ) :
    (rows.foldl putNew t).rows.get? k
      = (t.rows.get? k).or (rows.find? fun row => code (label row) = k) := by
  induction rows generalizing t with
  | nil => rw [List.foldl_nil, List.find?_nil, Option.or_none]
  | cons row rows ih =>
    rw [List.foldl_cons, ih, get?_putNew, List.find?_cons]
    by_cases hk : code (label row) = k
    · rw [if_pos hk, decide_eq_true hk, Option.or_assoc, Option.some_or]
    · rw [if_neg hk, decide_eq_false hk, Option.or_none]

theorem mem_foldl_putNew
    (h : row ∈ (rows.foldl putNew t).rows.values) : row ∈ t.rows.values ∨ row ∈ rows := by
  have hfound := label_mem_of_code _ h
  rw [get?_foldl_putNew] at hfound
  rcases Option.or_eq_some_iff.mp hfound with hold | ⟨-, hnew⟩
  · exact .inl (OrderedMap.mem_values_of_get? hold)
  · exact .inr (List.mem_of_find?_eq_some hnew)

theorem mem_of_mem_foldl_putNew
    (h : row ∈ (rows.foldl putNew (empty : Table label code)).rows.values) : row ∈ rows :=
  (mem_foldl_putNew h).resolve_left List.not_mem_nil

theorem values_foldl_putNew (hnodup : (rows.map fun row => code (label row)).Nodup) :
    (rows.foldl putNew (empty : Table label code)).rows.values = rows := by
  induction rows using List.reverseRecOn with
  | nil => rfl
  | append_singleton rows row ih =>
    rw [List.map_append, List.nodup_append] at hnodup
    obtain ⟨hrows, -, hnew⟩ := hnodup
    rw [List.foldl_append, List.foldl_cons, List.foldl_nil, values_putNew, ih hrows]
    rw [get?_foldl_putNew]
    change (rows.find? fun row' => code (label row') = code (label row)) = none
    rw [List.find?_eq_none]
    intro row' hrow' heq
    exact hnew _ (List.mem_map_of_mem hrow') _ (List.mem_map_of_mem (List.mem_singleton_self row))
      (of_decide_eq_true heq)

end Put

variable {l : ι}

theorem get?_index_iff [DecidableEq ι] (t : Table label code) :
    t.index.get? l = some row ↔ row ∈ t.rows.values ∧ label row = l := by
  rw [← OrderedMap.mem_entries_iff]
  constructor
  · intro h
    obtain ⟨row', hmem, heq⟩ := List.mem_map.mp h
    cases heq
    exact ⟨hmem, rfl⟩
  · rintro ⟨hmem, rfl⟩
    exact List.mem_map.mpr ⟨row, hmem, rfl⟩

theorem get?_code_iff [DecidableEq κ] (t : Table label code) {k : κ} :
    t.rows.get? k = some row ↔ row ∈ t.rows.values ∧ code (label row) = k := by
  constructor
  · intro h
    refine ⟨OrderedMap.mem_values_of_get? h, ?_⟩
    exact (t.filed _ ((OrderedMap.mem_entries_iff _).mpr h)).symm
  · rintro ⟨hmem, rfl⟩
    exact t.label_mem_of_code hmem

theorem get?_index_removeWhere [DecidableEq ι] (t : Table label code) (l : ι) :
    (t.removeWhere p).index.get? l = (t.index.get? l).filter fun row => !p row := by
  ext row
  rw [get?_index_iff, values_removeWhere, List.mem_filter, Option.filter_eq_some_iff,
    get?_index_iff]
  tauto

theorem find?_label_of_perm [DecidableEq ι] (h : rows.Perm t.rows.values) (l : ι) :
    (rows.find? fun row => decide (label row = l)) = t.index.get? l := by
  ext row
  rw [get?_index_iff]
  constructor
  · intro hfound
    have hlabel := List.find?_some hfound
    rw [decide_eq_true_eq] at hlabel
    exact ⟨h.mem_iff.mp (List.mem_of_find?_eq_some hfound), hlabel⟩
  · rintro ⟨hmem, rfl⟩
    obtain ⟨other, hother⟩ := Option.isSome_iff_exists.mp <| List.find?_isSome
      (p := fun other => decide (label other = label row)) |>.mpr
      ⟨row, h.mem_iff.mpr hmem, decide_eq_true rfl⟩
    rw [hother]
    have hlabel := List.find?_some hother
    rw [decide_eq_true_eq] at hlabel
    have hthere := h.mem_iff.mp (List.mem_of_find?_eq_some hother)
    exact List.inj_on_of_nodup_map t.nodup_labels hthere hmem hlabel ▸ rfl

theorem get?_foldl_putNew_of_perm [DecidableEq κ] (h : rows.Perm t.rows.values) (k : κ) :
    (rows.foldl putNew (empty : Table label code)).rows.get? k = t.rows.get? k := by
  have hnodup : (rows.map fun row => code (label row)).Nodup :=
    ((h.map _).nodup_iff).mpr t.nodup_codes
  ext row
  rw [get?_code_iff, get?_code_iff, values_foldl_putNew hnodup, h.mem_iff]

/-! ## Labels without a rival -/

section Apart

variable [DecidableEq κ]

/-- No row of another label has the code of the label. -/
def Apart (t : Table label code) (l : ι) : Prop :=
  ∀ row ∈ t.rows.values, code (label row) = code l → label row = l

/-- `table.delete(code(l))`. -/
def delete (t : Table label code) (l : ι) : Table label code where
  rows := t.rows.delete (code l)
  filed := fun e he => t.filed e (List.mem_of_mem_filter he)

theorem mem_values_delete_iff :
    row ∈ (t.delete l).rows.values ↔ row ∈ t.rows.values ∧ code (label row) ≠ code l := by
  have hfound : (t.rows.delete (code l)).get? (code (label row)) = some row ↔
      row ∈ (t.delete l).rows.values ∧ code (label row) = code (label row) :=
    (t.delete l).get?_code_iff
  rw [OrderedMap.get?_delete] at hfound
  constructor
  · intro h
    have hsome := hfound.mpr ⟨h, rfl⟩
    split at hsome
    · cases hsome
    · rename_i hne
      exact ⟨OrderedMap.mem_values_of_get? hsome, Ne.symm hne⟩
  · rintro ⟨hmem, hne⟩
    rw [if_neg (Ne.symm hne)] at hfound
    exact (hfound.mp (t.label_mem_of_code hmem)).1

variable [DecidableEq ι]

theorem get?_of_apart (h : t.Apart l) : t.rows.get? (code l) = t.index.get? l := by
  ext row
  rw [get?_code_iff, get?_index_iff]
  constructor
  · rintro ⟨hmem, hcode⟩
    exact ⟨hmem, h row hmem hcode⟩
  · rintro ⟨hmem, rfl⟩
    exact ⟨hmem, rfl⟩

theorem index_put_of_apart (h : t.Apart (label row)) :
    (t.put row).index = t.index.set (label row) row :=
  (index_put_iff t row).mpr h

theorem index_putNew_of_apart (h : t.Apart (label row)) :
    (t.putNew row).index
      = if t.index.has (label row) then t.index else t.index.set (label row) row := by
  unfold putNew OrderedMap.has
  rw [get?_of_apart h]
  split
  · rfl
  · exact index_put_of_apart h

/-- Rows filed one after another, where no two labels share a code: the first one of a label is
found. -/
theorem get?_index_foldl_putNew
    (hinj : ∀ a b, a ∈ t.rows.values ∨ a ∈ rows → b ∈ t.rows.values ∨ b ∈ rows →
      code (label a) = code (label b) → label a = label b) (l : ι) :
    (rows.foldl putNew t).index.get? l
      = (t.index.get? l).or (rows.find? fun row => decide (label row = l)) := by
  induction rows generalizing t with
  | nil => rw [List.foldl_nil, List.find?_nil, Option.or_none]
  | cons row rows ih =>
    have hapart : t.Apart (label row) := fun other hother hcode =>
      hinj other row (.inl hother) (.inr List.mem_cons_self) hcode
    have hkept : ∀ a, a ∈ (t.putNew row).rows.values ∨ a ∈ rows →
        a ∈ t.rows.values ∨ a ∈ row :: rows := by
      rintro a (ha | ha)
      · rcases mem_values_putNew ha with rfl | hold
        · exact .inr List.mem_cons_self
        · exact .inl hold
      · exact .inr (List.mem_cons_of_mem _ ha)
    rw [List.foldl_cons, ih fun a b ha hb => hinj a b (hkept a ha) (hkept b hb),
      index_putNew_of_apart hapart, List.find?_cons]
    by_cases hl : label row = l
    · subst hl
      rw [decide_eq_true rfl]
      unfold OrderedMap.has
      cases hfound : t.index.get? (label row) with
      | none => rw [if_neg (by simp), OrderedMap.get?_set_self]; rfl
      | some old => rw [if_pos (by simp), hfound]; rfl
    · rw [decide_eq_false hl]
      split
      · rfl
      · rw [OrderedMap.get?_set_of_ne _ _ hl]

theorem index_delete_of_apart (h : t.Apart l) : (t.delete l).index = t.index.delete l := by
  apply OrderedMap.ext
  change ((t.rows.entries.filter fun e => e.1 ≠ code l).map Prod.snd).map (fun row => (label row, row))
    = ((t.rows.entries.map Prod.snd).map fun row => (label row, row)).filter fun e => e.1 ≠ l
  rw [List.map_map, List.map_map, List.filter_map]
  refine congrArg _ (List.filter_congr fun e he => ?_)
  have hfiled := t.filed e he
  change decide (e.1 ≠ code l) = decide (label e.2 ≠ l)
  rw [decide_eq_decide, not_iff_not, hfiled]
  constructor
  · exact h e.2 (List.mem_map.mpr ⟨e, he, rfl⟩)
  · rintro rfl
    rfl

end Apart

end Table

/-! ## Codes that join two parts -/

/-- A joined text is split in one way only exactly where neither part has the separator. -/
theorem forall_eq_of_joined_iff (sep : α) (xs ys : List α) :
    (∀ xs' ys', xs' ++ sep :: ys' = xs ++ sep :: ys → xs' = xs ∧ ys' = ys) ↔
      sep ∉ xs ∧ sep ∉ ys := by
  classical
  constructor
  · intro h
    refine ⟨fun hmem => ?_, fun hmem => ?_⟩
    · obtain ⟨s, t, rfl⟩ := List.append_of_mem hmem
      have hlength := congrArg List.length (h s (t ++ sep :: ys) (by simp)).1
      simp at hlength
    · obtain ⟨s, t, rfl⟩ := List.append_of_mem hmem
      have hlength := congrArg List.length (h (xs ++ sep :: s) t (by simp)).1
      simp at hlength
  · rintro ⟨hxs, hys⟩ xs' ys' h
    -- the separator stands once in the text
    have hcount := congrArg (List.count sep) h
    simp only [List.count_append, List.count_cons_self, List.count_eq_zero_of_not_mem hxs,
      List.count_eq_zero_of_not_mem hys] at hcount
    have hxs' : sep ∉ xs' := List.count_eq_zero.mp (by omega)
    have hys' : sep ∉ ys' := List.count_eq_zero.mp (by omega)
    obtain ⟨hleft, -, hright⟩ := (List.append_cons_inj_of_notMem hxs' hys').mp h
    exact ⟨hleft, hright⟩

end Ecma
