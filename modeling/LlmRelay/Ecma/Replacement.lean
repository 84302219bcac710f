import LlmRelay.Ecma.Regex

/-!
# Replacing the matches of a regular expression

`text.replace(r, w)` with a global expression and a fixed word. What is new in the text is the
word; everything else was there before, in the same order, and no match starts at it.

## Main definitions

* `Regex.times`, `Regex.upTo`: bounded repetition;
* `Regex.replaceAll`: the replacement;
* `Regex.Replaced r w t u`: `u` is `t` with `w` for matches of `r`, match by match;
* `Regex.minLength`, `Regex.Within`: what every match of an expression takes at least, and what
  its units satisfy.

## Main results

* `Regex.replaced_replaceAll`: the replacement goes match by match;
* `Regex.Replaced.origin`: a part of the new text that does not begin inside the word was there
  before;
* `Regex.Replaced.length_le`: a text does not grow when every match is as long as the word.
-/

namespace Ecma.Regex

/-! ## Bounded repetition -/

/-- `a{n}`. -/
def times : Nat → Regex → Regex
  | 0, _ => lit []
  | n + 1, a => seq a (times n a)

/-- `a{0,n}`. -/
def upTo : Nat → Regex → Regex
  | 0, _ => lit []
  | n + 1, a => opt (seq a (upTo n a))

/-! ## Every match -/

/-- The units that every match takes at least. -/
def minLength : Regex → Nat
  | lit w => w.length
  | unit _ => 1
  | rep _ _ => 0
  | seq a b => minLength a + minLength b
  | alt a b => min (minLength a) (minLength b)
  | group a => minLength a
  | stop => 0

variable {m : Match} {p : CodeUnit → Bool}

variable {r : Regex} {t : Text}

theorem minLength_le (h : m ∈ runs r t) : minLength r ≤ m.matched.length := by
  induction r generalizing t m with
  | lit w => rw [mem_runs_lit h, minLength]
  | unit p =>
    obtain ⟨c, -, hm⟩ := mem_runs_unit h
    rw [hm]
    exact le_rfl
  | rep greedy p => exact Nat.zero_le _
  | seq a b iha ihb =>
    obtain ⟨ma, hma, mb, hmb, rfl⟩ := mem_runs_seq h
    rw [Match.after, List.length_append]
    exact Nat.add_le_add (iha hma) (ihb hmb)
  | alt a b iha ihb =>
    rcases List.mem_append.mp h with h | h
    · exact (Nat.min_le_left _ _).trans (iha h)
    · exact (Nat.min_le_right _ _).trans (ihb h)
  | group a ih =>
    obtain ⟨m', hm', rfl⟩ := List.mem_map.mp h
    have hle := ih hm'
    exact hle
  | stop => exact Nat.zero_le _

/-- The units that an expression matches satisfy a property. -/
def Within (P : CodeUnit → Prop) : Regex → Prop
  | lit w => ∀ c ∈ w, P c
  | unit p => ∀ c, p c = true → P c
  | rep _ p => ∀ c, p c = true → P c
  | seq a b => Within P a ∧ Within P b
  | alt a b => Within P a ∧ Within P b
  | group a => Within P a
  | stop => True

theorem Within.mono {P Q : CodeUnit → Prop} (h : ∀ c, P c → Q c) (hr : r.Within P) :
    r.Within Q := by
  induction r with
  | lit w => exact fun c hc => h c (hr c hc)
  | unit p => exact fun c hc => h c (hr c hc)
  | rep greedy p => exact fun c hc => h c (hr c hc)
  | seq a b iha ihb => exact ⟨iha hr.1, ihb hr.2⟩
  | alt a b iha ihb => exact ⟨iha hr.1, ihb hr.2⟩
  | group a ih => exact ih hr
  | stop => trivial

variable {P : CodeUnit → Prop}

theorem within_unit (h : ∀ c, p c = true → P c) : (unit p).Within P :=
  h

theorem within_times {a : Regex} (h : a.Within P) (n : Nat) : (times n a).Within P := by
  induction n with
  | zero => exact List.forall_mem_nil _
  | succ n ih => exact ⟨h, ih⟩

theorem all_of_mem_spans {s : Text × Text} (h : s ∈ spans p t) : ∀ c ∈ s.1, p c = true := by
  induction t generalizing s with
  | nil =>
    rw [spans, List.mem_singleton] at h
    rw [h]
    exact List.forall_mem_nil _
  | cons c t ih =>
    rw [spans, List.mem_cons] at h
    rcases h with rfl | h
    · exact List.forall_mem_nil _
    · split at h
      · rename_i hc
        obtain ⟨s', hs', rfl⟩ := List.mem_map.mp h
        exact List.forall_mem_cons.mpr ⟨hc, ih hs'⟩
      · cases h

theorem Within.units (hr : r.Within P) (h : m ∈ runs r t) : ∀ c ∈ m.matched, P c := by
  induction r generalizing t m with
  | lit w =>
    rw [mem_runs_lit h]
    exact hr
  | unit p =>
    obtain ⟨c, hc, hm⟩ := mem_runs_unit h
    rw [hm]
    exact List.forall_mem_singleton.mpr (hr c hc)
  | rep greedy p =>
    rw [runs] at h
    have h : m ∈ (spans p t).map fun s => ⟨s.1, [], s.2⟩ := by
      split at h
      · exact List.mem_reverse.mp h
      · exact h
    obtain ⟨s, hs, rfl⟩ := List.mem_map.mp h
    exact fun c hc => hr c (all_of_mem_spans hs c hc)
  | seq a b iha ihb =>
    obtain ⟨ma, hma, mb, hmb, rfl⟩ := mem_runs_seq h
    exact List.forall_mem_append.mpr ⟨iha hr.1 hma, ihb hr.2 hmb⟩
  | alt a b iha ihb =>
    rcases List.mem_append.mp h with h | h
    · exact iha hr.1 h
    · exact ihb hr.2 h
  | group a ih =>
    obtain ⟨m', hm', rfl⟩ := List.mem_map.mp h
    have hunits := ih hr hm'
    exact hunits
  | stop =>
    rw [runs] at h
    split at h
    · rw [List.mem_singleton.mp h]
      exact List.forall_mem_nil _
    · cases h

/-! ## Where a match starts -/

theorem runs_seq_ne_nil {a b : Regex} (hm : m ∈ runs a t) (hb : runs b m.rest ≠ []) :
    runs (seq a b) t ≠ [] := by
  obtain ⟨mb, hmb⟩ := List.exists_mem_of_ne_nil _ hb
  exact List.ne_nil_of_mem (List.mem_flatMap.mpr ⟨m, hm, List.mem_map_of_mem hmb⟩)

theorem runs_rep_ne_nil (greedy : Bool) (p : CodeUnit → Bool) (t : Text) :
    runs (rep greedy p) t ≠ [] := by
  have hspans : spans p t ≠ [] := by
    cases t <;> exact List.cons_ne_nil _ _
  rw [runs]
  split
  · simpa using hspans
  · simpa using hspans

theorem mem_runs_lit_append (w t : Text) : (⟨w, [], t⟩ : Match) ∈ runs (lit w) (w ++ t) := by
  rw [runs, if_pos (List.isPrefixOf_iff_prefix.mpr (List.prefix_append w t)), List.drop_left]
  exact List.mem_singleton_self _

theorem mem_runs_times_unit {q : Text} (hq : ∀ c ∈ q, p c = true) (t : Text) :
    (⟨q, [], t⟩ : Match) ∈ runs (times q.length (unit p)) (q ++ t) := by
  induction q with
  | nil => exact mem_runs_lit_append [] t
  | cons c q ih =>
    obtain ⟨hc, hq⟩ := List.forall_mem_cons.mp hq
    refine List.mem_flatMap.mpr ⟨⟨[c], [], q ++ t⟩, ?_, List.mem_map.mpr ⟨_, ih hq, rfl⟩⟩
    rw [List.cons_append, runs, if_pos hc]
    exact List.mem_singleton_self _

theorem head?_runs_rep (p : CodeUnit → Bool) (t : Text) :
    (runs (rep true p) t).head? = some ⟨t.takeWhile p, [], t.dropWhile p⟩ := by
  have hlast : (spans p t).getLast? = some (t.takeWhile p, t.dropWhile p) := by
    induction t with
    | nil => rfl
    | cons c t ih =>
      rw [spans]
      by_cases hc : p c = true
      · have hne : spans p t ≠ [] := by
          cases t <;> exact List.cons_ne_nil _ _
        rw [if_pos hc, List.takeWhile_cons_of_pos hc, List.dropWhile_cons_of_pos hc,
          List.getLast?_cons_of_ne_nil (by simpa using hne), List.getLast?_map, ih]
        rfl
      · rw [if_neg hc, List.takeWhile_cons_of_neg hc, List.dropWhile_cons_of_neg hc]
        rfl
  rw [runs, if_pos rfl, List.head?_reverse, List.getLast?_map, hlast]
  rfl

/-! ## Replacing -/

/-- The scan with a word in the place of every match; an empty match leaves its unit. -/
def replaceScan (r : Regex) (w : Text) : Nat → Text → Text
  | 0, [] => if (runs r []).head?.isSome then w else []
  | _ + 1, [] => []
  | 0, c :: t =>
    match (runs r (c :: t)).head? with
    | none => c :: replaceScan r w 0 t
    | some m =>
      if m.matched = [] then w ++ c :: replaceScan r w 0 t
      else w ++ replaceScan r w (m.matched.length - 1) t
  | skip + 1, _ :: t => replaceScan r w skip t

/-- `text.replace(r, w)` with a global expression. -/
def replaceAll (r : Regex) (w t : Text) : Text :=
  replaceScan r w 0 t

/-- A text with a word in the place of matches, the others unit by unit. -/
inductive Replaced (r : Regex) (w : Text) : Text → Text → Prop where
  | nil : Replaced r w [] []
  | keep {c : CodeUnit} {t u : Text} (hnone : runs r (c :: t) = []) (rest : Replaced r w t u) :
      Replaced r w (c :: t) (c :: u)
  | swap {t u : Text} {m : Match} (hm : (runs r t).head? = some m) (rest : Replaced r w m.rest u) :
      Replaced r w t (w ++ u)

theorem replaceScan_append (r : Regex) (w x t : Text) :
    replaceScan r w x.length (x ++ t) = replaceScan r w 0 t := by
  induction x with
  | nil => rfl
  | cons c x ih => exact ih

/-- **The replacement goes match by match**, where every match takes something. -/
theorem replaced_replaceAll (hpos : 0 < minLength r) (w t : Text) :
    Replaced r w t (replaceAll r w t) := by
  have hne {t : Text} {m : Match} (h : m ∈ runs r t) : m.matched ≠ [] :=
    List.length_pos_iff.mp (hpos.trans_le (minLength_le h))
  -- what follows a match is shorter, so the induction is on the length
  induction hlen : t.length using Nat.strong_induction_on generalizing t with
  | _ n ih =>
  cases t with
  | nil =>
    have hnone : (runs r []).head? = none := by
      cases hm : (runs r []).head? with
      | none => rfl
      | some m =>
        have hmem := List.mem_of_mem_head? (Option.mem_def.mpr hm)
        have hsplit := runs_spec hmem
        exact absurd (List.append_eq_nil_iff.mp hsplit.symm).1 (hne hmem)
    rw [replaceAll, replaceScan, hnone]
    exact .nil
  | cons c t =>
    cases hm : (runs r (c :: t)).head? with
    | none =>
      have hnone := List.head?_eq_none_iff.mp hm
      rw [replaceAll, replaceScan, hnone]
      exact .keep hnone (ih t.length (hlen ▸ Nat.lt_succ_self _) t rfl)
    | some m =>
      have hmem := List.mem_of_mem_head? (Option.mem_def.mpr hm)
      have hsplit := runs_spec hmem
      cases hmatched : m.matched with
      | nil => exact absurd hmatched (hne hmem)
      | cons d x =>
        rw [hmatched, List.cons_append] at hsplit
        obtain ⟨rfl, rfl⟩ := List.cons.inj hsplit
        have hskip : replaceAll r w (c :: (x ++ m.rest)) = w ++ replaceAll r w m.rest := by
          rw [replaceAll, replaceScan, hm]
          dsimp only
          rw [hmatched, List.length_cons, Nat.add_sub_cancel, replaceScan_append]
          rfl
        rw [hskip]
        refine .swap hm (ih m.rest.length ?_ m.rest rfl)
        rw [← hlen, List.length_cons, List.length_append]
        omega

theorem replaceAll_eq_self (hnil : runs r [] = []) (h : ∀ v, v <:+ t → runs r v = []) (w : Text) :
    replaceAll r w t = t := by
  induction t with
  | nil =>
    rw [replaceAll, replaceScan, hnil]
    rfl
  | cons c t ih =>
    rw [replaceAll, replaceScan, h _ (List.suffix_refl _)]
    exact congrArg (c :: ·) (ih fun v hv => h v (hv.trans (List.suffix_cons c t)))

namespace Replaced

variable {r : Regex} {w t u : Text}

variable (h : Replaced r w t u)

include h

theorem mem_of_matched (hp : ∀ c v, p c = true → runs r (c :: v) ≠ [])
    {c : CodeUnit} (hc : c ∈ u) (hpc : p c = true) : c ∈ w := by
  induction h with
  | nil => cases hc
  | keep hnone _ ih =>
    rcases List.mem_cons.mp hc with rfl | hc
    · exact absurd hnone (hp _ _ hpc)
    · exact ih hc
  | swap _ _ ih => exact (List.mem_append.mp hc).elim id ih

theorem mem {c : CodeUnit} (hc : c ∈ u) : c ∈ w ∨ c ∈ t := by
  induction h with
  | nil => cases hc
  | keep _ _ ih =>
    rcases List.mem_cons.mp hc with rfl | hc
    · exact .inr List.mem_cons_self
    · exact (ih hc).imp_right (List.mem_cons_of_mem _)
  | swap hm _ ih =>
    rcases List.mem_append.mp hc with hc | hc
    · exact .inl hc
    · have hsplit := runs_spec (List.mem_of_mem_head? (Option.mem_def.mpr hm))
      rw [hsplit]
      exact (ih hc).imp_right (List.mem_append_right _)

/-- A text does not grow when every match is as long as the word. -/
theorem length_le (hw : w.length ≤ minLength r) : u.length ≤ t.length := by
  induction h with
  | nil => exact le_rfl
  | keep _ _ ih => exact Nat.succ_le_succ ih
  | swap hm _ ih =>
    have hmem := List.mem_of_mem_head? (Option.mem_def.mpr hm)
    have hmatched := minLength_le hmem
    rw [runs_spec hmem, List.length_append, List.length_append]
    omega

theorem of_start {d : CodeUnit} (hd : w.head? = some d) {q : Text}
    (hdq : d ∉ q) (hq : q <+: u) : q <+: t ∧ Replaced r w (t.drop q.length) (u.drop q.length) := by
  induction h generalizing q with
  | nil =>
    rw [List.prefix_nil.mp hq]
    exact ⟨List.nil_prefix, .nil⟩
  | keep hnone rest ih =>
    cases q with
    | nil => exact ⟨List.nil_prefix, .keep hnone rest⟩
    | cons c q =>
      obtain ⟨rfl, hq'⟩ := List.cons_prefix_cons.mp hq
      obtain ⟨htail, hrest⟩ := ih (fun hd => hdq (List.mem_cons_of_mem _ hd)) hq'
      exact ⟨List.cons_prefix_cons.mpr ⟨rfl, htail⟩, hrest⟩
  | swap hm rest ih =>
    cases q with
    | nil => exact ⟨List.nil_prefix, .swap hm rest⟩
    | cons c q =>
      cases w with
      | nil => cases hd
      | cons e w =>
        cases hd
        obtain ⟨rfl, -⟩ := List.cons_prefix_cons.mp hq
        exact absurd List.mem_cons_self hdq

/-- An end of the new text begins inside the word, or is itself made from an end of the old
one. -/
theorem of_suffix {v : Text} (hv : v <:+ u) :
    (∃ x u', x ≠ [] ∧ x <:+ w ∧ v = x ++ u') ∨ ∃ v', v' <:+ t ∧ Replaced r w v' v := by
  induction h with
  | nil =>
    rw [List.suffix_nil.mp hv]
    exact .inr ⟨[], List.suffix_refl _, .nil⟩
  | keep hnone rest ih =>
    rcases List.suffix_cons_iff.mp hv with rfl | hv
    · exact .inr ⟨_, List.suffix_refl _, .keep hnone rest⟩
    · rcases ih hv with hin | ⟨v', hv', hrest⟩
      · exact .inl hin
      · exact .inr ⟨v', hv'.trans (List.suffix_cons _ _), hrest⟩
  | swap hm rest ih =>
    rename_i t u m
    have hsplit := runs_spec (List.mem_of_mem_head? (Option.mem_def.mpr hm))
    have hbehind (hshort : v <:+ u) :
        (∃ x u', x ≠ [] ∧ x <:+ w ∧ v = x ++ u') ∨ ∃ v', v' <:+ t ∧ Replaced r w v' v := by
      rcases ih hshort with hin | ⟨v', hv', hrest⟩
      · exact .inl hin
      · exact .inr ⟨v', hv'.trans (hsplit ▸ List.suffix_append _ _), hrest⟩
    obtain ⟨y, hy⟩ := hv
    rcases List.append_eq_append_iff.mp hy with ⟨x, hx, rfl⟩ | ⟨x, -, hx⟩
    · cases x with
      | nil => exact hbehind (List.suffix_refl _)
      | cons c x => exact .inl ⟨c :: x, u, List.cons_ne_nil c x, ⟨y, hx.symm⟩, rfl⟩
    · exact hbehind ⟨x, hx.symm⟩

/-- **A part of the new text** that does not begin inside the word was there before, and no match
starts at it. -/
theorem origin {d : CodeUnit} (hd : w.head? = some d) {q v : Text}
    (hdq : d ∉ q) (hne : q ≠ []) (hout : ∀ x, x ≠ [] → x <:+ w → ∀ u', ¬ q <+: x ++ u')
    (hq : q <+: v) (hv : v <:+ u) :
    ∃ v', v' <:+ t ∧ q <+: v' ∧ runs r v' = [] ∧
      Replaced r w (v'.drop q.length) (v.drop q.length) := by
  rcases h.of_suffix hv with ⟨x, u', hx, hxw, rfl⟩ | ⟨v', hv', hrest⟩
  · exact absurd hq (hout x hx hxw u')
  · obtain ⟨hq', hdrop⟩ := hrest.of_start hd hdq hq
    refine ⟨v', hv', hq', ?_, hdrop⟩
    cases hrest with
    | nil => exact absurd (List.prefix_nil.mp hq) hne
    | keep hnone _ => exact hnone
    | swap hm _ =>
      -- the word begins with a unit that the part does not have
      cases q with
      | nil => exact absurd rfl hne
      | cons c q =>
        cases w with
        | nil => cases hd
        | cons e w =>
          cases hd
          obtain ⟨rfl, -⟩ := List.cons_prefix_cons.mp hq
          exact absurd List.mem_cons_self hdq

end Replaced

theorem outside_of_head {w q : Text} (hq : ∀ c ∈ q.head?, c ∉ w) (hne : q ≠ []) (x : Text)
    (hx : x ≠ []) (hxw : x <:+ w) (u : Text) : ¬ q <+: x ++ u := by
  intro hlead
  cases q with
  | nil => exact hne rfl
  | cons c q =>
    cases x with
    | nil => exact hx rfl
    | cons e x =>
      obtain ⟨rfl, -⟩ := List.cons_prefix_cons.mp hlead
      exact hq c rfl (hxw.subset List.mem_cons_self)

theorem outside_of_getLast {w q : Text} {e : CodeUnit} (he : w.getLast? = some e) (hq : e ∉ q)
    (hlen : w.length ≤ q.length) (x : Text) (hx : x ≠ []) (hxw : x <:+ w) (u : Text) :
    ¬ q <+: x ++ u := by
  intro hlead
  have hshort : x <+: q := List.prefix_of_prefix_length_le (List.prefix_append x u) hlead
    (hxw.length_le.trans hlen)
  obtain ⟨y, rfl⟩ := hxw
  have hlast : x.getLast? = some e := by
    rw [← he, List.getLast?_append_of_ne_nil y hx]
  exact hq (hshort.subset (List.mem_of_getLast? hlast))

end Ecma.Regex
