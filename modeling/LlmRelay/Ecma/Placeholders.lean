import LlmRelay.Ecma.Text

/-!
# Placeholders

`s.split(token).join(value)` puts a value in the place of every occurrence of a token, from
left to right. The text that is put in is not read again.

## Main definitions

* `replaceAll`: the replacement.

## Main results

* `replaceAll_induction`: what the scan meets, one after the other;
* `replaceAll_append_cons`: a unit outside the token ends what the scan has to look at;
* `eq_of_replaceAll_eq`: two values that begin apart tell every text from every other.
-/

namespace Ecma.Text

/-- The scan of `replaceAll`; the first `skip` units belong to a token that was replaced. -/
def replaceFrom (token value : Text) : Nat → Text → Text
  | _, [] => []
  | skip + 1, _ :: s => replaceFrom token value skip s
  | 0, c :: s =>
    if token.isPrefixOf (c :: s) then value ++ replaceFrom token value (token.length - 1) s
    else c :: replaceFrom token value 0 s

/-- `s.split(token).join(value)`, for a token that is not empty. -/
def replaceAll (s token value : Text) : Text :=
  replaceFrom token value 0 s

section Scan

variable {token : Text} (htoken : token ≠ [])

theorem replaceFrom_eq_drop (value : Text) (skip : Nat) (s : Text) :
    replaceFrom token value skip s = replaceAll (s.drop skip) token value := by
  induction skip generalizing s with
  | zero => rfl
  | succ skip ih =>
    cases s with
    | nil => rfl
    | cons c s => exact ih s

variable {c : CodeUnit} {s v w : Text}

theorem replaceAll_cons_of_unmatched (h : ¬token <+: c :: s) (value : Text) :
    replaceAll (c :: s) token value = c :: s.replaceAll token value := by
  rw [← List.isPrefixOf_iff_prefix] at h
  exact if_neg h

theorem replaceAll_of_includes_eq_false (h : s.includes token = false) (value : Text) :
    s.replaceAll token value = s := by
  rw [← Bool.not_eq_true, includes_iff] at h
  induction s with
  | nil => rfl
  | cons c s ih =>
    rw [replaceAll_cons_of_unmatched (fun hlead => h hlead.isInfix),
      ih fun hin => h (hin.trans (List.suffix_cons c s).isInfix)]

include htoken

theorem replaceAll_token_append (s value : Text) :
    (token ++ s).replaceAll token value = value ++ s.replaceAll token value := by
  cases token with
  | nil => exact absurd rfl htoken
  | cons t rest =>
    rw [List.cons_append, replaceAll, replaceFrom, if_pos]
    · rw [replaceFrom_eq_drop]
      simp
    · rw [List.isPrefixOf_iff_prefix]
      exact List.prefix_append _ _

/-- The scan meets a token, or a unit that begins none. -/
theorem replaceAll_induction {motive : Text → Prop} (nil : motive [])
    (found : ∀ s, motive s → motive (token ++ s))
    (unit : ∀ c s, ¬token <+: c :: s → motive s → motive (c :: s)) (s : Text) : motive s := by
  induction hn : s.length using Nat.strong_induction_on generalizing s with
  | _ n ih =>
    cases s with
    | nil => exact nil
    | cons c s =>
      by_cases h : token <+: c :: s
      · obtain ⟨rest, hrest⟩ := h
        have hlength := congrArg List.length hrest
        rw [List.length_append] at hlength
        have hpos := List.length_pos_iff.mpr htoken
        rw [← hrest]
        exact found rest (ih rest.length (by omega) rest rfl)
      · exact unit c s h (ih s.length (by simp [← hn]) s rfl)

theorem length_le_replaceAll (h : s.includes token = true) (value : Text) :
    value.length ≤ (s.replaceAll token value).length := by
  rw [includes_iff] at h
  induction s using replaceAll_induction htoken with
  | nil =>
    rw [List.infix_nil] at h
    exact absurd h htoken
  | found s _ =>
    rw [replaceAll_token_append htoken, List.length_append]
    exact Nat.le_add_right _ _
  | unit c s hnot ih =>
    rw [replaceAll_cons_of_unmatched hnot]
    rcases List.infix_cons_iff.mp h with hlead | hin
    · exact absurd hlead hnot
    · exact Nat.le_succ_of_le (ih hin)

theorem mem_replaceAll {value : Text} (h : c ∈ s.replaceAll token value) : c ∈ s ∨ c ∈ value := by
  induction s using replaceAll_induction htoken with
  | nil => cases h
  | found s ih =>
    rw [replaceAll_token_append htoken, List.mem_append] at h
    rcases h with hvalue | hrest
    · exact .inr hvalue
    · exact (ih hrest).imp_left (List.mem_append_right token)
  | unit d s hnot ih =>
    rw [replaceAll_cons_of_unmatched hnot, List.mem_cons] at h
    rcases h with rfl | hrest
    · exact .inl List.mem_cons_self
    · exact (ih hrest).imp_left (List.mem_cons_of_mem d)

/-- A token does not reach over a unit that it does not have. -/
theorem replaceAll_append_cons (hc : c ∉ token) (s rest value : Text) :
    (s ++ c :: rest).replaceAll token value
      = s.replaceAll token value ++ c :: rest.replaceAll token value := by
  induction s using replaceAll_induction htoken with
  | nil =>
    rw [List.nil_append, replaceAll_cons_of_unmatched]
    · rfl
    · intro hlead
      obtain ⟨t, token', rfl⟩ := List.exists_cons_of_ne_nil htoken
      exact hc (by simp [(List.cons_prefix_cons.mp hlead).1])
  | found s ih =>
    rw [List.append_assoc, replaceAll_token_append htoken, replaceAll_token_append htoken, ih,
      List.append_assoc]
  | unit d s hnot ih =>
    rw [List.cons_append, replaceAll_cons_of_unmatched, replaceAll_cons_of_unmatched hnot, ih,
      List.cons_append]
    intro hlead
    have hstop : (d :: s) ++ [c] <+: (d :: s) ++ c :: rest := ⟨rest, by simp⟩
    rcases List.prefix_or_prefix_of_prefix hlead hstop with hshort | hlong
    · rcases List.prefix_concat_iff.mp hshort with heq | hin
      · exact hc (heq ▸ by simp)
      · exact hnot hin
    · exact hc (hlong.subset (by simp))

theorem replaceAll_token_append_ne (hv : v ≠ []) (hw : w ≠ []) (hhead : v.head? ≠ w.head?)
    {r : Text} (hnot : ¬token <+: c :: s)
    (heqv : (token ++ r).replaceAll token v = replaceAll (c :: s) token v)
    (heqw : (token ++ r).replaceAll token w = replaceAll (c :: s) token w) : False := by
  have hfirst {value : Text} (hvalue : value ≠ [])
      (heq : (token ++ r).replaceAll token value = replaceAll (c :: s) token value) :
      value.head? = some c := by
    rw [replaceAll_token_append htoken, replaceAll_cons_of_unmatched hnot] at heq
    obtain ⟨d, rest, rfl⟩ := List.exists_cons_of_ne_nil hvalue
    rw [(List.cons.inj heq).1]
    rfl
  exact hhead ((hfirst hv heqv).trans (hfirst hw heqw).symm)

/-- **Two values that begin apart** tell every text from every other. -/
theorem eq_of_replaceAll_eq (hv : v ≠ []) (hw : w ≠ []) (hhead : v.head? ≠ w.head?) {r : Text}
    (heqv : r.replaceAll token v = s.replaceAll token v)
    (heqw : r.replaceAll token w = s.replaceAll token w) : r = s := by
  induction r using replaceAll_induction htoken generalizing s with
  | nil =>
    induction s using replaceAll_induction htoken with
    | nil => rfl
    | found s _ =>
      rw [replaceAll_token_append htoken] at heqv
      exact absurd (List.append_eq_nil_iff.mp heqv.symm).1 hv
    | unit c s hnot _ =>
      rw [replaceAll_cons_of_unmatched hnot] at heqv
      cases heqv
  | found r ih =>
    induction s using replaceAll_induction htoken with
    | nil =>
      rw [replaceAll_token_append htoken] at heqv
      exact absurd (List.append_eq_nil_iff.mp heqv).1 hv
    | found s _ =>
      rw [replaceAll_token_append htoken, replaceAll_token_append htoken] at heqv heqw
      rw [ih (List.append_cancel_left heqv) (List.append_cancel_left heqw)]
    | unit c s hnot _ =>
      exact (replaceAll_token_append_ne htoken hv hw hhead hnot heqv heqw).elim
  | unit c r hnot ih =>
    induction s using replaceAll_induction htoken with
    | nil =>
      rw [replaceAll_cons_of_unmatched hnot] at heqv
      cases heqv
    | found s _ =>
      exact (replaceAll_token_append_ne htoken hv hw hhead hnot heqv.symm heqw.symm).elim
    | unit d s hnot' _ =>
      rw [replaceAll_cons_of_unmatched hnot, replaceAll_cons_of_unmatched hnot'] at heqv heqw
      obtain ⟨rfl, hrest⟩ := List.cons.inj heqv
      rw [ih hrest (List.cons.inj heqw).2]

theorem includes_eq_false_of_replaceAll_eq (hv : v ≠ []) (hw : w ≠ []) (hhead : v.head? ≠ w.head?)
    (h : s.replaceAll token v = s.replaceAll token w) : s.includes token = false := by
  rw [← Bool.not_eq_true, includes_iff]
  induction s using replaceAll_induction htoken with
  | nil => exact fun hin => htoken (List.infix_nil.mp hin)
  | found s _ =>
    rw [replaceAll_token_append htoken, replaceAll_token_append htoken] at h
    obtain ⟨c, v, rfl⟩ := List.exists_cons_of_ne_nil hv
    obtain ⟨d, w, rfl⟩ := List.exists_cons_of_ne_nil hw
    exact absurd (congrArg some (List.cons.inj h).1) hhead
  | unit c s hnot ih =>
    rw [replaceAll_cons_of_unmatched hnot, replaceAll_cons_of_unmatched hnot] at h
    intro hin
    rcases List.infix_cons_iff.mp hin with hlead | hrest
    · exact hnot hlead
    · exact ih (List.cons.inj h).2 hrest

end Scan

end Ecma.Text
