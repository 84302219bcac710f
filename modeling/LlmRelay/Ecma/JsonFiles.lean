import LlmRelay.Ecma.JsonLayout
import LlmRelay.Ecma.JsonText
import LlmRelay.Ecma.Utf8RoundTrip

/-!
# JSON texts as bytes, and with white space

The text of a value is well formed, so it is read back from its bytes; and a text that is indented
is read back as the one that is not.

## Main results

* `Json.wellFormed_stringify`: `JSON.stringify` writes no unpaired surrogate;
* `Json.parse_bytesToText`: a value is read back from the bytes of its text;
* `Json.parse_stringifyIndented`: and from its indented text, as it stands in a file.
-/

namespace Ecma

theorem wellFormed_of_ascii {t : Text} (h : ∀ c ∈ t, c < 0x80) : WellFormed t := by
  refine wellFormed_of_forall fun c hc => ?_
  have hlt := UInt16.lt_iff_toNat_lt.mp (h c hc)
  simp only [isHighSurrogate, isLowSurrogate, Bool.and_eq_false_iff, decide_eq_false_iff_not,
    UInt16.le_iff_toNat_le, UInt16.reduceToNat] at hlt ⊢
  omega

theorem WellFormed.between {c d : CodeUnit} {t : Text} (hc : c < 0x80) (ht : WellFormed t)
    (hd : d < 0x80) : WellFormed (c :: t ++ [d]) := by
  have hone : ∀ {c : CodeUnit}, c < 0x80 → WellFormed [c] := fun hc =>
    wellFormed_of_ascii fun x hx => List.mem_singleton.mp hx ▸ hc
  exact ((hone hc).append ht).append (hone hd)

namespace Json

/-! ## No unpaired surrogate -/

theorem wellFormed_unicodeEscape (c : CodeUnit) : WellFormed (unicodeEscape c) := by
  have hunit : ∀ d < 16, hexUnit d < 0x80 := by decide
  have hc : c.toNat < 0x10000 := c.toNat_lt
  refine wellFormed_of_ascii ?_
  simp only [unicodeEscape, List.forall_mem_cons]
  exact ⟨by decide, by decide, hunit _ (by omega), hunit _ (by omega), hunit _ (by omega),
    hunit _ (by omega), List.forall_mem_nil _⟩

theorem wellFormed_of_all {t : Text} (h : (t.all fun c => decide (c < 0x80)) = true) :
    WellFormed t :=
  wellFormed_of_ascii fun c hc => of_decide_eq_true (List.all_eq_true.mp h c hc)

theorem wellFormed_quoteUnit {c : CodeUnit} (hhigh : isHighSurrogate c = false)
    (hlow : isLowSurrogate c = false) : WellFormed (quoteUnit c) := by
  rw [quoteUnit]
  split
  · rename_i h
    rcases h with rfl | rfl <;> exact wellFormed_of_all (by decide)
  -- the controls with a letter of their own
  iterate 5
    split
    · exact wellFormed_of_all (by decide)
  split
  · exact wellFormed_unicodeEscape c
  · exact wellFormed_unit hhigh hlow

theorem wellFormed_quoteBody (t : Text) : WellFormed (quoteBody t) := by
  induction t using quoteBody.induct with
  | case1 => exact wellFormed_nil
  | case2 c hhigh =>
    rw [quoteBody.eq_def]
    simp only [hhigh, if_true]
    exact wellFormed_unicodeEscape c
  | case3 c hhigh d rest' hlow ih =>
    rw [quoteBody.eq_def]
    simp only [hhigh, hlow, if_true]
    exact (wellFormed_pair hhigh hlow).append ih
  | case4 c hhigh d rest' hlow ih =>
    rw [quoteBody.eq_def]
    simp only [hhigh, if_true]
    rw [if_neg hlow]
    exact (wellFormed_unicodeEscape c).append ih
  | case5 c rest hhigh hlow ih =>
    rw [quoteBody.eq_def]
    simp only [hlow, if_true]
    rw [if_neg hhigh]
    exact (wellFormed_unicodeEscape c).append ih
  | case6 c rest hhigh hlow ih =>
    rw [quoteBody.eq_def]
    simp only
    rw [if_neg hhigh, if_neg hlow]
    exact (wellFormed_quoteUnit (Bool.eq_false_iff.mpr hhigh) (Bool.eq_false_iff.mpr hlow)).append
      ih

theorem wellFormed_quote (t : Text) : WellFormed (quote t) :=
  WellFormed.between (by decide) (wellFormed_quoteBody t) (by decide)

mutual
/-- **The text of a value** is well formed. -/
theorem wellFormed_stringify (v : Json) : WellFormed v.stringify := by
  match v with
  | .null => exact wellFormed_of_all (by decide)
  | .bool true => exact wellFormed_of_all (by decide)
  | .bool false => exact wellFormed_of_all (by decide)
  | .num x =>
    rw [stringify]
    split
    · cases x with
      | fin q => exact wellFormed_of_ascii (Number.forall_mem_toText (by decide)
          (Number.forall_mem_marks (by decide) (by decide) (by decide) (by decide)) q)
      | nan => exact wellFormed_of_all (by decide)
      | posInf => exact wellFormed_of_all (by decide)
      | negInf => exact wellFormed_of_all (by decide)
    · exact wellFormed_of_all (by decide)
  | .str s => exact wellFormed_quote s
  | .arr items => exact WellFormed.between (by decide) (wellFormed_stringifyItems items) (by decide)
  | .obj fields =>
    exact WellFormed.between (by decide) (wellFormed_stringifyFields fields) (by decide)

theorem wellFormed_stringifyItems (items : List Json) : WellFormed (stringifyItems items) := by
  match items with
  | [] => exact wellFormed_nil
  | [v] => exact wellFormed_stringify v
  | v :: w :: rest =>
    have hcomma : WellFormed [0x2C] := wellFormed_of_all (by decide)
    exact (wellFormed_stringify v).append (hcomma.append (wellFormed_stringifyItems (w :: rest)))

theorem wellFormed_stringifyFields (fields : List (Text × Json)) :
    WellFormed (stringifyFields fields) := by
  have hcolon : WellFormed [0x3A] := wellFormed_of_all (by decide)
  match fields with
  | [] => exact wellFormed_nil
  | [(k, v)] => exact (wellFormed_quote k).append (hcolon.append (wellFormed_stringify v))
  | (k, v) :: p :: rest =>
    have hcomma : WellFormed [0x2C] := wellFormed_of_all (by decide)
    exact ((wellFormed_quote k).append (hcolon.append (wellFormed_stringify v))).append
      (hcomma.append (wellFormed_stringifyFields (p :: rest)))
end

variable {v : Json} {w : Text}

/-- **A value** is read back from the bytes of its text. -/
theorem parse_bytesToText (h : v.Normal) :
    parse (bytesToText (encodeUtf8 v.stringify)) = some v := by
  rw [bytesToText_encodeUtf8, (wellFormed_stringify v).toWellFormed_eq, parse_stringify h]

/-! ## White space -/

theorem isSpace_lineBreak (indent : Nat) : ∀ c ∈ lineBreak indent, isSpace c = true := by
  intro c hc
  rcases List.mem_cons.mp hc with rfl | hc
  · decide
  · rw [List.eq_of_mem_replicate hc]
    decide

variable {gap indent : Nat} (outer : Nat)

theorem readsItems_layoutItems {v : Json} {rest : List Json}
    (h : ∀ x ∈ v :: rest, ReadsAs (layoutValue gap indent x) x.reread) :
    ReadsAsItems (layoutItems gap indent (v :: rest) ++ lineBreak outer)
      ((v :: rest).map reread) := by
  induction rest generalizing v with
  | nil => exact (h v List.mem_cons_self).singleton (isSpace_lineBreak outer)
  | cons w rest ih =>
    have hrest := ih fun x hx => h x (List.mem_cons_of_mem v hx)
    simpa [layoutItems] using (h v List.mem_cons_self).cons (isSpace_lineBreak indent) hrest

theorem readsFields_layoutFields {p : Text × Json} {rest : List (Text × Json)}
    (h : ∀ q ∈ p :: rest, ReadsAs (layoutValue gap indent q.2) q.2.reread) :
    ReadsAsFields (layoutFields gap indent (p :: rest) ++ lineBreak outer)
      ((p :: rest).map fun q => (q.1, q.2.reread)) := by
  have hspace : ∀ c ∈ [space], isSpace c = true := List.forall_mem_singleton.mpr rfl
  induction rest generalizing p with
  | nil =>
    exact (h p List.mem_cons_self).property hspace p.1 (isSpace_lineBreak outer)
  | cons q rest ih =>
    have hrest := ih fun x hx => h x (List.mem_cons_of_mem p hx)
    simpa [layoutFields] using
      (h p List.mem_cons_self).property_cons hspace p.1 (isSpace_lineBreak indent) hrest

/-- **A value that is laid out** reads back. -/
theorem reads_layoutValue (h : v.Proper) (gap indent : Nat) :
    ReadsAs (layoutValue gap indent v) v.reread := by
  induction h generalizing indent with
  | null => exact reads_null
  | bool b => exact reads_bool b
  | num h => exact reads_stringify (.num h)
  | str s => exact reads_str s
  | @arr items _ ih =>
    cases items with
    | nil => exact reads_nil.1
    | cons v rest =>
      have hitems := readsItems_layoutItems indent fun x hx => ih x hx (indent + gap)
      rw [layoutValue, reread_arr]
      simpa using hitems.arr (isSpace_lineBreak (indent + gap))
  | @obj fields _ _ ih =>
    cases fields with
    | nil => exact reads_nil.2
    | cons p rest =>
      have hfields := readsFields_layoutFields indent fun q hq => ih q hq (indent + gap)
      rw [layoutValue, reread_obj]
      simpa using hfields.obj (isSpace_lineBreak (indent + gap))

/-- **A file** that holds an indented text reads back. -/
theorem parse_stringifyIndented {v : Json} (h : v.Normal) (gap : Nat) {w : Text}
    (hw : ∀ c ∈ w, isSpace c = true) : parse (stringifyIndented gap v ++ w) = some v := by
  obtain ⟨hproper, heq⟩ := h.reread_eq
  have hreads : ReadsAs (stringifyIndented gap v) v.reread := by
    rw [stringifyIndented]
    split
    · exact reads_stringify hproper
    · exact reads_layoutValue hproper _ 0
  rw [hreads.parse hw, heq]

end Json

end Ecma
