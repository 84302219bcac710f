import LlmRelay.Ecma.JsonRoundTrip

/-!
# The characters of a JSON text

`JSON.stringify` without a `space` argument writes no control character, so its text is a single
line, and the text of a property stands in the text of its object.

## Main definitions

* `Printable`: no code unit is a control character.

## Main results

* `splitLines_join`: printable lines are read back;
* `Json.printable_stringify`: the text of a value is printable;
* `Json.trim_stringify_obj`: the text of an object has no white space around it;
* `Json.quoteBody_infix_stringify`: the characters of a string property stand in the text of
  its object.
-/

namespace Ecma

/-- No code unit is a control character. -/
def Printable (t : Text) : Prop :=
  ∀ c ∈ t, 0x20 ≤ c

instance (t : Text) : Decidable (Printable t) :=
  List.decidableBAll (fun c => 0x20 ≤ c) t

@[simp] theorem printable_nil : Printable [] :=
  fun _ h => by cases h

@[simp] theorem printable_cons {c : CodeUnit} {t : Text} :
    Printable (c :: t) ↔ 0x20 ≤ c ∧ Printable t := by
  simp [Printable]

@[simp] theorem printable_append {t u : Text} : Printable (t ++ u) ↔ Printable t ∧ Printable u := by
  simp only [Printable, List.mem_append]
  constructor
  · intro h
    exact ⟨fun c hc => h c (.inl hc), fun c hc => h c (.inr hc)⟩
  · rintro ⟨ht, hu⟩ c (hc | hc)
    · exact ht c hc
    · exact hu c hc

theorem Printable.not_mem {t : Text} (h : Printable t) {c : CodeUnit} (hc : c < 0x20) : c ∉ t := by
  intro hmem
  have hle := h c hmem
  rw [UInt16.le_iff_toNat_le] at hle
  rw [UInt16.lt_iff_toNat_lt] at hc
  omega

/-- Printable lines, joined and split again. -/
theorem splitLines_join {lines : List Text} (hne : lines ≠ []) (h : ∀ line ∈ lines, Printable line) :
    (Text.join [lf] lines).splitLines = lines := by
  have hlf : ∀ line ∈ lines, List.splitOn lf line = [line] := fun line hline =>
    List.splitOn_eq_singleton ((h line hline).not_mem (by decide))
  have hcr : ∀ line ∈ lines, Text.dropTrailingCr line = line := by
    intro line hline
    rw [Text.dropTrailingCr, if_neg]
    intro hlast
    exact (h line hline).not_mem (by decide : cr < 0x20) (List.mem_of_getLast? hlast)
  have hpieces : List.splitOn lf (Text.join [lf] lines) = lines := by
    rw [Text.splitOn_join lf hne, List.flatMap_congr hlf, List.flatMap_singleton']
  rw [Text.splitLines, hpieces]
  rw [List.map_congr_left fun line hline => hcr line (List.dropLast_subset _ hline), List.map_id',
    List.getLast?_eq_some_getLast hne]
  exact List.dropLast_append_getLast hne

/-! ## Numbers -/

namespace Number

section Units

variable {P : CodeUnit → Prop}

theorem forall_mem_digitText (hdigit : ∀ d < 10, P (digitUnit d)) {ds : List Nat}
    (h : ∀ d ∈ ds, d < 10) : ∀ c ∈ digitText ds, P c := by
  intro c hc
  obtain ⟨d, hd, rfl⟩ := List.mem_map.mp hc
  exact hdigit d (h d hd)

theorem forall_mem_natText (hdigit : ∀ d < 10, P (digitUnit d)) (n : Nat) :
    ∀ c ∈ natText n, P c := by
  rw [natText]
  split
  · have hzero : ∀ d ∈ [0], d < 10 := by decide
    exact forall_mem_digitText hdigit hzero
  · exact forall_mem_digitText hdigit fun d hd => lt_of_mem_digitsOf hd

end Units

theorem natText_injective : Function.Injective natText := by
  refine Function.LeftInverse.injective (g := fun t => ofDigits (t.map digitValue)) fun n => ?_
  show ofDigits ((natText n).map digitValue) = n
  rw [natText]
  split
  · rename_i hzero
    rw [hzero]
    decide
  · have hvalues : (digitText (digitsOf n)).map digitValue = digitsOf n := by
      rw [digitText, List.map_map]
      conv_rhs => rw [← List.map_id (digitsOf n)]
      exact List.map_congr_left fun d hd => digitValue_digitUnit (lt_of_mem_digitsOf hd)
    rw [hvalues, ofDigits_digitsOf]

theorem lt_of_mem_ofScaled {s d : Nat} {e : ℤ} (h : d ∈ (Decimal.ofScaled s e).digits) : d < 10 := by
  obtain ⟨k, hk⟩ := trimmed_append (digitsOf s)
  refine lt_of_mem_digitsOf (n := s) ?_
  rw [hk]
  exact List.mem_append_left _ h

theorem lt_of_mem_shortest {a : ℚ} {d : Nat} (h : d ∈ (shortest a).digits) : d < 10 := by
  rw [shortest] at h
  cases hfind : ((List.range 17).flatMap fun k => candidates a (k + 1)).find?
      fun d => decide (roundMagnitude d.value = .fin a) with
  | none =>
    rw [hfind] at h
    exact lt_of_mem_ofScaled h
  | some decimal =>
    rw [hfind] at h
    obtain ⟨k, -, hmem⟩ := List.mem_flatMap.mp (List.mem_of_find?_eq_some hfind)
    simp only [candidates, List.mem_cons, List.not_mem_nil, or_false] at hmem
    rcases hmem with rfl | rfl
    · exact lt_of_mem_ofScaled h
    · exact lt_of_mem_ofScaled h

variable {P : CodeUnit → Prop}

theorem forall_mem_layout (hdigit : ∀ d < 10, P (digitUnit d))
    (hmark : ∀ c ∈ text ".e+-", P c) {d : Decimal} (h : ∀ x ∈ d.digits, x < 10) :
    ∀ c ∈ layout d, P c := by
  have happend : ∀ {t u : Text}, (∀ c ∈ t, P c) → (∀ c ∈ u, P c) → ∀ c ∈ t ++ u, P c := by
    intro t u ht hu c hc
    rcases List.mem_append.mp hc with hc | hc
    · exact ht c hc
    · exact hu c hc
  have hone : ∀ {c}, P c → ∀ x ∈ [c], P x := fun hc x hx => List.mem_singleton.mp hx ▸ hc
  have hzeros : ∀ k, ∀ c ∈ List.replicate k (digitUnit 0), P c := by
    intro k c hc
    rw [List.eq_of_mem_replicate hc]
    exact hdigit 0 (by decide)
  have htake : ∀ k, ∀ c ∈ digitText (d.digits.take k), P c := fun k =>
    forall_mem_digitText hdigit fun x hx => h x (List.mem_of_mem_take hx)
  have hdrop : ∀ k, ∀ c ∈ digitText (d.digits.drop k), P c := fun k =>
    forall_mem_digitText hdigit fun x hx => h x (List.mem_of_mem_drop hx)
  have hpoint : ∀ c ∈ text ".", P c := hone (hmark _ (by decide))
  rw [layout]
  split
  · exact happend (forall_mem_digitText hdigit h) (hzeros _)
  split
  · exact happend (happend (htake _) hpoint) (hdrop _)
  split
  · have hzero : ∀ c ∈ text "0.", P c :=
      List.forall_mem_cons.mpr ⟨hdigit 0 (by decide), hpoint⟩
    exact happend (happend hzero (hzeros _)) (forall_mem_digitText hdigit h)
  · have hexp : ∀ c ∈ text "e", P c := hone (hmark _ (by decide))
    have hsign : ∀ e : ℤ, ∀ c ∈ (if 0 ≤ e then text "+" else text "-"), P c := by
      intro e
      split
      · exact hone (hmark _ (by decide))
      · exact hone (hmark _ (by decide))
    have hfraction : ∀ c ∈ (if d.digits.length = 1 then []
        else text "." ++ digitText (d.digits.drop 1)), P c := by
      split
      · exact List.forall_mem_nil _
      · exact happend hpoint (hdrop _)
    exact happend (happend (happend (happend (htake 1) hfraction) hexp) (hsign _))
      (forall_mem_natText hdigit _)

theorem forall_mem_marks (hdot : P 0x2E) (he : P 0x65) (hplus : P 0x2B)
    (hminus : P 0x2D) : ∀ c ∈ text ".e+-", P c := by
  intro c hc
  rcases List.mem_cons.mp hc with rfl | hc
  · exact hdot
  rcases List.mem_cons.mp hc with rfl | hc
  · exact he
  rcases List.mem_cons.mp hc with rfl | hc
  · exact hplus
  · exact List.mem_singleton.mp hc ▸ hminus

theorem forall_mem_toText (hdigit : ∀ d < 10, P (digitUnit d))
    (hmark : ∀ c ∈ text ".e+-", P c) (q : ℚ) : ∀ c ∈ (Number.fin q).toText, P c := by
  have hlayout : ∀ a : ℚ, ∀ c ∈ layout (shortest a), P c := fun a =>
    forall_mem_layout hdigit hmark fun x hx => lt_of_mem_shortest hx
  rw [toText]
  split
  · exact forall_mem_natText hdigit 0
  split
  · exact List.forall_mem_cons.mpr ⟨hmark _ (by decide), hlayout _⟩
  · exact hlayout q

/-- **The text of a number** is printable. -/
theorem printable_toText (x : Number) : Printable x.toText := by
  cases x with
  | fin q =>
    exact forall_mem_toText (by decide)
      (forall_mem_marks (by decide) (by decide) (by decide) (by decide)) q
  | nan => decide
  | posInf => decide
  | negInf => decide

end Number

/-! ## Strings -/

namespace Json

theorem printable_unicodeEscape (c : CodeUnit) : Printable (unicodeEscape c) := by
  have hunit : ∀ d < 16, (0x20 : CodeUnit) ≤ hexUnit d := by decide
  have hc : c.toNat < 0x10000 := c.toNat_lt
  simp only [unicodeEscape, printable_cons, printable_nil, and_true]
  refine ⟨by decide, by decide, hunit _ (by omega), hunit _ (by omega), hunit _ (by omega),
    hunit _ (by omega)⟩

theorem printable_quoteUnit (c : CodeUnit) : Printable (quoteUnit c) := by
  rw [quoteUnit]
  split
  · rename_i h
    rcases h with rfl | rfl <;> decide
  -- the controls with a letter of their own
  iterate 5
    split
    · decide
  split
  · exact printable_unicodeEscape c
  · rename_i h
    simp only [printable_cons, printable_nil, and_true]
    rw [UInt16.lt_iff_toNat_lt] at h
    rw [UInt16.le_iff_toNat_le]
    omega

theorem le_of_surrogate {c : CodeUnit} (h : isHighSurrogate c = true ∨ isLowSurrogate c = true) :
    0x20 ≤ c := by
  have hhigh : (0xD800 : CodeUnit).toNat = 0xD800 := rfl
  have hlow : (0xDC00 : CodeUnit).toNat = 0xDC00 := rfl
  have hspace : (0x20 : CodeUnit).toNat = 0x20 := rfl
  simp only [isHighSurrogate, isLowSurrogate, Bool.and_eq_true, decide_eq_true_eq,
    UInt16.le_iff_toNat_le] at h ⊢
  omega

theorem printable_quoteBody (t : Text) : Printable (quoteBody t) := by
  induction t using quoteBody.induct with
  | case1 => exact printable_nil
  | case2 c hhigh =>
    rw [quoteBody.eq_def]
    simp only [hhigh]
    exact printable_unicodeEscape c
  | case3 c hhigh d rest' hlow ih =>
    rw [quoteBody.eq_def]
    simp only [hhigh, hlow, if_true, printable_cons]
    exact ⟨le_of_surrogate (.inl hhigh), le_of_surrogate (.inr hlow), ih⟩
  | case4 c hhigh d rest' hlow ih =>
    rw [quoteBody.eq_def]
    simp only [hhigh]
    rw [if_neg hlow]
    exact printable_append.mpr ⟨printable_unicodeEscape c, ih⟩
  | case5 c rest hhigh hlow ih =>
    rw [quoteBody.eq_def]
    simp only [hlow]
    rw [if_neg hhigh]
    exact printable_append.mpr ⟨printable_unicodeEscape c, ih⟩
  | case6 c rest hhigh hlow ih =>
    rw [quoteBody.eq_def]
    simp only
    rw [if_neg hhigh, if_neg hlow]
    exact printable_append.mpr ⟨printable_quoteUnit c, ih⟩

theorem printable_quote (t : Text) : Printable (quote t) := by
  rw [quote, printable_append, printable_cons]
  exact ⟨⟨by decide, printable_quoteBody t⟩, by decide⟩

/-! ## Values -/

mutual
/-- **The text of a value** is printable. -/
theorem printable_stringify (v : Json) : Printable v.stringify := by
  match v with
  | .null => decide
  | .bool true => decide
  | .bool false => decide
  | .num x =>
    rw [stringify]
    split
    · exact Number.printable_toText x
    · decide
  | .str s => exact printable_quote s
  | .arr items =>
    rw [stringify, printable_append, printable_cons]
    exact ⟨⟨by decide, printable_stringifyItems items⟩, by decide⟩
  | .obj fields =>
    rw [stringify, printable_append, printable_cons]
    exact ⟨⟨by decide, printable_stringifyFields fields⟩, by decide⟩

theorem printable_stringifyItems (items : List Json) : Printable (stringifyItems items) := by
  match items with
  | [] => exact printable_nil
  | [v] => exact printable_stringify v
  | v :: w :: rest =>
    rw [stringifyItems, printable_append, printable_cons]
    exact ⟨printable_stringify v, by decide, printable_stringifyItems (w :: rest)⟩

theorem printable_stringifyFields (fields : List (Text × Json)) :
    Printable (stringifyFields fields) := by
  match fields with
  | [] => exact printable_nil
  | [(k, v)] =>
    rw [stringifyFields, printable_append, printable_cons]
    exact ⟨printable_quote k, by decide, printable_stringify v⟩
  | (k, v) :: p :: rest =>
    rw [stringifyFields]
    simp only [printable_append, printable_cons]
    exact ⟨⟨printable_quote k, by decide, printable_stringify v⟩, by decide,
      printable_stringifyFields (p :: rest)⟩
end

/-- **The text of an object** has no white space around it. -/
theorem trim_stringify_obj (fields : List (Text × Json)) :
    (obj fields).stringify.trim = (obj fields).stringify := by
  have hopen : isWhitespace 0x7B = false := by decide
  have hclose : isWhitespace 0x7D = false := by decide
  rw [Text.trim, Text.trimStart, stringify, List.cons_append, List.dropWhile_cons, hopen]
  simp only [Bool.false_eq_true, if_false]
  rw [Text.trimEnd, ← List.cons_append, List.reverse_append, List.reverse_singleton,
    List.singleton_append, List.dropWhile_cons, hclose]
  simp

/-! ## Properties -/

theorem string?_eq_some_iff {v : Option Json} {s : Text} :
    string? v = some s ↔ v = some (.str s) := by
  constructor
  · intro h
    match v, h with
    | some (.str t), h => rw [Option.some.inj h]
  · rintro rfl
    rfl

theorem infix_stringifyFields {fields : List (Text × Json)} {k : Text} {v : Json}
    (h : lookupEntry k fields = some v) : v.stringify <:+: stringifyFields fields := by
  match fields with
  | [] => cases h
  | [(k', w)] =>
    rw [lookupEntry] at h
    split at h
    · cases h
      exact ⟨quote k' ++ [0x3A], [], by simp [stringifyFields]⟩
    · cases h
  | (k', w) :: p :: rest =>
    rw [stringifyFields]
    rw [lookupEntry] at h
    split at h
    · cases h
      exact ⟨quote k' ++ [0x3A], 0x2C :: stringifyFields (p :: rest), by simp⟩
    · obtain ⟨before, after, heq⟩ := infix_stringifyFields h
      exact ⟨quote k' ++ 0x3A :: w.stringify ++ 0x2C :: before, after, by simp [← heq]⟩

/-- The text of a property stands in that of its object. -/
theorem infix_stringify {v w : Json} {k : Text} (h : v.get? k = some w) :
    w.stringify <:+: v.stringify := by
  match v with
  | .obj fields =>
    rw [stringify]
    exact (infix_stringifyFields h).trans ⟨[0x7B], [0x7D], by simp⟩

/-- **The characters of a string property** stand in the text of its object. -/
theorem quoteBody_infix_stringify {v : Json} {k s : Text} (h : v.get? k = some (.str s)) :
    quoteBody s <:+: v.stringify := by
  refine List.IsInfix.trans ?_ (infix_stringify h)
  exact ⟨[0x22], [0x22], by simp [stringify, quote]⟩

end Json

end Ecma
