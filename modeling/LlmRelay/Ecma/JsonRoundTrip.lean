import LlmRelay.Ecma.Decimals

/-!
# JSON texts read back

`JSON.parse` undoes `JSON.stringify`, up to what a JSON text does not keep: the numbers that are
not finite, and the order of properties. How a text is read is put together from its parts, with
white space between them, so that every printer shares it.

## Main definitions

* `Json.Proper`: the values, with binary64 numbers and distinct keys;
* `Json.rebuild`, `Json.reread`: what is read back from the text of a value;
* `Json.Normal`: the values that are read back as they are;
* `Json.ReadsAs`: a text reads as a value, in front of any text that ends it.

## Main results

* `Json.stringBody?_quoteBody`: a string reads back;
* `Json.reads_stringify`: so does a value;
* `Json.parse_stringify`: so does a whole text.
-/

namespace Ecma

/-! ## Keys -/

theorem perm_insertProperty (k : Text) (v : Json) (fields : List (Text × Json)) :
    (insertProperty k v fields).Perm ((k, v) :: fields) := by
  induction fields with
  | nil => exact .refl _
  | cons p rest ih =>
    have htail : (p :: insertProperty k v rest).Perm ((k, v) :: p :: rest) :=
      (ih.cons p).trans (.swap (k, v) p rest)
    rw [insertProperty]
    split
    · split
      · exact .refl _
      · exact htail
    · exact .refl _
    · exact htail

variable {fields acc : List (Text × Json)} {k : Text}

theorem nodup_setProperty (k : Text) (v : Json) (h : (fields.map Prod.fst).Nodup) :
    ((setProperty fields k v).map Prod.fst).Nodup := by
  rw [setProperty]
  split
  · exact nodup_setEntry k v h
  · rename_i hnone
    rw [((perm_insertProperty k v fields).map Prod.fst).nodup_iff, List.map_cons, List.nodup_cons]
    refine ⟨fun hmem => ?_, h⟩
    rw [Bool.not_eq_true, Option.isSome_eq_false_iff, Option.isNone_iff_eq_none,
      lookupEntry_eq_none_iff] at hnone
    exact hnone hmem

theorem nodup_foldl_setProperty (fields : List (Text × Json)) (h : (acc.map Prod.fst).Nodup) :
    ((fields.foldl (fun acc p => setProperty acc p.1 p.2) acc).map Prod.fst).Nodup := by
  induction fields generalizing acc with
  | nil => exact h
  | cons p rest ih => exact ih (nodup_setProperty p.1 p.2 h)

theorem setProperty_of_nodup {p : Text × Json} {rest : List (Text × Json)}
    (h : ((acc ++ p :: rest).map Prod.fst).Nodup) :
    setProperty acc p.1 p.2 = insertProperty p.1 p.2 acc := by
  rw [List.map_append, List.map_cons] at h
  have hnew : lookupEntry p.1 acc = none := lookupEntry_eq_none_iff.mpr fun hmem =>
    (List.nodup_append.mp h).2.2 _ hmem _ List.mem_cons_self rfl
  rw [setProperty, hnew]
  rfl

/-- Assigning distinct properties reorders them. -/
theorem perm_foldl_setProperty (h : ((acc ++ fields).map Prod.fst).Nodup) :
    (fields.foldl (fun acc p => setProperty acc p.1 p.2) acc).Perm (acc ++ fields) := by
  induction fields generalizing acc with
  | nil => rw [List.foldl_nil, List.append_nil]
  | cons p rest ih =>
    have hperm : (insertProperty p.1 p.2 acc ++ rest).Perm (acc ++ p :: rest) :=
      ((perm_insertProperty p.1 p.2 acc).append_right rest).trans List.perm_middle.symm
    rw [List.foldl_cons, setProperty_of_nodup h]
    exact (ih ((hperm.map Prod.fst).nodup_iff.mpr h)).trans hperm

namespace Json

/-! ## Strings -/

theorem hexValue?_hexUnit {d : Nat} (h : d < 16) : hexValue? (hexUnit d) = some d := by
  revert h d
  decide

theorem hex4?_unicodeEscape (c : CodeUnit) :
    hex4? (hexUnit (c.toNat / 0x1000)) (hexUnit (c.toNat / 0x100 % 0x10))
      (hexUnit (c.toNat / 0x10 % 0x10)) (hexUnit (c.toNat % 0x10)) = some c := by
  have hc : c.toNat < 0x10000 := c.toNat_lt
  have hsum : 0x1000 * (c.toNat / 0x1000) + 0x100 * (c.toNat / 0x100 % 0x10)
      + 0x10 * (c.toNat / 0x10 % 0x10) + c.toNat % 0x10 = c.toNat := by omega
  rw [hex4?, hexValue?_hexUnit (by omega), hexValue?_hexUnit (by omega),
    hexValue?_hexUnit (by omega), hexValue?_hexUnit (by omega)]
  simp only [hsum]
  rw [Nat.toUInt16_eq, UInt16.ofNat_toNat]

theorem stringBody?_unicodeEscape (c : CodeUnit) (t : Text) :
    stringBody? (unicodeEscape c ++ t) = (stringBody? t).map (consUnit c) := by
  have hquote : ¬ (0x5C : CodeUnit) = 0x22 := by decide
  simp only [unicodeEscape, List.cons_append, List.nil_append]
  rw [stringBody?, if_neg hquote, if_pos rfl]
  simp only [if_true, hex4?_unicodeEscape]

/-- The closing quote. -/
theorem stringBody?_quote (t : Text) : stringBody? (0x22 :: t) = some ([], t) := by
  rw [stringBody?.eq_def]
  simp only [if_true]

variable {c : CodeUnit}

theorem stringBody?_cons (hquote : c ≠ 0x22) (hbackslash : c ≠ 0x5C)
    (hcontrol : ¬ c < 0x20) (t : Text) :
    stringBody? (c :: t) = (stringBody? t).map (consUnit c) := by
  rw [stringBody?.eq_def]
  simp only [hquote, hbackslash, hcontrol, if_false]

theorem stringBody?_escape {e c : CodeUnit} (he : escape? e = some c) (hu : e ≠ 0x75) (t : Text) :
    stringBody? (0x5C :: e :: t) = (stringBody? t).map (consUnit c) := by
  have hquote : ¬ (0x5C : CodeUnit) = 0x22 := by decide
  rw [stringBody?.eq_def]
  simp only [hquote, if_false, if_true, hu, he]

theorem stringBody?_quoteUnit (c : CodeUnit) (t : Text) :
    stringBody? (quoteUnit c ++ t) = (stringBody? t).map (consUnit c) := by
  rw [quoteUnit]
  split
  · rename_i h
    rcases h with rfl | rfl
    · exact stringBody?_escape (by decide) (by decide) t
    · exact stringBody?_escape (by decide) (by decide) t
  · rename_i hquote
    rw [not_or] at hquote
    split
    · rename_i h
      subst h
      exact stringBody?_escape (by decide) (by decide) t
    split
    · rename_i h
      subst h
      exact stringBody?_escape (by decide) (by decide) t
    split
    · rename_i h
      subst h
      exact stringBody?_escape (by decide) (by decide) t
    split
    · rename_i h
      subst h
      exact stringBody?_escape (by decide) (by decide) t
    split
    · rename_i h
      subst h
      exact stringBody?_escape (by decide) (by decide) t
    split
    · exact stringBody?_unicodeEscape c t
    · rename_i hcontrol
      exact stringBody?_cons hquote.1 hquote.2 hcontrol t

theorem stringBody?_surrogate (h : isHighSurrogate c = true ∨ isLowSurrogate c = true) (t : Text) :
    stringBody? (c :: t) = (stringBody? t).map (consUnit c) := by
  refine stringBody?_cons ?_ ?_ ?_ t
  · rintro rfl
    revert h
    decide
  · rintro rfl
    revert h
    decide
  · intro hcontrol
    have hhigh : (0xD800 : CodeUnit).toNat = 0xD800 := rfl
    have hlow : (0xDC00 : CodeUnit).toNat = 0xDC00 := rfl
    have hspace : (0x20 : CodeUnit).toNat = 0x20 := rfl
    rw [UInt16.lt_iff_toNat_lt] at hcontrol
    simp only [isHighSurrogate, isLowSurrogate, Bool.and_eq_true, decide_eq_true_eq,
      UInt16.le_iff_toNat_le] at h
    omega

/-- **A string** reads back. -/
theorem stringBody?_quoteBody (s t : Text) :
    stringBody? (quoteBody s ++ 0x22 :: t) = some (s, t) := by
  induction s using quoteBody.induct with
  | case1 => exact stringBody?_quote t
  | case2 c hhigh =>
    rw [quoteBody.eq_def]
    simp only [hhigh, if_true]
    rw [stringBody?_unicodeEscape, stringBody?_quote]
    rfl
  | case3 c hhigh d rest' hlow ih =>
    rw [quoteBody.eq_def]
    simp only [hhigh, hlow, if_true]
    rw [List.cons_append, List.cons_append, stringBody?_surrogate (.inl hhigh),
      stringBody?_surrogate (.inr hlow), ih]
    rfl
  | case4 c hhigh d rest' hlow ih =>
    rw [quoteBody.eq_def]
    simp only [hhigh, if_true]
    rw [if_neg hlow, List.append_assoc, stringBody?_unicodeEscape, ih]
    rfl
  | case5 c rest hhigh hlow ih =>
    rw [quoteBody.eq_def]
    simp only [hlow, if_true]
    rw [if_neg hhigh, List.append_assoc, stringBody?_unicodeEscape, ih]
    rfl
  | case6 c rest hhigh hlow ih =>
    rw [quoteBody.eq_def]
    simp only
    rw [if_neg hhigh, if_neg hlow, List.append_assoc, stringBody?_quoteUnit, ih]
    rfl

/-! ## Values -/

/-- The values that a JSON text can have: numbers are binary64 values or not finite, and the keys
of an object are distinct. -/
inductive Proper : Json → Prop
  | null : Proper null
  | bool (b : Bool) : Proper (bool b)
  | num {x : Number} (h : ∀ q, x = .fin q → IsDouble q) : Proper (num x)
  | str (s : Text) : Proper (str s)
  | arr {items : List Json} (h : ∀ v ∈ items, Proper v) : Proper (arr items)
  | obj {fields : List (Text × Json)} (hkeys : (fields.map Prod.fst).Nodup)
      (h : ∀ p ∈ fields, Proper p.2) : Proper (obj fields)

section Rebuild

variable (arrange : List (Text × Json) → List (Text × Json))

mutual
/-- Turns the numbers that are not finite into null, and arranges the properties of objects. -/
def rebuild : Json → Json
  | num x => if x.isFinite then num x else null
  | arr items => arr (rebuildItems items)
  | obj fields => obj (arrange (rebuildFields fields))
  | v => v

/-- Rebuilds the elements. -/
def rebuildItems : List Json → List Json
  | [] => []
  | v :: rest => rebuild v :: rebuildItems rest

/-- Rebuilds the values of the properties. -/
def rebuildFields : List (Text × Json) → List (Text × Json)
  | [] => []
  | (k, v) :: rest => (k, rebuild v) :: rebuildFields rest
end

theorem rebuildItems_eq (items : List Json) :
    rebuildItems arrange items = items.map (rebuild arrange) := by
  induction items with
  | nil => rfl
  | cons v rest ih => rw [rebuildItems, ih, List.map_cons]

theorem rebuildFields_eq (fields : List (Text × Json)) :
    rebuildFields arrange fields = fields.map fun p => (p.1, rebuild arrange p.2) := by
  induction fields with
  | nil => rfl
  | cons p rest ih => rw [rebuildFields, ih, List.map_cons]

end Rebuild

/-- The properties in enumeration order. -/
def enumerate (fields : List (Text × Json)) : List (Text × Json) :=
  fields.foldl (fun acc p => setProperty acc p.1 p.2) []

/-- The value that is read back from the text of a value. -/
def reread : Json → Json :=
  rebuild enumerate

theorem reread_arr (items : List Json) : (arr items).reread = arr (items.map reread) :=
  congrArg arr (rebuildItems_eq enumerate items)

theorem reread_obj (fields : List (Text × Json)) :
    (obj fields).reread = obj (enumerate (fields.map fun p => (p.1, p.2.reread))) :=
  congrArg (fun fields => obj (enumerate fields)) (rebuildFields_eq enumerate fields)

mutual
/-- Numbers are binary64 values, and properties are in enumeration order. -/
def Normal : Json → Prop
  | num x => ∃ q, x = .fin q ∧ IsDouble q
  | arr items => NormalItems items
  | obj fields =>
    fields.foldl (fun acc p => setProperty acc p.1 p.2) [] = fields ∧ NormalFields fields
  | _ => True

/-- All the elements are normal. -/
def NormalItems : List Json → Prop
  | [] => True
  | v :: rest => Normal v ∧ NormalItems rest

/-- The values of all the properties are normal. -/
def NormalFields : List (Text × Json) → Prop
  | [] => True
  | (_, v) :: rest => Normal v ∧ NormalFields rest
end

mutual
/-- **A normal value** is proper, and reads back as it is. -/
theorem Normal.reread_eq {v : Json} (h : v.Normal) : v.Proper ∧ v.reread = v := by
  match v with
  | null => exact ⟨.null, rfl⟩
  | bool b => exact ⟨.bool b, rfl⟩
  | num x =>
    obtain ⟨q, rfl, hq⟩ := h
    exact ⟨.num fun q' hq' => Number.fin.inj hq' ▸ hq, rfl⟩
  | str s => exact ⟨.str s, rfl⟩
  | arr items =>
    obtain ⟨hproper, heq⟩ := NormalItems.reread_eq h
    exact ⟨.arr hproper, congrArg arr heq⟩
  | obj fields =>
    obtain ⟨hproper, heq⟩ := NormalFields.reread_eq h.2
    refine ⟨.obj (h.1 ▸ nodup_foldl_setProperty fields List.nodup_nil) hproper, ?_⟩
    rw [reread, rebuild, heq, enumerate, h.1]

theorem NormalItems.reread_eq {items : List Json} (h : NormalItems items) :
    (∀ v ∈ items, v.Proper) ∧ rebuildItems enumerate items = items := by
  match items with
  | [] => exact ⟨List.forall_mem_nil _, rfl⟩
  | v :: rest =>
    obtain ⟨hv, hveq⟩ := h.1.reread_eq
    obtain ⟨hrest, heq⟩ := h.2.reread_eq
    exact ⟨List.forall_mem_cons.mpr ⟨hv, hrest⟩, congrArg₂ List.cons hveq heq⟩

theorem NormalFields.reread_eq {fields : List (Text × Json)} (h : NormalFields fields) :
    (∀ p ∈ fields, p.2.Proper) ∧ rebuildFields enumerate fields = fields := by
  match fields with
  | [] => exact ⟨List.forall_mem_nil _, rfl⟩
  | (k, v) :: rest =>
    obtain ⟨hv, hveq⟩ := h.1.reread_eq
    obtain ⟨hrest, heq⟩ := h.2.reread_eq
    exact ⟨List.forall_mem_cons.mpr ⟨hv, hrest⟩,
      congrArg₂ List.cons (congrArg (Prod.mk k) hveq) heq⟩
end

/-! ## Reading -/

variable {t u w : Text} {v : Json} {items : List Json} {fields : List (Text × Json)}

theorem skipSpace_cons (h : isSpace c = false) (t : Text) : skipSpace (c :: t) = c :: t := by
  rw [skipSpace, List.dropWhile_cons, h]
  rfl

theorem word?_append (w t : Text) (v : Json) : word? w v (w ++ t) = some (v, t) := by
  rw [word?, if_pos, List.drop_left]
  exact List.isPrefixOf_iff_prefix.mpr (List.prefix_append w t)

theorem head_of_numberLiteral? {t : Text} {p : Number × Text} (h : numberLiteral? t = some p) :
    ∃ c rest, t = c :: rest ∧ (c = 0x2D ∨ isDigit c = true) := by
  cases t with
  | nil => cases h
  | cons c rest =>
    refine ⟨c, rest, rfl, ?_⟩
    by_cases hminus : c = 0x2D
    · exact .inl hminus
    · right
      rw [numberLiteral?, if_neg hminus] at h
      obtain ⟨⟨q, t'⟩, hmagnitude, -⟩ := Option.map_eq_some_iff.mp h
      rw [magnitude?] at hmagnitude
      cases hint : integerPart? (c :: rest) with
      | none =>
        rw [hint] at hmagnitude
        cases hmagnitude
      | some part =>
        rw [integerPart?] at hint
        by_cases hzero : c = 0x30
        · rw [hzero]
          decide
        · rw [if_neg hzero] at hint
          by_contra hdigit
          rw [if_neg hdigit] at hint
          cases hint

variable (hw : ∀ c ∈ w, isSpace c = true)

include hw

theorem skipSpace_append (t : Text) : skipSpace (w ++ t) = skipSpace t := by
  rw [skipSpace, List.dropWhile_append_of_pos fun c hc => hw c hc]
  rfl

theorem value?_skip (fuel : Nat) (t : Text) : value? fuel (w ++ t) = value? fuel t := by
  cases fuel with
  | zero => rfl
  | succ fuel => rw [value?, value?, skipSpace_append hw]

theorem elements?_skip (fuel : Nat) (t : Text) : elements? fuel (w ++ t) = elements? fuel t := by
  cases fuel with
  | zero => rfl
  | succ fuel => rw [elements?, elements?, value?_skip hw]

theorem members?_skip (fuel : Nat) (fields : List (Text × Json))
    (t : Text) : members? fuel fields (w ++ t) = members? fuel fields t := by
  cases fuel with
  | zero => rfl
  | succ fuel => rw [members?, members?, skipSpace_append hw]

/-- A number ends at white space. -/
theorem endsNumber_append (ht : EndsNumber t) : EndsNumber (w ++ t) := by
  cases w with
  | nil => exact ht
  | cons e w =>
    intro d hd
    cases hd
    have hspace := hw _ List.mem_cons_self
    simp only [isSpace, Bool.or_eq_true, beq_iff_eq] at hspace
    rcases hspace with ((rfl | rfl) | rfl) | rfl <;> decide

omit hw

theorem endsNumber_nil : EndsNumber [] := fun _ h => nomatch h

theorem endsNumber_cons (h : c = 0x2C ∨ c = 0x5D ∨ c = 0x7D) (t : Text) : EndsNumber (c :: t) := by
  intro d hd
  cases hd
  rcases h with rfl | rfl | rfl <;> decide

theorem noSpace : ∀ c ∈ ([] : Text), isSpace c = true :=
  List.forall_mem_nil _

/-- `t` reads as `v`, in front of any text that ends it. -/
structure ReadsAs (t : Text) (v : Json) : Prop where
  head : ∃ c rest, t = c :: rest ∧ isSpace c = false ∧ c ≠ 0x5D
  value {fuel : Nat} (u : Text) (hfuel : 2 * t.length ≤ fuel) (hu : EndsNumber u) :
    value? fuel (t ++ u) = some (v, u)

/-- `t` reads as the elements of an array. -/
structure ReadsAsItems (t : Text) (items : List Json) : Prop where
  head : ∃ c rest, t = c :: rest ∧ isSpace c = false ∧ c ≠ 0x5D
  elements {fuel : Nat} (u : Text) (hfuel : 2 * t.length + 1 ≤ fuel) :
    elements? fuel (t ++ 0x5D :: u) = some (items, u)

/-- `t` reads as the properties of an object. -/
structure ReadsAsFields (t : Text) (fields : List (Text × Json)) : Prop where
  head : ∃ rest, t = 0x22 :: rest
  members {fuel : Nat} (acc : List (Text × Json)) (u : Text) (hfuel : 2 * t.length + 1 ≤ fuel) :
    members? fuel acc (t ++ 0x7D :: u)
      = some (fields.foldl (fun acc p => setProperty acc p.1 p.2) acc, u)

theorem ReadsAs.singleton (h : ReadsAs t v) (hw : ∀ c ∈ w, isSpace c = true) :
    ReadsAsItems (t ++ w) [v] where
  head := by
    obtain ⟨c, rest, rfl, hc⟩ := h.head
    exact ⟨c, rest ++ w, rfl, hc⟩
  elements {fuel} u hfuel := by
    obtain ⟨fuel, rfl⟩ : ∃ n, fuel = n + 1 := ⟨fuel - 1, by omega⟩
    rw [List.length_append] at hfuel
    have hvalue := h.value (w ++ 0x5D :: u) (show 2 * t.length ≤ fuel by omega)
      (endsNumber_append hw (endsNumber_cons (.inr (.inl rfl)) u))
    have hcomma : ¬ (0x5D : CodeUnit) = 0x2C := by decide
    rw [List.append_assoc, elements?, hvalue]
    simp only [skipSpace_append hw, skipSpace_cons (show isSpace 0x5D = false by decide), hcomma,
      if_false, if_true]

theorem ReadsAs.cons (h : ReadsAs t v) (hw : ∀ c ∈ w, isSpace c = true)
    (hrest : ReadsAsItems u items) : ReadsAsItems (t ++ 0x2C :: (w ++ u)) (v :: items) where
  head := by
    obtain ⟨c, rest, rfl, hc⟩ := h.head
    exact ⟨c, _, rfl, hc⟩
  elements {fuel} u' hfuel := by
    obtain ⟨fuel, rfl⟩ : ∃ n, fuel = n + 1 := ⟨fuel - 1, by omega⟩
    simp only [List.length_append, List.length_cons] at hfuel
    have hvalue := h.value (0x2C :: (w ++ u ++ 0x5D :: u')) (show 2 * t.length ≤ fuel by omega)
      (endsNumber_cons (.inl rfl) _)
    have hitems := hrest.elements u' (show 2 * u.length + 1 ≤ fuel by omega)
    rw [List.append_assoc, List.cons_append, elements?, hvalue]
    simp only [skipSpace_cons (show isSpace 0x2C = false by decide), if_true, List.append_assoc,
      elements?_skip hw, hitems, Option.map_some]

theorem ReadsAsItems.arr (h : ReadsAsItems t items) (hw : ∀ c ∈ w, isSpace c = true) :
    ReadsAs (0x5B :: (w ++ t) ++ [0x5D]) (arr items) where
  head := ⟨_, _, rfl, by decide, by decide⟩
  value {fuel} u hfuel _ := by
    simp only [List.length_append, List.length_cons, List.length_nil] at hfuel
    obtain ⟨fuel, rfl⟩ : ∃ n, fuel = n + 1 := ⟨fuel - 1, by omega⟩
    have helements := h.elements u (show 2 * t.length + 1 ≤ fuel by omega)
    obtain ⟨c, rest, rfl, hspace, hbracket⟩ := h.head
    rw [List.append_assoc, List.cons_append, value?, skipSpace_cons (by decide)]
    rw [List.cons_append] at helements
    simp only [List.append_assoc, skipSpace_append hw, List.cons_append, List.nil_append,
      skipSpace_cons hspace, hbracket, if_false, helements, Option.map_some]
    rfl

/-- A property, with white space in front of its value and behind it. -/
theorem ReadsAs.members? {s : Text} (h : ReadsAs t v) (hs : ∀ c ∈ s, isSpace c = true) (k : Text)
    (hw : ∀ c ∈ w, isSpace c = true) {fuel : Nat} (hfuel : 2 * t.length ≤ fuel)
    (acc : List (Text × Json)) (hc : c = 0x2C ∨ c = 0x7D) (u : Text) :
    members? (fuel + 1) acc (quote k ++ 0x3A :: (s ++ t) ++ (w ++ c :: u))
      = if c = 0x2C then members? fuel (setProperty acc k v) u
        else some (setProperty acc k v, u) := by
  have hvalue := h.value (w ++ c :: u) hfuel
    (endsNumber_append hw (endsNumber_cons (hc.imp_right .inr) u))
  have htext : quote k ++ 0x3A :: (s ++ t) ++ (w ++ c :: u)
      = 0x22 :: (quoteBody k ++ 0x22 :: 0x3A :: (s ++ (t ++ (w ++ c :: u)))) := by
    simp [quote]
  rw [htext, Json.members?, skipSpace_cons (by decide)]
  simp only [if_true, stringBody?_quoteBody, skipSpace_cons (show isSpace 0x3A = false by decide),
    value?_skip hs, hvalue, skipSpace_append hw]
  rcases hc with rfl | rfl <;> rfl

theorem ReadsAs.property {s : Text} (h : ReadsAs t v) (hs : ∀ c ∈ s, isSpace c = true) (k : Text)
    (hw : ∀ c ∈ w, isSpace c = true) :
    ReadsAsFields (quote k ++ 0x3A :: (s ++ t) ++ w) [(k, v)] where
  head := ⟨_, rfl⟩
  members {fuel} acc u hfuel := by
    obtain ⟨fuel, rfl⟩ : ∃ n, fuel = n + 1 := ⟨fuel - 1, by omega⟩
    simp only [List.length_append, List.length_cons] at hfuel
    rw [List.append_assoc, h.members? hs k hw (by omega) acc (.inr rfl)]
    rfl

theorem ReadsAs.property_cons {s : Text} (h : ReadsAs t v) (hs : ∀ c ∈ s, isSpace c = true)
    (k : Text) (hw : ∀ c ∈ w, isSpace c = true) (hrest : ReadsAsFields u fields) :
    ReadsAsFields (quote k ++ 0x3A :: (s ++ t) ++ 0x2C :: (w ++ u)) ((k, v) :: fields) where
  head := ⟨_, rfl⟩
  members {fuel} acc u' hfuel := by
    obtain ⟨fuel, rfl⟩ : ∃ n, fuel = n + 1 := ⟨fuel - 1, by omega⟩
    simp only [List.length_append, List.length_cons] at hfuel
    have hproperty := h.members? hs k noSpace (show 2 * t.length ≤ fuel by omega) acc (.inl rfl)
      (w ++ u ++ 0x7D :: u')
    have hmembers := hrest.members (setProperty acc k v) u' (show 2 * u.length + 1 ≤ fuel by omega)
    rw [List.append_assoc, List.cons_append]
    refine hproperty.trans ?_
    rw [if_pos rfl, List.append_assoc, members?_skip hw, hmembers, List.foldl_cons]

theorem ReadsAsFields.obj (h : ReadsAsFields t fields) (hw : ∀ c ∈ w, isSpace c = true) :
    ReadsAs (0x7B :: (w ++ t) ++ [0x7D]) (obj (enumerate fields)) where
  head := ⟨_, _, rfl, by decide, by decide⟩
  value {fuel} u hfuel _ := by
    simp only [List.length_append, List.length_cons, List.length_nil] at hfuel
    obtain ⟨fuel, rfl⟩ : ∃ n, fuel = n + 1 := ⟨fuel - 1, by omega⟩
    have hmembers := h.members [] u (show 2 * t.length + 1 ≤ fuel by omega)
    obtain ⟨rest, rfl⟩ := h.head
    have hbrace : ¬ (0x22 : CodeUnit) = 0x7D := by decide
    rw [List.append_assoc, List.cons_append, value?, skipSpace_cons (by decide)]
    rw [List.cons_append] at hmembers
    simp only [List.append_assoc, skipSpace_append hw, List.cons_append, List.nil_append,
      skipSpace_cons (show isSpace 0x22 = false by decide), hbrace, if_true, if_false, hmembers,
      Option.map_some]
    rfl

/-! ## Printing -/

/-- A word that `value?` knows by its first code unit. -/
theorem reads_word (hc : isSpace c = false ∧ c ≠ 0x5D)
    (hvalue : ∀ fuel u, value? (fuel + 1) (c :: t ++ u) = word? (c :: t) v (c :: t ++ u)) :
    ReadsAs (c :: t) v where
  head := ⟨c, t, rfl, hc⟩
  value {fuel} u hfuel _ := by
    obtain ⟨fuel, rfl⟩ : ∃ n, fuel = n + 1 := ⟨fuel - 1, by rw [List.length_cons] at hfuel; omega⟩
    rw [hvalue, word?_append]

theorem reads_null : ReadsAs (text "null") null := by
  refine reads_word (by decide) fun _ _ => ?_
  rw [value?, List.cons_append, skipSpace_cons (by decide)]
  rfl

theorem reads_bool (b : Bool) : ReadsAs (bool b).stringify (bool b) := by
  cases b with
  | true =>
    refine reads_word (by decide) fun _ _ => ?_
    rw [value?, List.cons_append, skipSpace_cons (by decide)]
    rfl
  | false =>
    refine reads_word (by decide) fun _ _ => ?_
    rw [value?, List.cons_append, skipSpace_cons (by decide)]
    rfl

theorem reads_number {q : ℚ} (hq : IsDouble q) : ReadsAs (Number.fin q).toText (num (.fin q)) := by
  have hstart : ∀ {u : Text}, EndsNumber u → ∃ c rest, (Number.fin q).toText ++ u = c :: rest ∧
      (isSpace c = false ∧ c ≠ 0x5D) ∧ c ≠ 0x7B ∧ c ≠ 0x5B ∧ c ≠ 0x22 ∧ c ≠ 0x74 ∧ c ≠ 0x66 ∧
      c ≠ 0x6E := by
    intro u hu
    obtain ⟨c, rest, htext, hc⟩ := head_of_numberLiteral? (numberLiteral?_toText hq hu)
    refine ⟨c, rest, htext, ?_⟩
    rcases hc with rfl | hdigit
    · decide
    · refine ⟨⟨?_, ?_⟩, ?_, ?_, ?_, ?_, ?_, ?_⟩
      · by_contra hspace
        rw [Bool.not_eq_false, isSpace] at hspace
        simp only [Bool.or_eq_true, beq_iff_eq] at hspace
        rcases hspace with ((rfl | rfl) | rfl) | rfl <;> revert hdigit <;> decide
      all_goals
        rintro rfl
        revert hdigit
        decide
  obtain ⟨d, tail, hnil, hd, -⟩ := hstart (u := []) endsNumber_nil
  rw [List.append_nil] at hnil
  refine ⟨⟨d, tail, hnil, hd⟩, fun {fuel} u hfuel hu => ?_⟩
  obtain ⟨fuel, rfl⟩ : ∃ n, fuel = n + 1 :=
    ⟨fuel - 1, by rw [hnil, List.length_cons] at hfuel; omega⟩
  have hliteral := numberLiteral?_toText hq hu
  obtain ⟨c, rest, htext, hc, hbrace, hbracket, hquote, htrue, hfalse, hnull⟩ := hstart hu
  rw [htext] at hliteral ⊢
  rw [value?, skipSpace_cons hc.1]
  simp only [hbrace, hbracket, hquote, htrue, hfalse, hnull, if_false, hliteral, Option.map_some]

theorem reads_str (s : Text) : ReadsAs (quote s) (str s) where
  head := ⟨_, _, rfl, by decide, by decide⟩
  value {fuel} u hfuel _ := by
    obtain ⟨fuel, rfl⟩ : ∃ n, fuel = n + 1 :=
      ⟨fuel - 1, by rw [quote, List.cons_append, List.length_cons] at hfuel; omega⟩
    rw [quote, List.cons_append, List.cons_append, value?, skipSpace_cons (by decide)]
    simp only [List.append_assoc, List.singleton_append, stringBody?_quoteBody, Option.map_some]
    rfl

theorem reads_nil : ReadsAs (text "[]") (arr []) ∧ ReadsAs (text "\x7b\x7d") (obj []) := by
  refine ⟨⟨⟨_, _, rfl, by decide, by decide⟩, fun {fuel} u hfuel _ => ?_⟩,
    ⟨_, _, rfl, by decide, by decide⟩, fun {fuel} u hfuel _ => ?_⟩
  all_goals
    obtain ⟨fuel, rfl⟩ : ∃ n, fuel = n + 1 := ⟨fuel - 1, by
      have hlength : 2 * 2 ≤ fuel := hfuel
      omega⟩
  · show value? (fuel + 1) (0x5B :: 0x5D :: u) = _
    rw [value?, skipSpace_cons (by decide)]
    simp only [skipSpace_cons (show isSpace 0x5D = false by decide)]
    rfl
  · show value? (fuel + 1) (0x7B :: 0x7D :: u) = _
    rw [value?, skipSpace_cons (by decide)]
    simp only [skipSpace_cons (show isSpace 0x7D = false by decide)]
    rfl

variable {v : Json}

theorem readsItems_stringifyItems {rest : List Json}
    (h : ∀ w ∈ v :: rest, ReadsAs w.stringify w.reread) :
    ReadsAsItems (stringifyItems (v :: rest)) ((v :: rest).map reread) := by
  induction rest generalizing v with
  | nil => simpa [stringifyItems] using (h v List.mem_cons_self).singleton noSpace
  | cons w rest ih =>
    exact (h v List.mem_cons_self).cons noSpace (ih fun x hx => h x (List.mem_cons_of_mem v hx))

theorem readsFields_stringifyFields {p : Text × Json} {rest : List (Text × Json)}
    (h : ∀ q ∈ p :: rest, ReadsAs q.2.stringify q.2.reread) :
    ReadsAsFields (stringifyFields (p :: rest)) ((p :: rest).map fun q => (q.1, q.2.reread)) := by
  induction rest generalizing p with
  | nil => simpa [stringifyFields] using (h p List.mem_cons_self).property noSpace p.1 noSpace
  | cons q rest ih =>
    have hrest := ih fun x hx => h x (List.mem_cons_of_mem p hx)
    simpa [stringifyFields] using (h p List.mem_cons_self).property_cons noSpace p.1 noSpace hrest

/-- **A value** reads back. -/
theorem reads_stringify (h : v.Proper) : ReadsAs v.stringify v.reread := by
  induction h with
  | null => exact reads_null
  | bool b => exact reads_bool b
  | @num x hx =>
    cases x with
    | fin q => exact reads_number (hx q rfl)
    | _ => exact reads_null
  | str s => exact reads_str s
  | @arr items _ ih =>
    cases items with
    | nil => exact reads_nil.1
    | cons v rest =>
      rw [reread_arr]
      exact (readsItems_stringifyItems ih).arr noSpace
  | @obj fields _ _ ih =>
    cases fields with
    | nil => exact reads_nil.2
    | cons p rest =>
      rw [reread_obj]
      exact (readsFields_stringifyFields ih).obj noSpace

theorem length_stringify_pos (h : v.Normal) : 0 < v.stringify.length := by
  obtain ⟨c, rest, htext, -⟩ := (reads_stringify h.reread_eq.1).head
  rw [htext]
  exact Nat.succ_pos _

/-- A whole text, with white space behind it. -/
theorem ReadsAs.parse (h : ReadsAs t v) (hw : ∀ c ∈ w, isSpace c = true) :
    parse (t ++ w) = some v := by
  have hends := endsNumber_append hw endsNumber_nil
  rw [List.append_nil] at hends
  have hrest : skipSpace w = [] := by
    have hnil := skipSpace_append hw []
    rwa [List.append_nil] at hnil
  rw [Json.parse, h.value w (by rw [List.length_append]; omega) hends]
  exact if_pos hrest

/-- **A text** reads back. -/
theorem parse_stringify (h : v.Normal) : parse v.stringify = some v := by
  obtain ⟨hproper, heq⟩ := h.reread_eq
  have hparse := (reads_stringify hproper).parse noSpace
  rwa [List.append_nil, heq] at hparse

end Json

end Ecma
