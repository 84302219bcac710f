import LlmRelay.Refusals.Redaction

/-!
# Stable signatures

The normal form of a message is read back from the store, and normalized again. It is then the
same exactly when the redacted message is no envelope itself, and is not cut behind a blank: every
round that takes an envelope off shortens the text for good, since a redacted text has nothing
left that a placeholder could lengthen.

## Main definitions

* `Bare`: a text in which no round finds an envelope;
* `Settles`: the bodies whose redacted message is bare and cut between two words;
* `StableRefusal`: what a store relies on, for the refusals with one body.

## Main results

* `length_unwrap_lt`: a round that changes a text shortens it;
* `normalize_normalize_iff`: when the normal form is its own;
* `refusal_signatures_stable_iff`: when the store finds a verdict again.
-/

namespace LlmRelay.Refusals

open Ecma
open Ecma.Regex
open Facts (FactKind)

/-! ## The message inside a text -/

variable {m t : Text}

theorem mem_textsFields_of_messageOfFields {inside : Json → Option Text}
    (hinside : ∀ v m, inside v = some m → m ∈ v.texts) {fields : List (Text × Json)}
    {names : List Text} (h : messageOfFields inside fields names = some m) :
    m ∈ Json.textsFields fields := by
  induction names with
  | nil => cases h
  | cons name names ih =>
    have hor {v : Json} (hv : lookupEntry name fields = some v)
        (h : (inside v).or (messageOfFields inside fields names) = some m) :
        m ∈ Json.textsFields fields := by
      rcases Option.or_eq_some_iff.mp h with hin | ⟨-, hrest⟩
      · exact Json.mem_textsFields_of_lookupEntry hv (hinside v m hin)
      · exact ih hrest
    rw [messageOfFields] at h
    split at h
    · rename_i s hs
      cases h
      exact Json.mem_textsFields_of_lookupEntry hs (List.mem_singleton_self _)
    · rename_i items hitems
      exact hor hitems h
    · rename_i entries hentries
      exact hor hentries h
    · exact ih h

theorem mem_texts_of_findMessage {levels : Nat} {v : Json}
    (h : findMessageWithin levels v = some m) : m ∈ v.texts := by
  induction levels generalizing v m with
  | zero => cases h
  | succ levels ih =>
    have hinside (v : Json) (m : Text)
        (h : (findMessageWithin levels v).filter (· ≠ []) = some m) : m ∈ v.texts :=
      ih (Option.filter_eq_some_iff.mp h).1
    unfold findMessageWithin at h
    dsimp only at h
    split at h
    · cases h
      exact List.mem_singleton_self _
    · obtain ⟨item, hitem, hm⟩ := List.exists_of_findSome?_eq_some h
      exact Json.mem_textsItems.mpr ⟨item, hitem, hinside item m hm⟩
    · exact mem_textsFields_of_messageOfFields hinside h
    · cases h

/-! ## Units that no placeholder stands for -/

/-- Neither a digit nor `İ`. -/
def Inert (c : CodeUnit) : Prop :=
  isDigit c = false ∧ c ≠ dottedI

instance (c : CodeUnit) : Decidable (Inert c) :=
  inferInstanceAs (Decidable (_ ∧ _))

def AllInert (t : Text) : Prop :=
  ∀ c ∈ t, Inert c

theorem inert_of_escape {e c : CodeUnit} (he : Inert e) (h : Json.escape? e = some c) :
    Inert c := by
  unfold Json.escape? at h
  split at h
  · cases h
    exact he
  · repeat' split at h
    all_goals first | cases h; decide | cases h

theorem inert_of_hex {a b c d u : CodeUnit} (ha : Inert a) (hb : Inert b) (hc : Inert c)
    (hd : Inert d) (h : Json.hex4? a b c d = some u) : Inert u := by
  have hletter {x : CodeUnit} {n : Nat} (hx : Inert x) (hn : hexValue? x = some n) :
      10 ≤ n ∧ n < 16 := by
    unfold hexValue? at hn
    rw [hx.1, if_neg Bool.false_ne_true] at hn
    simp only [UInt16.le_iff_toNat_le, UInt16.reduceToNat] at hn
    split at hn
    · cases hn
      omega
    · split at hn
      · cases hn
        omega
      · cases hn
  unfold Json.hex4? at h
  split at h
  · rename_i i j k l hi hj hk hl
    have hi := hletter ha hi
    have hj := hletter hb hj
    have hk := hletter hc hk
    have hl := hletter hd hl
    cases h
    have hunit : (0x1000 * i + 0x100 * j + 0x10 * k + l).toUInt16.toNat
        = 0x1000 * i + 0x100 * j + 0x10 * k + l := by
      rw [Nat.toUInt16_eq, UInt16.toNat_ofNat_of_lt' (by simp [UInt16.size]; omega)]
    constructor
    · simp only [isDigit, UInt16.le_iff_toNat_le, hunit, UInt16.reduceToNat,
        Bool.and_eq_false_iff, decide_eq_false_iff_not]
      omega
    · intro hdotted
      have hnat := congrArg UInt16.toNat hdotted
      have hvalue : dottedI.toNat = 0x130 := rfl
      rw [hunit, hvalue] at hnat
      omega
  · cases h

theorem AllInert.mono {u : Text} (h : AllInert t) (hu : ∀ c ∈ u, c ∈ t) : AllInert u :=
  fun c hc => h c (hu c hc)

/-! ## Fields of a text that does not parse -/

theorem prefix_of_quotedValue {v : Text} (h : quotedValue t = some v) : v <+: t := by
  fun_induction quotedValue t generalizing v with
  | case1 => cases h; exact List.nil_prefix
  | case2 => cases h; exact List.nil_prefix
  | case3 => cases h
  | case4 => cases h
  | case5 e rest _ _ ih =>
    obtain ⟨w, hw, rfl⟩ := Option.map_eq_some_iff.mp h
    exact List.cons_prefix_cons.mpr ⟨rfl, List.cons_prefix_cons.mpr ⟨rfl, ih hw⟩⟩
  | case6 c rest _ _ ih =>
    obtain ⟨w, hw, rfl⟩ := Option.map_eq_some_iff.mp h
    exact List.cons_prefix_cons.mpr ⟨rfl, ih hw⟩

theorem infix_of_fieldValue {field v : Text} (h : fieldValue field t = some v) :
    v <:+: t ∧ v.length < t.length := by
  induction t with
  | nil => cases h
  | cons c rest ih =>
    rw [fieldValue] at h
    rcases Option.or_eq_some_iff.mp h with h | ⟨-, h⟩
    · obtain ⟨m, hm, hvalue⟩ := List.exists_of_findSome?_eq_some h
      have hsplit := runs_spec hm
      have hlead := prefix_of_quotedValue hvalue
      have hmatched : 0 < m.matched.length :=
        (by simp [fieldOpening, minLength] : 0 < minLength (fieldOpening field)).trans_le
          (minLength_le hm)
      rw [hsplit]
      refine ⟨hlead.isInfix.trans (List.suffix_append _ _).isInfix, ?_⟩
      rw [List.length_append]
      have hle := hlead.length_le
      omega
    · obtain ⟨hin, hlt⟩ := ih h
      exact ⟨hin.trans (List.suffix_cons c rest).isInfix, Nat.lt_succ_of_lt hlt⟩

theorem unescapeUnits_spec (skip : Nat) (t : Text) :
    (unescapeUnits skip t).length ≤ t.length ∧ (AllInert t → AllInert (unescapeUnits skip t)) := by
  fun_induction unescapeUnits skip t with
  | case1 => exact ⟨le_rfl, id⟩
  | case2 skip c rest ih =>
    exact ⟨Nat.le_succ_of_le ih.1, fun h => ih.2 (h.mono fun d hd => List.mem_cons_of_mem c hd)⟩
  | case3 c rest escaped hescaped ih =>
    refine ⟨Nat.succ_le_succ ih.1, fun h => ?_⟩
    have hrest : AllInert rest := h.mono fun d hd => List.mem_cons_of_mem c hd
    refine List.forall_mem_cons.mpr ⟨?_, ih.2 hrest⟩
    split at hescaped
    · unfold unicodeEscape? at hescaped
      split at hescaped
      · rename_i u h₁ h₂ h₃ h₄ after
        split at hescaped
        · exact inert_of_hex (hrest h₁ (by simp)) (hrest h₂ (by simp)) (hrest h₃ (by simp))
            (hrest h₄ (by simp)) hescaped
        · cases hescaped
      · cases hescaped
    · cases hescaped
  | case4 c rest _ ih =>
    refine ⟨Nat.succ_le_succ ih.1, fun h => ?_⟩
    exact List.forall_mem_cons.mpr
      ⟨h c List.mem_cons_self, ih.2 (h.mono fun d hd => List.mem_cons_of_mem c hd)⟩

theorem unescapeSimple_spec (t : Text) :
    (unescapeSimple t).length ≤ t.length ∧ (AllInert t → AllInert (unescapeSimple t)) := by
  fun_induction unescapeSimple t with
  | case1 => exact ⟨le_rfl, id⟩
  | case2 => exact ⟨le_rfl, id⟩
  | case3 e rest _ ih =>
    refine ⟨Nat.succ_le_succ (Nat.succ_le_succ ih.1), fun h => ?_⟩
    obtain ⟨hc, htail⟩ := List.forall_mem_cons.mp h
    obtain ⟨he, hrest⟩ := List.forall_mem_cons.mp htail
    exact List.forall_mem_cons.mpr ⟨hc, List.forall_mem_cons.mpr ⟨he, ih.2 hrest⟩⟩
  | case4 e rest _ ih =>
    refine ⟨Nat.succ_le_succ (Nat.le_succ_of_le ih.1), fun h => ?_⟩
    obtain ⟨-, htail⟩ := List.forall_mem_cons.mp h
    obtain ⟨he, hrest⟩ := List.forall_mem_cons.mp htail
    refine List.forall_mem_cons.mpr ⟨?_, ih.2 hrest⟩
    cases hescape : Json.escape? e with
    | none => exact he
    | some c => exact inert_of_escape he hescape
  | case5 c rest _ ih =>
    refine ⟨Nat.succ_le_succ ih.1, fun h => ?_⟩
    obtain ⟨hc, hrest⟩ := List.forall_mem_cons.mp h
    exact List.forall_mem_cons.mpr ⟨hc, ih.2 hrest⟩

/-! ## Rounds -/

/-- **A message is shorter than its text**, and made of the same kind of units. -/
theorem extractMessage_spec (h : extractMessage t = some m) :
    m.length < t.length ∧ (AllInert t → AllInert m) := by
  rcases Option.or_eq_some_iff.mp h with h | ⟨-, h⟩
  · -- a string of the parsed text
    obtain ⟨candidate, hcandidate, hm⟩ := List.exists_of_findSome?_eq_some h
    obtain ⟨v, hv, hfound⟩ := Option.bind_eq_some_iff.mp (Option.filter_eq_some_iff.mp hm).1
    have hsuffix : candidate <:+ t := by
      unfold candidates at hcandidate
      split at hcandidate
      · rcases List.mem_pair.mp hcandidate with rfl | rfl
        · exact List.suffix_refl _
        · exact List.drop_suffix _ t
      · rw [List.mem_singleton.mp hcandidate]
    have hliteral := (Json.literal_of_parse hv (mem_texts_of_findMessage hfound)).mono hsuffix
    exact ⟨hliteral.length_lt, hliteral.units inert_of_escape inert_of_hex⟩
  · -- or a field of a text that does not parse
    obtain ⟨field, -, hm⟩ := List.exists_of_findSome?_eq_some h
    obtain ⟨value, hvalue, rfl⟩ := Option.map_eq_some_iff.mp hm
    obtain ⟨hin, hlt⟩ := infix_of_fieldValue (Option.filter_eq_some_iff.mp hvalue).1
    obtain ⟨hunits, hunitsInert⟩ := unescapeUnits_spec 0 value
    obtain ⟨hsimple, hsimpleInert⟩ := unescapeSimple_spec (unescapeUnits 0 value)
    refine ⟨(hsimple.trans hunits).trans_lt hlt, fun ht => ?_⟩
    exact hsimpleInert (hunitsInert (ht.mono fun c hc => hin.subset hc))

/-- No round finds an envelope. -/
structure Bare (t : Text) : Prop where
  noMessage : extractMessage t = none
  noWrapper : runs RELAY_WRAPPER_PREFIX t = []

theorem stripRelayWrapper_spec (t : Text) :
    (stripRelayWrapper t <:+ t) ∧
      ((stripRelayWrapper t).length < t.length ∨ runs RELAY_WRAPPER_PREFIX t = []) := by
  unfold stripRelayWrapper
  split
  · rename_i m hm
    have hmem := List.mem_of_mem_head? (Option.mem_def.mpr hm)
    have hsplit := runs_spec hmem
    have hmatched := minLength_le hmem
    have hpos : 0 < minLength RELAY_WRAPPER_PREFIX :=
      Nat.add_pos_left (by decide : 0 < minLength (anyCase (text "openai backend http "))) _
    refine ⟨hsplit ▸ List.suffix_append _ _, .inl ?_⟩
    have hlen := congrArg List.length hsplit
    rw [List.length_append] at hlen
    omega
  · rename_i hnone
    exact ⟨List.suffix_refl t, .inr (List.head?_eq_none_iff.mp hnone)⟩

theorem unwrapOnce_of_bare (h : Bare t) : unwrapOnce t = t := by
  rw [unwrapOnce, h.noMessage, Option.getD_none, stripRelayWrapper, h.noWrapper]
  rfl

theorem unwrapOnce_spec (t : Text) :
    (Bare t ∨ (unwrapOnce t).length < t.length) ∧ (AllInert t → AllInert (unwrapOnce t)) := by
  obtain ⟨hsuffix, hstrip⟩ := stripRelayWrapper_spec ((extractMessage t).getD t)
  cases hm : extractMessage t with
  | none =>
    rw [hm, Option.getD_none] at hsuffix hstrip
    have hround : unwrapOnce t = stripRelayWrapper t := by rw [unwrapOnce, hm, Option.getD_none]
    rw [hround]
    refine ⟨?_, fun ht => ht.mono fun c hc => hsuffix.subset hc⟩
    rcases hstrip with hlt | hnone
    · exact .inr hlt
    · exact .inl ⟨hm, hnone⟩
  | some m =>
    rw [hm, Option.getD_some] at hsuffix
    have hround : unwrapOnce t = stripRelayWrapper m := by rw [unwrapOnce, hm, Option.getD_some]
    obtain ⟨hlt, hinert⟩ := extractMessage_spec hm
    rw [hround]
    exact ⟨.inr (hsuffix.length_le.trans_lt hlt),
      fun ht => (hinert ht).mono fun c hc => hsuffix.subset hc⟩

theorem unwrap_spec (rounds : Nat) (t : Text) :
    (unwrap rounds t).length ≤ t.length ∧ (AllInert t → AllInert (unwrap rounds t)) := by
  induction rounds generalizing t with
  | zero => exact ⟨le_rfl, id⟩
  | succ rounds ih =>
    rw [unwrap]
    split
    · exact ⟨le_rfl, id⟩
    · rename_i hne
      obtain ⟨hround, hinert⟩ := unwrapOnce_spec t
      obtain ⟨hle, hrest⟩ := ih (unwrapOnce t)
      refine ⟨?_, fun ht => hrest (hinert ht)⟩
      rcases hround with hbare | hlt
      · exact absurd (unwrapOnce_of_bare hbare) hne
      · omega

theorem unwrap_of_bare (h : Bare t) (rounds : Nat) : unwrap rounds t = t := by
  cases rounds with
  | zero => rfl
  | succ rounds => rw [unwrap, if_pos (unwrapOnce_of_bare h)]

/-- **A text that is not bare gets shorter**, whatever the later rounds do. -/
theorem length_unwrap_lt (h : ¬Bare t) {rounds : Nat} (hrounds : 0 < rounds) :
    (unwrap rounds t).length < t.length := by
  obtain ⟨rounds, rfl⟩ := Nat.exists_eq_succ_of_ne_zero hrounds.ne'
  rcases (unwrapOnce_spec t).1 with hbare | hlt
  · exact absurd hbare h
  · rw [unwrap, if_neg (fun heq => by rw [heq] at hlt; exact lt_irrefl _ hlt)]
    exact (unwrap_spec rounds _).1.trans_lt hlt

/-! ## The normal form again -/

section Normal

variable {casing : LowerCasing}

theorem redacted_normalize (body : Text) : Redacted casing (normalizeRefusalMessage casing body) :=
  (redacted_redact _).of_start (List.take_prefix _ _)

/-- **A message is anonymous**: it has no url, no token and no digit. -/
theorem refusal_message_anonymous (casing : LowerCasing) (body : Text) :
    let message := normalizeRefusalMessage casing body
    NoUrl message ∧ NoToken message ∧ ∀ c ∈ message, isDigit c = false :=
  have h := redacted_normalize body
  ⟨h.noUrl, h.noToken, h.noDigit⟩

variable {t : Text}

theorem allInert_of_redacted (h : Redacted casing t) : AllInert t := by
  intro c hc
  refine ⟨h.noDigit c hc, ?_⟩
  rintro rfl
  obtain ⟨s, hs⟩ := h.lowered
  rcases hs.unit dottedI hc (by decide) with hold | ⟨hlt, -⟩
  · exact casing.dottedI_notMem s hold
  · exact absurd hlt (by decide)

theorem length_normalize_le (body : Text) :
    (normalizeRefusalMessage casing body).length ≤ MAX_SIGNATURE :=
  List.length_take_le _ _

theorem normalize_of_bare (hbare : Bare t) (ht : Redacted casing t)
    (hlen : t.length ≤ MAX_SIGNATURE) : normalizeRefusalMessage casing t = t.trimEnd := by
  have hbody : t.take MAX_BODY = t := List.take_of_length_le (hlen.trans (by decide))
  rw [normalizeRefusalMessage, carriedMessage, hbody, unwrap_of_bare hbare, ht.redact_eq]
  exact List.take_of_length_le ((prefix_trimEnd t).length_le.trans hlen)

theorem length_normalize_lt (hbare : ¬Bare t) (ht : Redacted casing t)
    (hlen : t.length ≤ MAX_SIGNATURE) : (normalizeRefusalMessage casing t).length < t.length := by
  have hbody : t.take MAX_BODY = t := List.take_of_length_le (hlen.trans (by decide))
  have hinert := (unwrap_spec MAX_ROUNDS t).2 (allInert_of_redacted ht)
  calc (normalizeRefusalMessage casing t).length
      ≤ (redact casing (carriedMessage t)).length := List.length_take_le' _ _
    _ ≤ (carriedMessage t).length := by
        rw [carriedMessage, hbody]
        exact length_redact_le (fun c hc => (hinert c hc).1) fun hc => (hinert _ hc).2 rfl
    _ < t.length := by
        rw [carriedMessage, hbody]
        exact length_unwrap_lt hbare (by decide)

theorem trimEnd_take_iff :
    Text.trimEnd ((redact casing t).take MAX_SIGNATURE) = (redact casing t).take MAX_SIGNATURE
      ↔ (redact casing t)[MAX_SIGNATURE - 1]? ≠ some space := by
  have hredacted : Redacted casing (redact casing t) := redacted_redact t
  rw [trimEnd_eq_self_iff, List.getLast?_take, if_neg (by decide)]
  cases hlast : (redact casing t)[MAX_SIGNATURE - 1]? with
  | none =>
    rw [Option.none_or]
    refine ⟨fun _ => nofun, fun _ => trimEnd_eq_self_iff.mp ?_⟩
    exact List.rdropWhile_idempotent isWhitespace _
  | some c =>
    rw [Option.some_or]
    constructor
    · intro h heq
      have hblank := h c rfl
      rw [Option.some.inj heq] at hblank
      exact absurd hblank (by decide)
    · rintro hne _ ⟨⟩
      apply Bool.eq_false_iff.mpr
      intro hspace
      have hmem : c ∈ redact casing t := List.mem_of_getElem? hlast
      exact hne (congrArg some (hredacted.collapsed.blank c hmem hspace))

/-- **The normal form is its own** exactly when it carries no message and is not cut behind a
blank. -/
theorem normalize_normalize_iff (body : Text) :
    normalizeRefusalMessage casing (normalizeRefusalMessage casing body)
        = normalizeRefusalMessage casing body
      ↔ Bare ((redact casing (carriedMessage body)).take MAX_SIGNATURE) ∧
        (redact casing (carriedMessage body))[MAX_SIGNATURE - 1]? ≠ some space := by
  have hredacted : Redacted casing (normalizeRefusalMessage casing body) := redacted_normalize body
  have hlen : (normalizeRefusalMessage casing body).length ≤ MAX_SIGNATURE :=
    length_normalize_le body
  rw [← trimEnd_take_iff]
  by_cases hbare : Bare (normalizeRefusalMessage casing body)
  · rw [normalize_of_bare hbare hredacted hlen]
    exact ⟨fun h => ⟨hbare, h⟩, fun h => h.2⟩
  · have hlt := length_normalize_lt hbare hredacted hlen
    constructor
    · intro h
      rw [h] at hlt
      exact absurd hlt (lt_irrefl _)
    · intro h
      exact absurd h.1 hbare

end Normal

/-! ## Signatures -/

/-- Parts that a signature keeps apart: a provider and a model without the separator, and a
status of three digits. -/
structure Separable (provider : Text) (model : Option Text) (status : Nat) : Prop where
  provider : provider ≠ [] ∧ bar ∉ provider
  model : ∀ m ∈ model, m ≠ [] ∧ bar ∉ m
  status : 100 ≤ status ∧ status ≤ 999

theorem natText_of_three {n : Nat} (h : 100 ≤ n ∧ n ≤ 999) :
    ∃ a b c, Number.natText n = [a, b, c] ∧ isDigit a = true ∧ isDigit b = true
      ∧ isDigit c = true := by
  have hall : (List.range 1000).all (fun n => decide (n < 100) ||
      ((Number.natText n).length == 3 && (Number.natText n).all isDigit)) = true := by
    decide +kernel
  have hn := List.all_eq_true.mp hall n (List.mem_range.mpr (by omega))
  rw [decide_eq_false (by omega), Bool.false_or, Bool.and_eq_true, beq_iff_eq] at hn
  obtain ⟨a, b, c, htext⟩ := List.length_eq_three.mp hn.1
  rw [htext, List.all_eq_true] at hn
  exact ⟨a, b, c, htext, hn.2 a (by simp), hn.2 b (by simp), hn.2 c (by simp)⟩

theorem signatureParts_joinSignature {provider : Text} {model : Option Text} {status : Nat}
    (h : Separable provider model status) {message : Text}
    (hmessage : ∀ c ∈ message, isLineTerminator c = false) :
    (signatureParts (joinSignature provider model (Number.natText status) message)).map
        SignatureParts.sample
      = if message = [] then none else some message := by
  obtain ⟨a, b, c, htext, ha, hb, hc⟩ := natText_of_three h.status
  have hmodel : model.getD (text "-") ≠ [] ∧ bar ∉ model.getD (text "-") := by
    cases model with
    | none => decide
    | some m => exact h.model m rfl
  have hjoin : joinSignature provider model (Number.natText status) message
      = provider ++ bar :: (model.getD (text "-") ++ bar :: a :: b :: c :: bar :: message) := by
    rw [joinSignature, htext]
    simp
  unfold signatureParts
  rw [hjoin, takeWhile_append_sep h.provider.2, dropWhile_append_sep h.provider.2]
  simp only [List.drop_one, List.tail_cons]
  rw [takeWhile_append_sep hmodel.2, dropWhile_append_sep hmodel.2]
  dsimp only
  by_cases hempty : message = []
  · rw [if_pos hempty, if_neg (fun hall => hall.2.2.2.2.2.2.1 hempty)]
    rfl
  · have hall : message.all (fun e => !isLineTerminator e) = true :=
      List.all_eq_true.mpr fun e he => by rw [hmessage e he]; rfl
    rw [if_neg hempty, if_pos ⟨ha, hb, hc, rfl, h.provider.1, hmodel.1, hempty, hall⟩]
    rfl

/-- The readers of messages with this normal form. -/
def readersWith (casing : LowerCasing)
    (structured seed : Nat → Text → Option (FactKind × ScopeTemplate)) : MessageReaders where
  normalizeRefusalMessage := normalizeRefusalMessage casing
  interpretStructured := structured
  seedInterpretation := seed

/-- What a store relies on, for the refusals with this body: their normal form is its own, their
signatures are filed under themselves, and a verdict that was accepted for one is found again by
the same refusal when the store has been written and read, or a later one is. -/
structure StableRefusal (casing : LowerCasing) (body : Text) : Prop where
  fixed : normalizeRefusalMessage casing (normalizeRefusalMessage casing body)
    = normalizeRefusalMessage casing body
  rekeyed : ∀ structured seed provider model status, Separable provider model status →
    rekey (readersWith casing structured seed)
        (refusalSignature (readersWith casing structured seed) provider model status body)
      = refusalSignature (readersWith casing structured seed) provider model status body
  bound : ∀ structured seed provider model status, Separable provider model status →
    ∀ (store : InterpretationStore) (entry : Interpretation),
      store.confirmed.get?
          (refusalSignature (readersWith casing structured seed) provider model status body)
        = some entry →
      0 < entry.acceptance → validTemplate entry.scope = true →
      ∃ entry', (∃ signature, store.confirmed.get? signature = some entry') ∧
        entry.acceptance ≤ entry'.acceptance ∧
        interpretRefusal (readersWith casing structured seed)
            (readStoreFile (readersWith casing structured seed) store) provider model status body
          = some entry'

/-- The redacted message has words, carries no message itself as far as it is kept, and is not cut
behind a blank. -/
structure Settles (casing : LowerCasing) (body : Text) : Prop where
  words : redact casing (carriedMessage body) ≠ []
  bare : Bare ((redact casing (carriedMessage body)).take MAX_SIGNATURE)
  cut : (redact casing (carriedMessage body))[MAX_SIGNATURE - 1]? ≠ some space

section Stable

variable {casing : LowerCasing} {structured seed : Nat → Text → Option (FactKind × ScopeTemplate)}
  {body : Text} {provider : Text} {model : Option Text} {status : Nat}

theorem signatureParts_refusalSignature
    (structured seed : Nat → Text → Option (FactKind × ScopeTemplate)) (body : Text)
    (h : Separable provider model status) :
    (signatureParts (refusalSignature (readersWith casing structured seed) provider model status
        body)).map SignatureParts.sample
      = if normalizeRefusalMessage casing body = [] then none
        else some (normalizeRefusalMessage casing body) := by
  refine signatureParts_joinSignature h fun c hc => ?_
  -- every line terminator is white space, and white space is blank
  apply Bool.eq_false_iff.mpr
  intro hterminator
  have hspace : isWhitespace c = true := by
    simp only [isLineTerminator, Bool.or_eq_true, beq_iff_eq] at hterminator
    rcases hterminator with ((rfl | rfl) | rfl) | rfl <;> decide
  have hredacted : Redacted casing (normalizeRefusalMessage casing body) := redacted_normalize body
  have hblank := hredacted.collapsed.blank c hc hspace
  rw [hblank] at hterminator
  exact absurd hterminator (by decide)

theorem rekey_refusalSignature (structured seed : Nat → Text → Option (FactKind × ScopeTemplate))
    (h : Separable provider model status)
    (hfixed : normalizeRefusalMessage casing (normalizeRefusalMessage casing body)
      = normalizeRefusalMessage casing body) :
    rekey (readersWith casing structured seed)
        (refusalSignature (readersWith casing structured seed) provider model status body)
      = refusalSignature (readersWith casing structured seed) provider model status body := by
  have hparts : (signatureParts (refusalSignature (readersWith casing structured seed) provider model
      status body)).map SignatureParts.sample = _ := signatureParts_refusalSignature structured seed body h
  unfold rekey
  cases hsig : signatureParts (refusalSignature (readersWith casing structured seed) provider model
      status body) with
  | none => rfl
  | some parts =>
    rw [hsig, Option.map_some] at hparts
    split at hparts
    · cases hparts
    · exact if_pos (.inr (by rw [Option.some.inj hparts]; exact hfixed))

theorem exists_interpretRefusal (h : Separable provider model status)
    (hfixed : normalizeRefusalMessage casing (normalizeRefusalMessage casing body)
      = normalizeRefusalMessage casing body)
    (hwords : normalizeRefusalMessage casing body ≠ []) {store : InterpretationStore}
    {entry : Interpretation} (hentry : store.confirmed.get?
        (refusalSignature (readersWith casing structured seed) provider model status body)
      = some entry)
    (haccepted : 0 < entry.acceptance) (hscope : validTemplate entry.scope = true) :
    ∃ entry', (∃ signature, store.confirmed.get? signature = some entry') ∧
      entry.acceptance ≤ entry'.acceptance ∧
      interpretRefusal (readersWith casing structured seed)
          (readStoreFile (readersWith casing structured seed) store) provider model status body
        = some entry' := by
  have hparts : (signatureParts (refusalSignature (readersWith casing structured seed) provider model
      status body)).map SignatureParts.sample = _ := signatureParts_refusalSignature structured seed body h
  have hrekey := rekey_refusalSignature structured seed h hfixed
  let readers := readersWith casing structured seed
  let sig := refusalSignature readers provider model status body
  let rows := store.confirmed.filterEntries fun sig entry =>
    (signatureParts sig).isSome && validTemplate entry.scope
  -- the row is read, and filed under its own key
  have hsome : (signatureParts sig).isSome = true := by
    rw [if_neg hwords] at hparts
    rw [← Option.isSome_map, hparts]
    rfl
  have hrow : rows.get? sig = some entry :=
    OrderedMap.get?_filterEntries_eq_some.mpr ⟨hentry, by rw [hsome, hscope]; rfl⟩
  have hin : (sig, entry) ∈ rows.entries.map fun e => (rekey readers e.1, e.2) :=
    List.mem_map.mpr ⟨(sig, entry), (OrderedMap.mem_entries_iff rows).mpr hrow,
      Prod.ext hrekey rfl⟩
  obtain ⟨entry', hget, hle⟩ : ∃ entry',
      (OrderedMap.layer takesLaterAcceptance .empty
        (rows.entries.map fun e => (rekey readers e.1, e.2))).get? sig = some entry' ∧
      entry.acceptance ≤ entry'.acceptance :=
    OrderedMap.exists_get?_layer (fun _ => rfl) (fun _ _ => rfl) (.inr hin)
  have hread : (readStoreFile readers store).confirmed.get? sig = some entry' := hget
  refine ⟨entry', ?_, hle, ?_⟩
  · rcases OrderedMap.mem_layer hget with hnone | hmem
    · cases hnone
    · obtain ⟨⟨written, found⟩, he, heq⟩ := List.mem_map.mp hmem
      obtain ⟨-, rfl⟩ := Prod.mk.inj heq
      have hfound := (OrderedMap.mem_entries_iff rows).mp he
      exact ⟨written, (OrderedMap.get?_filterEntries_eq_some.mp hfound).1⟩
  · have haccepted' : entry'.acceptedAt.isSome = true := by
      cases hat : entry'.acceptedAt with
      | none =>
        have hzero : entry'.acceptance = 0 := by rw [Interpretation.acceptance, hat]; rfl
        omega
      | some _ => rfl
    have hhit : ((readStoreFile readers store).confirmed.get? sig).filter
        (fun entry => decide (entry.source = .seed) || entry.acceptedAt.isSome) = some entry' := by
      rw [hread]
      exact Option.filter_eq_some_iff.mpr ⟨rfl, by rw [haccepted', Bool.or_true]⟩
    unfold interpretRefusal
    dsimp only
    rw [hhit]

/-! ## When a store finds a verdict again -/

/-- A verdict that was accepted for a body without words. -/
def acceptedOnce : Interpretation where
  class_ := .rateLimited
  scope := .attempt
  source := .researched
  acceptedAt := some 1000

theorem not_bound_of_nil (hnil : normalizeRefusalMessage casing body = []) :
    ¬StableRefusal casing body := by
  intro hstable
  have hparts : Separable (text "acme") none 429 :=
    { provider := by decide
      model := fun _ h => nomatch h
      status := by decide }
  let unknown : Nat → Text → Option (FactKind × ScopeTemplate) := fun _ _ => none
  let readers := readersWith casing unknown unknown
  let sig := refusalSignature readers (text "acme") none 429 body
  let store : InterpretationStore :=
    { emptyStore with confirmed := OrderedMap.empty.set sig acceptedOnce }
  obtain ⟨entry', -, -, hfound⟩ := hstable.bound unknown unknown (text "acme") none 429 hparts store
    acceptedOnce (OrderedMap.get?_set_self _ _ _) (by decide) rfl
  have hnone : signatureParts sig = none := by
    have hsample : (signatureParts sig).map SignatureParts.sample = _ :=
      signatureParts_refusalSignature unknown unknown body hparts
    rw [if_pos hnil] at hsample
    exact Option.map_eq_none_iff.mp hsample
  have hlost : (readStoreFile readers store).confirmed.get? sig = none := by
    apply Option.eq_none_iff_forall_not_mem.mpr
    intro entry hentry
    rcases OrderedMap.mem_layer hentry with hempty | hmem
    · cases hempty
    · obtain ⟨⟨written, found⟩, he, -⟩ := List.mem_map.mp hmem
      obtain ⟨hwritten, hkept⟩ :=
        OrderedMap.get?_filterEntries_eq_some.mp ((OrderedMap.mem_entries_iff _).mp he)
      by_cases hsig : sig = written
      · rw [← hsig, hnone] at hkept
        cases hkept
      · rw [OrderedMap.get?_set_of_ne _ _ hsig] at hwritten
        cases hwritten
  unfold interpretRefusal at hfound
  dsimp only at hfound
  rw [hlost] at hfound
  cases hfound

/-- **Signatures are stable** for the bodies whose redacted message has words, is no envelope
itself and is not cut behind a blank, and for no others. -/
theorem refusal_signatures_stable_iff (casing : LowerCasing) (body : Text) :
    StableRefusal casing body ↔ Settles casing body := by
  have hwords : normalizeRefusalMessage casing body = [] ↔ redact casing (carriedMessage body) = [] := by
    rw [normalizeRefusalMessage, List.take_eq_nil_iff]
    exact or_iff_right (by decide)
  constructor
  · intro hstable
    obtain ⟨hbare, hcut⟩ := (normalize_normalize_iff body).mp hstable.fixed
    exact
      { words := fun hnil => not_bound_of_nil (hwords.mpr hnil) hstable
        bare := hbare
        cut := hcut }
  · intro h
    have hfixed := (normalize_normalize_iff body).mpr ⟨h.bare, h.cut⟩
    exact
      { fixed := hfixed
        rekeyed := fun structured seed _ _ _ hparts =>
          rekey_refusalSignature structured seed hparts hfixed
        bound := fun _ _ _ _ _ hparts _ _ hentry haccepted hscope =>
          exists_interpretRefusal hparts hfixed (fun hnil => h.words (hwords.mp hnil)) hentry
            haccepted hscope }

/-- A field name in capitals is no field; in lower case it is one. -/
theorem refusal_signature_not_stable :
    normalizeRefusalMessage .basic (text "\x7b\"MESSAGE\":\"Slow down\"\x7d")
        = text "\x7b\"message\":\"slow down\"\x7d"
      ∧ normalizeRefusalMessage .basic (text "\x7b\"message\":\"slow down\"\x7d")
        = text "slow down"
      ∧ ¬StableRefusal .basic (text "\x7b\"MESSAGE\":\"Slow down\"\x7d") := by
  have hfirst : normalizeRefusalMessage .basic (text "\x7b\"MESSAGE\":\"Slow down\"\x7d")
      = text "\x7b\"message\":\"slow down\"\x7d" := by decide +kernel
  have hagain : normalizeRefusalMessage .basic (text "\x7b\"message\":\"slow down\"\x7d")
      = text "slow down" := by decide +kernel
  refine ⟨hfirst, hagain, fun hstable => ?_⟩
  have hfixed := hstable.fixed
  rw [hfirst, hagain] at hfixed
  exact absurd hfixed (by decide)

end Stable

end LlmRelay.Refusals
