import LlmRelay.Refusals.Normalization
import Mathlib.Data.Bool.AllAny
import Mathlib.Data.List.Chain
import Mathlib.Data.List.DropRight

/-!
# Redacted texts

What the replacements of `redact` leave holds on to the end of the chain, and in every part of
the text: no later placeholder completes a url, a long token, a number or a run of spaces. So a
redacted text is redacted once and for all, but for white space at its end.

## Main definitions

* `StartsUrl`, `StartsToken`: what the patterns of urls and of tokens match;
* `Redacted`: the texts without variable parts.

## Main results

* `redacted_redact`: the chain redacts;
* `Redacted.redact_eq`: a redacted text only loses the white space at its end;
* `length_redact_le`: a text without digits does not grow.
-/

namespace LlmRelay.Refusals

open Ecma
open Ecma.Regex

/-! ## What the patterns match -/

/-- A url starts here. -/
def StartsUrl (v : Text) : Prop :=
  ∃ q, (q = text "http://" ∨ q = text "https://") ∧
    ∃ c rest, v = q ++ c :: rest ∧ isWhitespace c = false

/-- Twenty-four units of a token stand here. -/
def StartsToken (v : Text) : Prop :=
  ∃ q : Text, q.length = 24 ∧ (∀ c ∈ q, isTokenUnit c = true) ∧ q <+: v

variable {c : CodeUnit} {v : Text} {m : Match}

theorem notSpace_iff : notSpace c = true ↔ isWhitespace c = false := by
  rw [notSpace, Bool.not_eq_true']

theorem mem_runs_unit_cons {p : CodeUnit → Bool} (hc : p c = true) (t : Text) :
    (⟨[c], [], t⟩ : Match) ∈ runs (unit p) (c :: t) := by
  rw [runs, if_pos hc]
  exact List.mem_singleton_self _

theorem runs_plus_ne_nil {p : CodeUnit → Bool} (hc : p c = true) (t : Text) :
    runs (plus p) (c :: t) ≠ [] :=
  runs_seq_ne_nil (mem_runs_unit_cons hc t) (runs_rep_ne_nil true p t)

theorem startsUrl_of_mem (h : m ∈ runs urlPattern v) : StartsUrl v := by
  obtain ⟨scheme, hscheme, m₁, hm₁, -⟩ := mem_runs_seq h
  obtain ⟨letter, hletter, m₂, hm₂, -⟩ := mem_runs_seq hm₁
  obtain ⟨colon, hcolon, m₃, hm₃, -⟩ := mem_runs_seq hm₂
  obtain ⟨first, hfirst, -⟩ := mem_runs_seq hm₃
  obtain ⟨c, hc, hmatched⟩ := mem_runs_unit hfirst
  have hsplit := runs_spec hscheme
  rw [mem_runs_lit hscheme, runs_spec hletter, runs_spec hcolon, mem_runs_lit hcolon,
    runs_spec hfirst, hmatched] at hsplit
  rcases mem_runs_opt_lit hletter with hs | hs
  · rw [hs] at hsplit
    exact ⟨text "https://", .inr rfl, c, first.rest, hsplit, notSpace_iff.mp hc⟩
  · rw [hs] at hsplit
    exact ⟨text "http://", .inl rfl, c, first.rest, hsplit, notSpace_iff.mp hc⟩

theorem runs_urlPattern_ne_nil (h : StartsUrl v) : runs urlPattern v ≠ [] := by
  obtain ⟨q, hq, c, rest, rfl, hc⟩ := h
  have hcolon : runs (seq (lit (text "://")) (plus notSpace)) (text "://" ++ c :: rest) ≠ [] :=
    runs_seq_ne_nil (mem_runs_lit_append (text "://") (c :: rest))
      (runs_plus_ne_nil (notSpace_iff.mpr hc) rest)
  rcases hq with rfl | rfl
  · have hletter : (⟨[], [], text "://" ++ c :: rest⟩ : Match)
        ∈ runs (opt (lit (text "s"))) (text "://" ++ c :: rest) :=
      List.mem_append_right _ (mem_runs_lit_append [] (text "://" ++ c :: rest))
    exact runs_seq_ne_nil (mem_runs_lit_append (text "http") (text "://" ++ c :: rest))
      (runs_seq_ne_nil hletter hcolon)
  · have hletter : (⟨text "s", [], text "://" ++ c :: rest⟩ : Match)
        ∈ runs (opt (lit (text "s"))) (text "s" ++ (text "://" ++ c :: rest)) :=
      List.mem_append_left _ (mem_runs_lit_append (text "s") (text "://" ++ c :: rest))
    exact runs_seq_ne_nil
      (mem_runs_lit_append (text "http") (text "s" ++ (text "://" ++ c :: rest)))
      (runs_seq_ne_nil hletter hcolon)

variable {r : Regex}

theorem startsToken_of_mem (hlen : 24 ≤ minLength r)
    (hunits : r.Within fun c => isTokenUnit c = true) (h : m ∈ runs r v) : StartsToken v := by
  refine ⟨m.matched.take 24, ?_, fun c hc => hunits.units h c (List.mem_of_mem_take hc), ?_⟩
  · rw [List.length_take]
    exact Nat.min_eq_left (hlen.trans (minLength_le h))
  · rw [runs_spec h]
    exact (List.take_prefix 24 m.matched).trans (List.prefix_append _ _)

theorem runs_tokenPattern_ne_nil (h : StartsToken v) : runs tokenPattern v ≠ [] := by
  obtain ⟨q, hlen, hq, rest, rfl⟩ := h
  have hmem := mem_runs_times_unit hq rest
  rw [hlen] at hmem
  exact runs_seq_ne_nil hmem (runs_rep_ne_nil true isTokenUnit rest)

theorem isTokenUnit_of_isHexUnit (h : isHexUnit c = true) : isTokenUnit c = true := by
  simp only [isHexUnit, isTokenUnit, Bool.or_eq_true, Bool.and_eq_true, decide_eq_true_eq] at h ⊢
  rcases h with hdigit | ⟨hlow, hhigh⟩
  · exact .inl (.inl (.inl (.inl hdigit)))
  · exact .inl (.inl (.inr ⟨hlow, UInt16.le_trans hhigh (by decide)⟩))

theorem uuidPattern_units : uuidPattern.Within fun c => isTokenUnit c = true := by
  have hgroup (n : Nat) : (times n (unit isHexUnit)).Within fun c => isTokenUnit c = true :=
    within_times (within_unit fun _ => isTokenUnit_of_isHexUnit) n
  have hdash : (lit (text "-")).Within fun c => isTokenUnit c = true :=
    List.all_iff_forall_prop.mp (by decide)
  exact ⟨hgroup 8, hdash, hgroup 4, hdash, hgroup 4, hdash, hgroup 4, hdash, hgroup 12⟩

theorem tokenPattern_units : tokenPattern.Within fun c => isTokenUnit c = true :=
  ⟨within_times (within_unit fun _ h => h) 24, fun _ h => h⟩

theorem head_of_within (hpos : 0 < minLength r)
    (hunits : r.Within fun c => isWhitespace c = false) (h : m ∈ runs r v) :
    ∃ c rest, v = c :: rest ∧ isWhitespace c = false := by
  have hsplit := runs_spec h
  cases hmatched : m.matched with
  | nil =>
    have hle := minLength_le h
    rw [hmatched, List.length_nil] at hle
    omega
  | cons c x =>
    refine ⟨c, x ++ m.rest, ?_, hunits.units h c (hmatched ▸ List.mem_cons_self)⟩
    rw [hsplit, hmatched, List.cons_append]

theorem isWhitespace_of_isTokenUnit (h : isTokenUnit c = true) : isWhitespace c = false := by
  have hall : ∀ n < 0x80, isTokenUnit (UInt16.ofNat n) = true →
      isWhitespace (UInt16.ofNat n) = false := by decide
  have hlt : c.toNat < 0x80 := by
    simp only [isTokenUnit, isDigit, isCapital, Bool.or_eq_true, beq_iff_eq, UInt16.le_iff_toNat_le, ← UInt16.toNat_inj] at h
    simp at h
    omega
  have hc := hall c.toNat hlt
  rw [UInt16.ofNat_toNat] at hc
  exact hc h

/-! ## What placeholders leave as it is -/

def NoUrl (t : Text) : Prop :=
  ∀ v, v <:+ t → ¬StartsUrl v

def NoToken (t : Text) : Prop :=
  ∀ v, v <:+ t → ¬StartsToken v

theorem noUrl_of_part {t u : Text} (h : NoUrl t) (hu : u <:+: t) : NoUrl u := by
  rintro v ⟨x, rfl⟩ ⟨q, hq, c, rest, rfl, hc⟩
  obtain ⟨y, z, rfl⟩ := hu
  refine h (q ++ c :: rest ++ z) ⟨y ++ x, by simp⟩ ⟨q, hq, c, rest ++ z, by simp, hc⟩

theorem noToken_of_part {t u : Text} (h : NoToken t) (hu : u <:+: t) : NoToken u := by
  rintro v ⟨x, rfl⟩ ⟨q, hlen, hq, hlead⟩
  obtain ⟨y, z, rfl⟩ := hu
  exact h (v ++ z) ⟨y ++ x, by simp⟩ ⟨q, hlen, hq, hlead.trans (List.prefix_append v z)⟩

section Replaced

variable {r : Regex} {w t u : Text} {d : CodeUnit}

theorem noUrl_of_replaced (h : Replaced r w t u) (hd : w.head? = some d) (hdq : d ∉ text "https://")
    (hw : 0x68 ∉ w) (hhead : isWhitespace d = false → ∀ {v m}, m ∈ runs r v →
      ∃ c rest, v = c :: rest ∧ isWhitespace c = false)
    (hsource : ∀ v, v <:+ t → runs r v = [] → ¬StartsUrl v) : NoUrl u := by
  rintro v hv ⟨q, hq, c, rest, rfl, hc⟩
  have hunits : ∀ e ∈ q, e ∈ text "https://" := by
    rcases hq with rfl | rfl
    · exact List.all_iff_forall_prop.mp (by decide)
    · exact fun e he => he
  have hne : q ≠ [] := by
    rcases hq with rfl | rfl <;> decide
  have hfirst : ∀ e ∈ q.head?, e ∉ w := by
    rcases hq with rfl | rfl
    · rintro e ⟨⟩
      exact hw
    · rintro e ⟨⟩
      exact hw
  obtain ⟨v', hv', hq', hnone, hrest⟩ := h.origin hd (fun hmem => hdq (hunits d hmem)) hne
    (outside_of_head hfirst hne) (List.prefix_append q (c :: rest)) hv
  rw [List.drop_left] at hrest
  refine hsource v' hv' hnone ?_
  obtain ⟨after, rfl⟩ := hq'
  rw [List.drop_left] at hrest
  -- what follows the scheme is the unit itself, or the first one of what the word replaced
  generalize hu : c :: rest = u' at hrest
  cases hrest with
  | nil => cases hu
  | keep _ _ =>
    obtain ⟨rfl, -⟩ := List.cons.inj hu
    exact ⟨q, hq, c, _, rfl, hc⟩
  | swap hm _ =>
    cases w with
    | nil => cases hd
    | cons e w =>
      cases hd
      obtain ⟨rfl, -⟩ := List.cons.inj hu
      obtain ⟨e, rest', rfl, he⟩ :=
        hhead hc (List.mem_of_mem_head? (Option.mem_def.mpr hm))
      exact ⟨q, hq, e, rest', rfl, he⟩

theorem noToken_of_replaced (h : Replaced r w t u) (hd : w.head? = some d)
    (hdt : isTokenUnit d = false) {e : CodeUnit} (he : w.getLast? = some e)
    (het : isTokenUnit e = false) (hlen : w.length ≤ 24)
    (hsource : ∀ v, v <:+ t → runs r v = [] → ¬StartsToken v) : NoToken u := by
  rintro v hv ⟨q, hq, hunits, hlead⟩
  have hfree {c : CodeUnit} (hc : isTokenUnit c = false) : c ∉ q := by
    intro hmem
    rw [hunits c hmem] at hc
    cases hc
  have hne : q ≠ [] := by
    rintro rfl
    cases hq
  obtain ⟨v', hv', hq', hnone, -⟩ := h.origin hd (hfree hdt) hne
    (outside_of_getLast he (hfree het) (hlen.trans hq.ge)) hlead hv
  exact hsource v' hv' hnone ⟨q, hq, hunits, hq'⟩

theorem charactersFrom_of_replaced {s : Text} (h : Replaced r w t u) (hd : w.head? = some d)
    (hw : ∀ c ∈ w, c < 0x80 ∧ isCapital c = false) (ht : CharactersFrom s t) :
    CharactersFrom s u where
  unit := by
    intro c hc hsurrogate
    rcases h.mem hc with hword | hold
    · exact .inr (hw c hword)
    · exact ht.unit c hold hsurrogate
  pair := by
    intro high low hhigh hlow hin
    have hfree {c : CodeUnit} (hc : isSurrogate c = true) : c ∉ w := by
      intro hmem
      have hlt := (hw c hmem).1
      simp only [isSurrogate, isHighSurrogate, isLowSurrogate, Bool.or_eq_true, Bool.and_eq_true,
        decide_eq_true_eq, UInt16.le_iff_toNat_le] at hc
      rw [UInt16.lt_iff_toNat_lt] at hlt
      simp only [UInt16.reduceToNat] at hc hlt
      omega
    have hhigh' : isSurrogate high = true := by rw [isSurrogate, hhigh, Bool.true_or]
    have hlow' : isSurrogate low = true := by rw [isSurrogate, hlow, Bool.or_true]
    obtain ⟨x, y, hxy⟩ := hin
    have hmem : d ∈ w := List.mem_of_mem_head? (Option.mem_def.mpr hd)
    have hdq : d ∉ [high, low] := by
      intro hdq
      rcases List.mem_pair.mp hdq with rfl | rfl
      · exact hfree hhigh' hmem
      · exact hfree hlow' hmem
    have hfirst : ∀ c ∈ [high, low].head?, c ∉ w := by
      rintro c ⟨⟩
      exact hfree hhigh'
    obtain ⟨v', hv', hq', -⟩ := h.origin hd hdq (List.cons_ne_nil _ _)
      (outside_of_head hfirst (List.cons_ne_nil _ _)) (List.prefix_append [high, low] y)
      ⟨x, by rw [← hxy, List.append_assoc]⟩
    exact ht.pair high low hhigh hlow (hq'.isInfix.trans hv'.isInfix)

end Replaced

/-! ## White space -/

/-- Every white space is a single blank. -/
structure Collapsed (t : Text) : Prop where
  blank : ∀ c ∈ t, isWhitespace c = true → c = space
  single : t.IsChain fun a b => isWhitespace a = true → isWhitespace b = false

variable {t u : Text}

theorem Collapsed.of_part (h : Collapsed t) (hu : u <:+: t) : Collapsed u where
  blank := fun c hc => h.blank c (hu.subset hc)
  single := h.single.infix hu

theorem head?_runs_spacesPattern (hc : isWhitespace c = true) (t : Text) :
    (runs spacesPattern (c :: t)).head?
      = some ⟨c :: t.takeWhile isWhitespace, [], t.dropWhile isWhitespace⟩ := by
  have hunit : runs (unit isWhitespace) (c :: t) = [⟨[c], [], t⟩] := by rw [runs, if_pos hc]
  rw [spacesPattern, plus, runs, hunit, List.flatMap_singleton, List.head?_map, head?_runs_rep]
  rfl

theorem runs_spacesPattern_eq_nil (hc : isWhitespace c = false) (t : Text) :
    runs spacesPattern (c :: t) = [] := by
  have hunit : runs (unit isWhitespace) (c :: t) = [] := by
    rw [runs, hc]
    rfl
  rw [spacesPattern, plus, runs, hunit]
  rfl

theorem matched_spaces (h : (runs spacesPattern t).head? = some m) :
    ∃ c rest, t = c :: rest ∧ isWhitespace c = true ∧ m.rest = rest.dropWhile isWhitespace := by
  cases t with
  | nil => cases h
  | cons c rest =>
    cases hc : isWhitespace c with
    | false =>
      rw [runs_spacesPattern_eq_nil hc] at h
      cases h
    | true =>
      rw [head?_runs_spacesPattern hc] at h
      cases h
      exact ⟨c, rest, rfl, hc, rfl⟩

theorem head_of_replaced_spaces (h : Replaced spacesPattern [space] t u)
    (ht : ∀ c ∈ t.head?, isWhitespace c = false) : ∀ c ∈ u.head?, isWhitespace c = false := by
  cases h with
  | nil => exact ht
  | keep _ _ => exact ht
  | swap hm _ =>
    obtain ⟨c, rest, rfl, hc, -⟩ := matched_spaces hm
    rw [ht c rfl] at hc
    cases hc

theorem head_dropWhile (t : Text) :
    ∀ c ∈ (t.dropWhile isWhitespace).head?, isWhitespace c = false := by
  intro c hc
  have hnot := List.head?_dropWhile_not isWhitespace t
  rw [hc] at hnot
  exact hnot

theorem collapsed_of_replaced (h : Replaced spacesPattern [space] t u) : Collapsed u := by
  refine ⟨fun c hc hspace => List.mem_singleton.mp
    (h.mem_of_matched (fun e v he => runs_plus_ne_nil he v) hc hspace), ?_⟩
  induction h with
  | nil => exact .nil
  | keep hnone _ ih =>
    rename_i c t u _
    refine ih.cons fun e _ hc => ?_
    exact absurd hnone (runs_plus_ne_nil hc t)
  | swap hm hrest ih =>
    obtain ⟨c, rest, -, -, hbehind⟩ := matched_spaces hm
    refine ih.cons fun e he _ => ?_
    exact head_of_replaced_spaces hrest (hbehind ▸ head_dropWhile rest) e he

theorem Collapsed.of_replaced (ht : Collapsed t) (h : Replaced spacesPattern [space] t u) :
    u = t := by
  induction h with
  | nil => rfl
  | keep _ _ ih => exact congrArg _ (ih (ht.of_part (List.suffix_cons _ _).isInfix))
  | swap hm _ ih =>
    obtain ⟨c, rest, rfl, hc, hbehind⟩ := matched_spaces hm
    have hsingle : rest.dropWhile isWhitespace = rest := by
      cases rest with
      | nil => rfl
      | cons e rest =>
        have he := (List.isChain_cons_cons.mp ht.single).1 hc
        rw [List.dropWhile_cons_of_neg (by simp [he])]
    rw [hbehind, hsingle] at ih
    rw [ih (ht.of_part (List.suffix_cons c rest).isInfix), ht.blank c List.mem_cons_self hc]
    rfl

theorem suffix_trimStart (t : Text) : t.trimStart <:+ t :=
  List.dropWhile_suffix _

theorem prefix_trimEnd (t : Text) : t.trimEnd <+: t :=
  List.rdropWhile_prefix isWhitespace t

theorem infix_trim (t : Text) : t.trim <:+: t :=
  (prefix_trimEnd _).isInfix.trans (suffix_trimStart t).isInfix

theorem head_trim (t : Text) : ∀ c ∈ t.trim.head?, isWhitespace c = false := by
  intro c hc
  obtain ⟨rest, hrest⟩ := prefix_trimEnd t.trimStart
  refine head_dropWhile t c ?_
  show c ∈ t.trimStart.head?
  rw [← hrest, List.head?_append]
  exact Option.mem_def.mpr (by rw [show t.trimStart.trimEnd.head? = some c from hc]; rfl)

theorem trimEnd_eq_self_iff : t.trimEnd = t ↔ ∀ c ∈ t.getLast?, isWhitespace c = false := by
  show t.rdropWhile isWhitespace = t ↔ _
  rw [List.rdropWhile_eq_self_iff]
  constructor
  · intro h c hc
    obtain ⟨hne, rfl⟩ := List.mem_getLast?_eq_getLast hc
    exact Bool.not_eq_true _ ▸ h hne
  · intro h hne
    rw [h _ (List.getLast_mem_getLast? hne)]
    exact Bool.false_ne_true

/-! ## Redacted texts -/

/-- A text without capitals, urls, tokens and numbers, whose white space is single blanks. -/
structure Redacted (casing : LowerCasing) (t : Text) : Prop where
  lowered : ∃ s, CharactersFrom (casing.toLowerCase s) t
  noUrl : NoUrl t
  noToken : NoToken t
  noDigit : ∀ c ∈ t, isDigit c = false
  collapsed : Collapsed t
  leading : ∀ c ∈ t.head?, isWhitespace c = false

section Chain

variable {casing : LowerCasing}

variable {v : Text} {m : Match}

theorem urlPattern_heads (h : m ∈ runs urlPattern v) :
    ∃ c rest, v = c :: rest ∧ isWhitespace c = false := by
  obtain ⟨q, hq | hq, c, rest, rfl, hc⟩ := startsUrl_of_mem h
  · exact ⟨0x68, _, by rw [hq]; rfl, by decide⟩
  · exact ⟨0x68, _, by rw [hq]; rfl, by decide⟩

theorem tokens_head (hpos : 0 < minLength r)
    (hunits : r.Within fun c => isTokenUnit c = true) (h : m ∈ runs r v) :
    ∃ c rest, v = c :: rest ∧ isWhitespace c = false :=
  head_of_within hpos (hunits.mono fun _ => isWhitespace_of_isTokenUnit) h

theorem numberPattern_head (h : m ∈ runs numberPattern v) :
    ∃ c rest, v = c :: rest ∧ isWhitespace c = false := by
  obtain ⟨first, hfirst, -⟩ := mem_runs_seq h
  obtain ⟨c, hc, hmatched⟩ := mem_runs_unit hfirst
  refine ⟨c, first.rest, by rw [runs_spec hfirst, hmatched]; rfl, ?_⟩
  exact isWhitespace_of_isTokenUnit (by rw [isTokenUnit, hc]; rfl)

theorem runs_numberPattern_ne_nil (hc : isDigit c = true) (v : Text) :
    runs numberPattern (c :: v) ≠ [] :=
  runs_seq_ne_nil (mem_runs_unit_cons hc v) (runs_rep_ne_nil true _ v)

theorem eq_nil_of_not (h : ∀ m, m ∉ runs r v) : runs r v = [] :=
  List.eq_nil_iff_forall_not_mem.mpr h

variable {t : Text}

theorem replaceAll_numberPattern {w : Text} (h : ∀ c ∈ t, isDigit c = false) :
    replaceAll numberPattern w t = t := by
  refine replaceAll_eq_self (by decide) (fun v hv => eq_nil_of_not fun m hm => ?_) w
  obtain ⟨first, hfirst, -⟩ := mem_runs_seq hm
  obtain ⟨c, hc, hmatched⟩ := mem_runs_unit hfirst
  have hsplit := runs_spec hfirst
  rw [hmatched] at hsplit
  have hnot := h c (hv.subset (hsplit ▸ List.mem_cons_self))
  rw [hnot] at hc
  cases hc

theorem redacted_of_chain {s s₁ s₂ s₃ s₄ s₅ : Text}
    (hurls : Replaced urlPattern (text "<url>") (casing.toLowerCase s) s₁)
    (huuids : Replaced uuidPattern (text "<id>") s₁ s₂)
    (htokens : Replaced tokenPattern (text "<id>") s₂ s₃)
    (hnumbers : Replaced numberPattern (text "<n>") s₃ s₄)
    (hspaces : Replaced spacesPattern [space] s₄ s₅) : Redacted casing s₅.trim := by
  have htrim := infix_trim s₅
  have hlowered : CharactersFrom (casing.toLowerCase s) s₅ := by
    refine charactersFrom_of_replaced hspaces rfl (List.all_iff_forall_prop.mp (by decide)) ?_
    refine charactersFrom_of_replaced hnumbers rfl (List.all_iff_forall_prop.mp (by decide)) ?_
    refine charactersFrom_of_replaced htokens rfl (List.all_iff_forall_prop.mp (by decide)) ?_
    refine charactersFrom_of_replaced huuids rfl (List.all_iff_forall_prop.mp (by decide)) ?_
    exact charactersFrom_of_replaced hurls rfl (List.all_iff_forall_prop.mp (by decide)) (.refl _)
  have hnoUrl : NoUrl s₅ := by
    -- the urls go first, and none comes back
    have h₁ : NoUrl s₁ := noUrl_of_replaced hurls rfl (by decide) (by decide)
      (fun _ {_ _} => urlPattern_heads) fun v _ hnone hstart => runs_urlPattern_ne_nil hstart hnone
    have h₂ : NoUrl s₂ := noUrl_of_replaced huuids rfl (by decide) (by decide)
      (fun _ {_ _} => tokens_head (by decide) uuidPattern_units) fun v hv _ => h₁ v hv
    have h₃ : NoUrl s₃ := noUrl_of_replaced htokens rfl (by decide) (by decide)
      (fun _ {_ _} => tokens_head (by decide) tokenPattern_units) fun v hv _ => h₂ v hv
    have h₄ : NoUrl s₄ := noUrl_of_replaced hnumbers rfl (by decide) (by decide)
      (fun _ {_ _} => numberPattern_head) fun v hv _ => h₃ v hv
    exact noUrl_of_replaced hspaces rfl (by decide) (by decide)
      (fun hspace => absurd hspace (by decide)) fun v hv _ => h₄ v hv
  have hnoToken : NoToken s₅ := by
    have h₃ : NoToken s₃ := noToken_of_replaced htokens rfl (by decide) rfl (by decide) (by decide)
      fun v _ hnone hstart => runs_tokenPattern_ne_nil hstart hnone
    have h₄ : NoToken s₄ := noToken_of_replaced hnumbers rfl (by decide) rfl (by decide) (by decide)
      fun v hv _ => h₃ v hv
    exact noToken_of_replaced hspaces rfl (by decide) rfl (by decide) (by decide)
      fun v hv _ => h₄ v hv
  have hnoDigit : ∀ c ∈ s₅, isDigit c = false := by
    intro c hc
    rcases hspaces.mem hc with hblank | hold
    · rw [List.mem_singleton.mp hblank]
      decide
    · apply Bool.eq_false_iff.mpr
      intro hdigit
      have hword := hnumbers.mem_of_matched (fun e v he => runs_numberPattern_ne_nil he v) hold hdigit
      have hnone : ∀ e ∈ text "<n>", isDigit e = false :=
        List.all_iff_forall_prop.mp (by decide)
      rw [hnone c hword] at hdigit
      cases hdigit
  exact
    { lowered := ⟨s, hlowered.of_part htrim⟩
      noUrl := noUrl_of_part hnoUrl htrim
      noToken := noToken_of_part hnoToken htrim
      noDigit := fun c hc => hnoDigit c (htrim.subset hc)
      collapsed := (collapsed_of_replaced hspaces).of_part htrim
      leading := head_trim s₅ }

/-- **The chain redacts.** -/
theorem redacted_redact (t : Text) : Redacted casing (redact casing t) :=
  redacted_of_chain (replaced_replaceAll (by decide) _ _) (replaced_replaceAll (by decide) _ _)
    (replaced_replaceAll (by decide) _ _) (replaced_replaceAll (by decide) _ _)
    (replaced_replaceAll (by decide) _ _)

theorem Redacted.of_start {u : Text} (h : Redacted casing t) (hu : u <+: t) :
    Redacted casing u where
  lowered := h.lowered.imp fun _ hs => hs.of_part hu.isInfix
  noUrl := noUrl_of_part h.noUrl hu.isInfix
  noToken := noToken_of_part h.noToken hu.isInfix
  noDigit := fun c hc => h.noDigit c (hu.subset hc)
  collapsed := h.collapsed.of_part hu.isInfix
  leading := by
    intro c hc
    obtain ⟨rest, rfl⟩ := hu
    refine h.leading c ?_
    rw [List.head?_append]
    exact Option.mem_def.mpr (by rw [Option.mem_def.mp hc]; rfl)

/-- **A redacted text** only loses the white space at its end. -/
theorem Redacted.redact_eq (h : Redacted casing t) : redact casing t = t.trimEnd := by
  obtain ⟨s, hs⟩ := h.lowered
  have hurls : replaceAll urlPattern (text "<url>") t = t :=
    replaceAll_eq_self (by decide) (fun v hv => eq_nil_of_not fun m hm =>
      h.noUrl v hv (startsUrl_of_mem hm)) _
  have huuids : replaceAll uuidPattern (text "<id>") t = t :=
    replaceAll_eq_self (by decide) (fun v hv => eq_nil_of_not fun m hm =>
      h.noToken v hv (startsToken_of_mem (by decide) uuidPattern_units hm)) _
  have htokens : replaceAll tokenPattern (text "<id>") t = t :=
    replaceAll_eq_self (by decide) (fun v hv => eq_nil_of_not fun m hm =>
      h.noToken v hv (startsToken_of_mem (by decide) tokenPattern_units hm)) _
  have hnumbers : replaceAll numberPattern (text "<n>") t = t := replaceAll_numberPattern h.noDigit
  have hspaces : replaceAll spacesPattern [space] t = t :=
    h.collapsed.of_replaced (replaced_replaceAll (by decide) _ _)
  have hstart : t.trimStart = t := by
    cases t with
    | nil => rfl
    | cons c rest => exact List.dropWhile_cons_of_neg (by simp [h.leading c rfl])
  rw [redact, casing.settled s t hs]
  rw [hurls, huuids, htokens, hnumbers, hspaces, Text.trim, hstart]

/-- **A text without digits does not grow**: every placeholder is shorter than what it replaces. -/
theorem length_redact_le (hdigit : ∀ c ∈ t, isDigit c = false) (hdotted : dottedI ∉ t) :
    (redact casing t).length ≤ t.length := by
  have hlower := casing.length_le t hdotted
  have hnone : ∀ c ∈ casing.toLowerCase t, isDigit c = false := by
    intro c hc
    apply Bool.eq_false_iff.mpr
    intro hc'
    rw [hdigit c (casing.digit t c hc hc')] at hc'
    cases hc'
  have hurls := replaced_replaceAll (by decide : 0 < minLength urlPattern) (text "<url>")
    (casing.toLowerCase t)
  have huuids := replaced_replaceAll (by decide : 0 < minLength uuidPattern) (text "<id>")
    (replaceAll urlPattern (text "<url>") (casing.toLowerCase t))
  have htokens := replaced_replaceAll (by decide : 0 < minLength tokenPattern) (text "<id>")
    (replaceAll uuidPattern (text "<id>")
      (replaceAll urlPattern (text "<url>") (casing.toLowerCase t)))
  have hkept {r : Regex} {w s u : Text} (h : Replaced r w s u) (hw : ∀ c ∈ w, isDigit c = false)
      (hs : ∀ c ∈ s, isDigit c = false) : ∀ c ∈ u, isDigit c = false :=
    fun c hc => (h.mem hc).elim (hw c) (hs c)
  have hurl : ∀ c ∈ text "<url>", isDigit c = false := List.all_iff_forall_prop.mp (by decide)
  have hid : ∀ c ∈ text "<id>", isDigit c = false := List.all_iff_forall_prop.mp (by decide)
  have hthree := hkept htokens hid (hkept huuids hid (hkept hurls hurl hnone))
  rw [redact]
  rw [replaceAll_numberPattern hthree]
  calc (Text.trim (replaceAll spacesPattern [space] _)).length
      ≤ (replaceAll spacesPattern [space] _).length := (infix_trim _).length_le
    _ ≤ _ := (replaced_replaceAll (by decide) [space] _).length_le (by decide)
    _ ≤ _ := htokens.length_le (by decide)
    _ ≤ _ := huuids.length_le (by decide)
    _ ≤ _ := hurls.length_le (by decide)
    _ ≤ t.length := hlower

end Chain

end LlmRelay.Refusals
