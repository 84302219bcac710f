import LlmRelay.Usage.OutputEstimate
import Mathlib.Algebra.BigOperators.Group.Finset.Basic
import Mathlib.Algebra.Order.BigOperators.Group.List
import Mathlib.Data.Finset.Dedup

/-!
# The estimate of a streamed string

A string that arrives in fragments is counted as it comes, and taken back when it turns out to
be a `data:` URL in base64. Every fragment of an undecided string is looked at by character,
so that the decision is the one of `isBase64DataUrl` on the whole string, wherever the fragments
were cut and however the fragments of several strings are interleaved.

## Main definitions

* `textCharacters`: what a whole string contributes to the estimate;
* `Undecided`, `Recognises`: a streamed string, as far as it was received;
* `streamedTextOf`, `streamedKeys`: the strings of interleaved fragments;
* `WithinLimits`: fragments that no bound of the observer cuts off.

## Main results

* `processCandidateCharacters_spec`: the characters up to the decision;
* `streamed_estimate_eq_buffered`: the fragments contribute what the strings do.
-/

namespace LlmRelay

open Ecma

/-! ## The whole string -/

/-- A comma. -/
def headerEnd : CodeUnit := 0x2C

/-- The last seven code units. -/
def lastSeven (t : Text) : Text :=
  t.drop (t.length - 7)

/-- What a whole string contributes. -/
def textCharacters (value : Text) : Nat :=
  if isBase64DataUrl value then 0 else value.length

@[simp] theorem length_asciiLower (t : Text) : (asciiLower t).length = t.length :=
  List.length_map _

theorem asciiLower_append (t u : Text) : asciiLower (t ++ u) = asciiLower t ++ asciiLower u :=
  List.map_append

theorem lastSeven_append (t u : Text) : lastSeven (lastSeven t ++ u) = lastSeven (t ++ u) := by
  unfold lastSeven
  rw [← List.drop_append_of_le_length (by omega : t.length - 7 ≤ t.length), List.drop_drop]
  congr 1
  simp only [List.length_drop, List.length_append]
  omega

theorem length_lastSeven_le (t : Text) : (lastSeven t).length ≤ t.length := by
  rw [lastSeven, List.length_drop]
  omega

theorem indexOf_headerEnd {head : Text} (h : headerEnd ∉ head) (rest : Text) :
    Text.indexOf (head ++ headerEnd :: rest) (text ",") = some head.length := by
  induction head with
  | nil => rfl
  | cons c head ih =>
    rw [List.mem_cons, not_or] at h
    have hc : (text ",").isPrefixOf (c :: (head ++ headerEnd :: rest)) = false := by
      show (headerEnd == c && _) = false
      rw [beq_eq_false_iff_ne.mpr h.1, Bool.false_and]
    rw [List.cons_append, Text.indexOf, hc, ih h.2]
    rfl

theorem indexOf_eq_none {t : Text} (h : headerEnd ∉ t) : Text.indexOf t (text ",") = none := by
  rw [Text.indexOf_eq_none_iff]
  intro hwithin
  exact h (hwithin.subset List.mem_cons_self)

variable {v key : Text} {t : StreamedTextState} {o : Observation}

theorem isBase64DataUrl_of_prefix (h : asciiLower (v.take 5) ≠ text "data:") :
    isBase64DataUrl v = false := by
  rw [isBase64DataUrl, if_pos (.inr h)]

theorem isBase64DataUrl_of_not_mem (h : headerEnd ∉ v.drop 5) : isBase64DataUrl v = false := by
  rw [isBase64DataUrl]
  split
  · rfl
  · rw [indexOf_eq_none h]

theorem isBase64DataUrl_of_header {scheme head : Text} (hscheme : scheme.length = 5)
    (hhead : headerEnd ∉ head) (rest : Text) :
    isBase64DataUrl (scheme ++ head ++ headerEnd :: rest)
      = (asciiLower scheme == text "data:" && asciiLower (lastSeven head) == text ";base64") := by
  have htake : (scheme ++ head ++ headerEnd :: rest).take 5 = scheme := by
    rw [List.append_assoc, List.take_left' hscheme]
  have hdrop : (scheme ++ head ++ headerEnd :: rest).drop 5 = head ++ headerEnd :: rest := by
    rw [List.append_assoc, List.drop_left' hscheme]
  rw [isBase64DataUrl, htake, hdrop, indexOf_headerEnd hhead]
  by_cases hlong : 7 ≤ head.length
  · have hlength : ¬ (scheme ++ head ++ headerEnd :: rest).length < 13 := by
      simp only [List.length_append, List.length_cons]
      omega
    have htail : ((scheme ++ head ++ headerEnd :: rest).drop (head.length + 5 - 7)).take 7
        = lastSeven head := by
      rw [show head.length + 5 - 7 = 5 + (head.length - 7) by omega, ← List.drop_drop, hdrop,
        List.drop_append_of_le_length (by omega)]
      exact List.take_left' (by rw [List.length_drop]; omega)
    simp only [hlength, false_or, htail]
    by_cases hdata : asciiLower scheme = text "data:"
    · rw [hdata, decide_eq_true (by omega : 12 ≤ head.length + 5)]
      simp
    · rw [if_pos hdata, beq_eq_false_iff_ne.mpr hdata, Bool.false_and]
  · -- the header is too short for its suffix
    have hshort : asciiLower (lastSeven head) ≠ text ";base64" := by
      intro h
      have hlength := congrArg List.length h
      have hle := length_lastSeven_le head
      rw [length_asciiLower, show (text ";base64").length = 7 by decide] at hlength
      omega
    rw [beq_eq_false_iff_ne.mpr hshort, Bool.and_false]
    split
    · rfl
    · dsimp only
      rw [decide_eq_false (by omega : ¬ 12 ≤ head.length + 5), Bool.false_and]

/-! ## Character by character -/

/-- A character of a string: a code unit, or a surrogate pair. -/
def IsCharacter (character : Text) : Prop :=
  (∃ c, character = [c])
    ∨ ∃ c d, character = [c, d] ∧ isHighSurrogate c = true ∧ isLowSurrogate d = true

theorem stringCharacters_spec (t : Text) :
    (stringCharacters t).flatten = t ∧ ∀ character ∈ stringCharacters t, IsCharacter character := by
  fun_induction stringCharacters t with
  | case1 => exact ⟨rfl, fun _ h => absurd h List.not_mem_nil⟩
  | case2 c => exact ⟨rfl, fun character h => .inl ⟨c, List.mem_singleton.mp h⟩⟩
  | case3 c d rest hpair ih =>
    refine ⟨by rw [List.flatten_cons, ih.1]; rfl, fun character h => ?_⟩
    rcases List.mem_cons.mp h with rfl | h
    · exact .inr ⟨c, d, rfl, Bool.and_eq_true_iff.mp hpair⟩
    · exact ih.2 character h
  | case4 c d rest hpair ih =>
    refine ⟨by rw [List.flatten_cons, ih.1]; rfl, fun character h => ?_⟩
    rcases List.mem_cons.mp h with rfl | h
    · exact .inl ⟨c, rfl⟩
    · exact ih.2 character h

theorem ne_of_isHighSurrogate {c : CodeUnit} (h : isHighSurrogate c = true) (d : CodeUnit)
    (hd : d ≤ 0x7F) : (if 0x41 ≤ c ∧ c ≤ 0x5A then c + 0x20 else c) ≠ d ∧ c ≠ d := by
  simp only [isHighSurrogate, Bool.and_eq_true, decide_eq_true_eq, UInt16.le_iff_toNat_le] at h hd
  have hlarge : ¬ c ≤ 0x5A := by
    rw [UInt16.le_iff_toNat_le]
    have h1 : (0x5A : UInt16).toNat = 0x5A := rfl
    have h2 : (0xD800 : UInt16).toNat = 0xD800 := rfl
    omega
  have hne : c ≠ d := by
    rintro rfl
    have h1 : (0x7F : UInt16).toNat = 0x7F := rfl
    have h2 : (0xD800 : UInt16).toNat = 0xD800 := rfl
    omega
  exact ⟨by rw [if_neg fun hc => hlarge hc.2]; exact hne, hne⟩

theorem headerEnd_not_mem_pair {c d : CodeUnit} (hc : isHighSurrogate c = true)
    (hd : isLowSurrogate d = true) : headerEnd ∉ ([c, d] : Text) := by
  have hcomma := (ne_of_isHighSurrogate hc headerEnd (by decide)).2
  rw [List.mem_cons, List.mem_singleton, not_or]
  refine ⟨hcomma.symm, ?_⟩
  rintro rfl
  exact absurd hd (by decide)

/-- The string `v` may still turn out to be binary data, and `t` says so. -/
structure Undecided (t : StreamedTextState) (v : Text) : Prop where
  prefixText : t.prefixText = v.take 5
  headerTail : t.headerTail = lastSeven (v.drop 5)
  scheme : asciiLower (v.take 5) = (text "data:").take v.length
  header : headerEnd ∉ v.drop 5

theorem Undecided.new : Undecided ⟨.candidate, 0, [], []⟩ [] :=
  ⟨rfl, rfl, rfl, List.not_mem_nil⟩

theorem Undecided.isBase64DataUrl {t : StreamedTextState} {v : Text} (h : Undecided t v) :
    isBase64DataUrl v = false :=
  isBase64DataUrl_of_not_mem h.header

/-- The state `t'` after the string has become `v`, and the characters counted: `n'` of them,
where `n` were counted with all of the undecided string. -/
def Recognises (t t' : StreamedTextState) (n n' : Int) (v : Text) : Prop :=
  match t'.disposition with
  | .candidate => Undecided t' v ∧ t'.heldCharacters = t.heldCharacters ∧ n' = n
  | .count => (∀ u, isBase64DataUrl (v ++ u) = false) ∧ n' = n
  | .skip => (∀ u, isBase64DataUrl (v ++ u) = true) ∧ n' = n - t.heldCharacters

theorem not_data_of_scheme {character : Text} (hcharacter : IsCharacter character)
    (hshort : v.length < 5)
    (h : asciiLower (v ++ character) ≠ (text "data:").take (v ++ character).length) (u : Text) :
    isBase64DataUrl (v ++ character ++ u) = false := by
  apply isBase64DataUrl_of_prefix
  intro hdata
  by_cases hle : (v ++ character).length ≤ 5
  · have hsame : (asciiLower ((v ++ character ++ u).take 5)).take (v ++ character).length
        = asciiLower (v ++ character) := by
      unfold asciiLower
      rw [← List.map_take, List.take_take, Nat.min_eq_left hle, List.take_left]
    exact h (by rw [← hsame, hdata])
  · -- a surrogate pair stands where the scheme ends
    rcases hcharacter with ⟨c, rfl⟩ | ⟨c, d, rfl, hc, -⟩
    · simp only [List.length_append, List.length_singleton] at hle
      omega
    · have hfour : v.length = 4 := by
        simp only [List.length_append, List.length_cons, List.length_nil] at hle
        omega
      have htake : (v ++ [c, d] ++ u).take 5 = v ++ [c] := by
        rw [show v ++ [c, d] ++ u = (v ++ [c]) ++ (d :: u) by simp]
        exact List.take_left' (by simp [hfour])
      rw [htake, asciiLower_append, show text "data:" = text "data" ++ [0x3A] by decide] at hdata
      have hlast := (List.append_inj' hdata rfl).2
      exact (ne_of_isHighSurrogate hc 0x3A (by decide)).1 (List.head_eq_of_cons_eq hlast)

/-- **One character** of an undecided string. -/
theorem processCandidateCharacter_spec {character : Text} (h : Undecided t v)
    (hdisposition : t.disposition = .candidate) (hcharacter : IsCharacter character) (n : Int) :
    let p := processCandidateCharacter character t n
    Recognises t p.2.1 n p.2.2 (v ++ character)
      ∧ (p.1 = false ↔ p.2.1.disposition = .candidate) := by
  unfold processCandidateCharacter
  by_cases hshort : t.prefixText.length < 5
  · have hv : v.length < 5 := by
      rw [h.prefixText, List.length_take] at hshort
      omega
    have hprefix : t.prefixText = v := by
      rw [h.prefixText, List.take_of_length_le (by omega)]
    rw [if_pos hshort, hprefix]
    by_cases hscheme : asciiLower (v ++ character) = (text "data:").take (v ++ character).length
    · rw [if_neg (not_not.mpr hscheme)]
      have hle : (v ++ character).length ≤ 5 := by
        have hlength := congrArg List.length hscheme
        rw [length_asciiLower, List.length_take] at hlength
        have hfive : (text "data:").length = 5 := by decide
        omega
      have hdrop : (v ++ character).drop 5 = [] := List.drop_eq_nil_of_le hle
      have htail : t.headerTail = lastSeven [] := by
        rw [h.headerTail, List.drop_eq_nil_of_le (by omega)]
      refine ⟨?_, by simp [hdisposition]⟩
      simp only [Recognises, hdisposition]
      refine ⟨⟨(List.take_of_length_le hle).symm, by rw [hdrop]; exact htail, ?_, ?_⟩, trivial, trivial⟩
      · rw [List.take_of_length_le hle, hscheme]
      · rw [hdrop]
        exact List.not_mem_nil
    · rw [if_pos hscheme]
      exact ⟨⟨not_data_of_scheme hcharacter hv hscheme, rfl⟩, by simp⟩
  · have hv : 5 ≤ v.length := by
      rw [h.prefixText, List.length_take] at hshort
      omega
    have hlength : (v.take 5).length = 5 := by rw [List.length_take]; omega
    have hdata : asciiLower (v.take 5) = text "data:" := by
      rw [h.scheme]
      exact List.take_of_length_le (by rw [show (text "data:").length = 5 by decide]; exact hv)
    rw [if_neg hshort]
    by_cases hcomma : character = text ","
    · have hwhole : ∀ u, isBase64DataUrl (v ++ character ++ u)
          = (asciiLower t.headerTail == text ";base64") := by
        intro u
        have hsplit : v ++ character ++ u = v.take 5 ++ v.drop 5 ++ headerEnd :: u := by
          rw [List.take_append_drop, hcomma, List.append_assoc]
          rfl
        rw [hsplit, isBase64DataUrl_of_header hlength h.header, hdata, h.headerTail]
        simp
      rw [if_pos hcomma]
      by_cases hbase : asciiLower t.headerTail = text ";base64"
      · rw [if_pos hbase]
        exact ⟨⟨fun u => by rw [hwhole u, hbase]; decide, rfl⟩, by simp⟩
      · rw [if_neg hbase]
        exact ⟨⟨fun u => by rw [hwhole u]; exact beq_eq_false_iff_ne.mpr hbase, rfl⟩, by simp⟩
    · rw [if_neg hcomma]
      refine ⟨?_, by simp [hdisposition]⟩
      have hdrop : (v ++ character).drop 5 = v.drop 5 ++ character :=
        List.drop_append_of_le_length hv
      have htake : (v ++ character).take 5 = v.take 5 := List.take_append_of_le_length hv
      simp only [Recognises, hdisposition]
      refine ⟨⟨by rw [htake]; exact h.prefixText, ?_, ?_, ?_⟩, trivial, trivial⟩
      · rw [hdrop, ← lastSeven_append, ← h.headerTail]
        rfl
      · rw [htake, hdata]
        refine (List.take_of_length_le ?_).symm
        rw [List.length_append, show (text "data:").length = 5 by decide]
        omega
      · rw [hdrop, List.mem_append, not_or]
        refine ⟨h.header, ?_⟩
        rcases hcharacter with ⟨c, rfl⟩ | ⟨c, d, rfl, hc, hd⟩
        · rw [List.mem_singleton]
          rintro rfl
          exact hcomma rfl
        · exact headerEnd_not_mem_pair hc hd

/-- **The characters of a fragment**, up to the one that decides. -/
theorem processCandidateCharacters_spec (h : Undecided t v)
    (hdisposition : t.disposition = .candidate) {characters : List Text}
    (hcharacters : ∀ character ∈ characters, IsCharacter character) (n : Int) :
    Recognises t (processCandidateCharacters characters t n).1 n
      (processCandidateCharacters characters t n).2 (v ++ characters.flatten) := by
  induction characters generalizing t v n with
  | nil =>
    simp only [processCandidateCharacters, List.flatten_nil, List.append_nil, Recognises,
      hdisposition]
    exact ⟨h, trivial, trivial⟩
  | cons character rest ih =>
    have hstep := processCandidateCharacter_spec h hdisposition
      (hcharacters character List.mem_cons_self) n
    rw [processCandidateCharacters, List.flatten_cons, ← List.append_assoc]
    generalize processCandidateCharacter character t n = p at hstep ⊢
    obtain ⟨done, t', n'⟩ := p
    obtain ⟨hspec, hdone⟩ := hstep
    cases done with
    | true =>
      -- the rest of the fragment is not looked at
      have hsettled : t'.disposition ≠ .candidate := fun hc => by
        cases hdone.mpr hc
      unfold Recognises at hspec ⊢
      cases hd : t'.disposition with
      | candidate => exact absurd hd hsettled
      | count =>
        simp only [hd] at hspec ⊢
        exact ⟨fun u => by rw [List.append_assoc]; exact hspec.1 _, hspec.2⟩
      | skip =>
        simp only [hd] at hspec ⊢
        exact ⟨fun u => by rw [List.append_assoc]; exact hspec.1 _, hspec.2⟩
    | false =>
      have hcandidate : t'.disposition = .candidate := hdone.mp rfl
      unfold Recognises at hspec
      simp only [hcandidate] at hspec
      obtain ⟨hundecided, hheld, rfl⟩ := hspec
      have hlater := ih hundecided hcandidate
        (fun c hc => hcharacters c (List.mem_cons_of_mem _ hc)) n'
      unfold Recognises at hlater ⊢
      rw [hheld] at hlater
      exact hlater

/-! ## Fragment by fragment -/

/-- The stored state of a string of which `v` has arrived. -/
def StreamedTextState.Follows (t : StreamedTextState) (v : Text) : Prop :=
  match t.disposition with
  | .candidate => Undecided t v ∧ t.heldCharacters = v.length
  | .count => ∀ u, isBase64DataUrl (v ++ u) = false
  | .skip => ∀ u, isBase64DataUrl (v ++ u) = true

theorem textCharacters_of_false (h : isBase64DataUrl v = false) : textCharacters v = v.length := by
  rw [textCharacters, h]
  rfl

theorem textCharacters_of_true (h : isBase64DataUrl v = true) : textCharacters v = 0 := by
  rw [textCharacters, h]
  rfl

theorem textCharacters_le (v : Text) : textCharacters v ≤ v.length := by
  unfold textCharacters
  split
  · exact Nat.zero_le _
  · exact Nat.le_refl _

theorem recordOutputCharacters_estimate {n : Nat} (hclean : o.estimate.overflow = false)
    (hn : isSafeInteger n = true) (hnext : isSafeInteger (o.estimate.characters + n) = true) :
    (recordOutputCharacters n o).estimate
      = { o.estimate with characters := o.estimate.characters + n } := by
  unfold recordOutputCharacters
  by_cases hzero : n = 0
  · rw [hzero]
    simp
  · rw [if_neg (by rw [hclean, hn]; simp [hzero])]
    rw [if_neg (by rw [hnext]; exact Bool.noConfusion)]
    rfl

/-- **One fragment**: the estimate grows by what the fragment adds to the string. -/
theorem continueStreamedText_estimate {value : Text} (hfollows : t.Follows v)
    (hclean : o.estimate.overflow = false) (hstored : o.estimate.streamedTexts.get? key = some t)
    (hheld : isSafeInteger ((v ++ value).length : Int) = true)
    (hvalue : isSafeInteger (value.length : Int) = true)
    (hnext : isSafeInteger (o.estimate.characters + value.length) = true) :
    ∃ t', t'.Follows (v ++ value) ∧
      (continueStreamedText key value t o).estimate
        = { o.estimate with
              characters := o.estimate.characters + textCharacters (v ++ value) - textCharacters v
              streamedTexts := o.estimate.streamedTexts.set key t' } := by
  have hsame : o.estimate.streamedTexts.set key t = o.estimate.streamedTexts :=
    OrderedMap.set_of_get? hstored
  have hlength : ((v ++ value).length : Int) = v.length + value.length := by
    rw [List.length_append, Int.natCast_add]
  unfold continueStreamedText
  unfold StreamedTextState.Follows at hfollows
  cases hd : t.disposition with
  | count =>
    simp only [hd] at hfollows ⊢
    refine ⟨t, ?_, ?_⟩
    · simp only [StreamedTextState.Follows, hd]
      exact fun u => by rw [List.append_assoc]; exact hfollows _
    · have hgrown : o.estimate.characters + value.length
          = o.estimate.characters + textCharacters (v ++ value) - textCharacters v := by
        rw [textCharacters_of_false (hfollows value),
          textCharacters_of_false (by simpa using hfollows [])]
        omega
      rw [recordOutputCharacters_estimate hclean hvalue hnext, hsame, hgrown]
  | skip =>
    simp only [hd] at hfollows ⊢
    refine ⟨t, ?_, ?_⟩
    · simp only [StreamedTextState.Follows, hd]
      exact fun u => by rw [List.append_assoc]; exact hfollows _
    · rw [hsame, textCharacters_of_true (hfollows value),
        textCharacters_of_true (by simpa using hfollows [])]
      simp
  | candidate =>
    simp only [hd] at hfollows ⊢
    obtain ⟨hundecided, hcount⟩ := hfollows
    have hheld' : isSafeInteger ((t.heldCharacters + value.length : Nat) : Int) = true := by
      rw [hcount, ← List.length_append]
      exact hheld
    have hspec := processCandidateCharacters_spec
      (t := ⟨.candidate, t.heldCharacters + value.length, t.prefixText, t.headerTail⟩)
      ⟨hundecided.prefixText, hundecided.headerTail, hundecided.scheme, hundecided.header⟩ rfl
      (stringCharacters_spec value).2 (o.estimate.characters + value.length)
    rw [(stringCharacters_spec value).1] at hspec
    rw [if_neg (by rw [hheld', hnext]; simp)]
    generalize processCandidateCharacters (stringCharacters value)
      ⟨.candidate, t.heldCharacters + value.length, t.prefixText, t.headerTail⟩
      (o.estimate.characters + value.length) = p at hspec ⊢
    obtain ⟨t', n'⟩ := p
    have hbefore : textCharacters v = v.length := textCharacters_of_false hundecided.isBase64DataUrl
    refine ⟨t', ?_, ?_⟩
    · unfold Recognises at hspec
      unfold StreamedTextState.Follows
      cases hd' : t'.disposition with
      | candidate =>
        simp only [hd'] at hspec ⊢
        exact ⟨hspec.1, by rw [hspec.2.1, hcount, List.length_append]⟩
      | count =>
        simp only [hd'] at hspec ⊢
        exact hspec.1
      | skip =>
        simp only [hd'] at hspec ⊢
        exact hspec.1
    · have hcharacters : n' = o.estimate.characters + textCharacters (v ++ value)
          - textCharacters v := by
        unfold Recognises at hspec
        cases hd' : t'.disposition with
        | candidate =>
          simp only [hd'] at hspec
          rw [textCharacters_of_false hspec.1.isBase64DataUrl]
          omega
        | count =>
          simp only [hd'] at hspec
          rw [hspec.2, textCharacters_of_false (by simpa using hspec.1 [])]
          omega
        | skip =>
          simp only [hd'] at hspec
          rw [hspec.2, textCharacters_of_true (by simpa using hspec.1 [])]
          omega
      rw [← hcharacters]
      rfl

/-! ## Interleaved fragments -/

/-- A fragment, with the key of its string. -/
abbrev Fragment :=
  Text × Text

/-- The string of a key. -/
def streamedTextOf (fragments : List Fragment) (key : Text) : Text :=
  (fragments.filter fun d => d.1 = key).flatMap Prod.snd

/-- The keys of the strings that are not empty. -/
def streamedKeys (fragments : List Fragment) : List Text :=
  ((fragments.filter fun d => d.2 ≠ []).map Prod.fst).dedup

theorem nodup_streamedKeys (fragments : List Fragment) : (streamedKeys fragments).Nodup :=
  List.nodup_dedup _

/-- What the strings contribute together, where each contributes `f`. -/
def contribution (f : Text → Nat) (fragments : List Fragment) : Nat :=
  ((streamedKeys fragments).map fun key => f (streamedTextOf fragments key)).sum

/-- The code units of all fragments. -/
def fragmentLength (fragments : List Fragment) : Nat :=
  (fragments.map fun d => d.2.length).sum

theorem streamedTextOf_snoc (fragments : List Fragment) (d : Fragment) (key : Text) :
    streamedTextOf (fragments ++ [d]) key
      = if d.1 = key then streamedTextOf fragments key ++ d.2 else streamedTextOf fragments key := by
  unfold streamedTextOf
  split
  · rename_i h
    simp [h]
  · rename_i h
    simp [h]

variable {fragments : List Fragment} {d : Fragment}

theorem mem_streamedKeys :
    key ∈ streamedKeys fragments ↔ ∃ d ∈ fragments, d.2 ≠ [] ∧ d.1 = key := by
  simp only [streamedKeys, List.mem_dedup, List.mem_map, List.mem_filter, decide_eq_true_eq,
    and_assoc]

theorem streamedTextOf_of_not_mem (h : key ∉ streamedKeys fragments) :
    streamedTextOf fragments key = [] := by
  rw [streamedTextOf, List.flatMap_eq_nil_iff]
  intro d hd
  rw [List.mem_filter, decide_eq_true_eq] at hd
  by_contra hne
  exact h (mem_streamedKeys.mpr ⟨d, hd.1, hne, hd.2⟩)

theorem streamedKeys_snoc_of_nil (fragments : List Fragment) (h : d.2 = []) :
    streamedKeys (fragments ++ [d]) = streamedKeys fragments := by
  simp [streamedKeys, h]

theorem mem_streamedKeys_snoc (h : d.2 ≠ []) :
    key ∈ streamedKeys (fragments ++ [d]) ↔ key = d.1 ∨ key ∈ streamedKeys fragments := by
  rw [mem_streamedKeys, mem_streamedKeys]
  constructor
  · rintro ⟨d', hd', hne, rfl⟩
    rcases List.mem_append.mp hd' with hold | hnew
    · exact .inr ⟨d', hold, hne, rfl⟩
    · rw [List.mem_singleton.mp hnew]
      exact .inl rfl
  · rintro (rfl | ⟨d', hd', hne, rfl⟩)
    · exact ⟨d, List.mem_append_right _ List.mem_cons_self, h, rfl⟩
    · exact ⟨d', List.mem_append_left _ hd', hne, rfl⟩

theorem length_streamedKeys_snoc {fragments : List Fragment} {d : Fragment} (h : d.2 ≠ []) :
    (streamedKeys (fragments ++ [d])).length
      = (streamedKeys fragments).length + if d.1 ∈ streamedKeys fragments then 0 else 1 := by
  have hcard : ∀ ds : List Fragment, (streamedKeys ds).length = (streamedKeys ds).toFinset.card :=
    fun ds => (List.toFinset_card_of_nodup (nodup_streamedKeys ds)).symm
  have hinsert : (streamedKeys (fragments ++ [d])).toFinset
      = insert d.1 (streamedKeys fragments).toFinset := by
    ext key
    rw [List.mem_toFinset, mem_streamedKeys_snoc h, Finset.mem_insert, List.mem_toFinset]
  rw [hcard, hcard, hinsert]
  split
  · rename_i hmem
    rw [Finset.insert_eq_of_mem (List.mem_toFinset.mpr hmem), Nat.add_zero]
  · rename_i hmem
    rw [Finset.card_insert_of_notMem (fun hin => hmem (List.mem_toFinset.mp hin))]

theorem contribution_eq {f : Text → Nat} (hf : f [] = 0) {keys : Finset Text}
    (h : ∀ key ∈ streamedKeys fragments, key ∈ keys) :
    contribution f fragments = ∑ key ∈ keys, f (streamedTextOf fragments key) := by
  rw [contribution, ← List.sum_toFinset _ (nodup_streamedKeys fragments)]
  refine Finset.sum_subset (fun key hkey => h key (List.mem_toFinset.mp hkey)) fun key _ hkey => ?_
  rw [streamedTextOf_of_not_mem fun hin => hkey (List.mem_toFinset.mpr hin), hf]

theorem contribution_snoc {f : Text → Nat} (hf : f [] = 0) (fragments : List Fragment)
    (d : Fragment) :
    contribution f (fragments ++ [d]) + f (streamedTextOf fragments d.1)
      = contribution f fragments + f (streamedTextOf fragments d.1 ++ d.2) := by
  let keys := insert d.1 (streamedKeys fragments).toFinset
  have hkeys : ∀ key ∈ streamedKeys fragments, key ∈ keys := fun key hkey =>
    Finset.mem_insert_of_mem (List.mem_toFinset.mpr hkey)
  have hkeys' : ∀ key ∈ streamedKeys (fragments ++ [d]), key ∈ keys := by
    intro key hkey
    by_cases hnil : d.2 = []
    · rw [streamedKeys_snoc_of_nil fragments hnil] at hkey
      exact hkeys key hkey
    · rcases (mem_streamedKeys_snoc hnil).mp hkey with rfl | hkey
      · exact Finset.mem_insert_self _ _
      · exact hkeys key hkey
  have hmem : d.1 ∈ keys := Finset.mem_insert_self _ _
  rw [contribution_eq hf hkeys', contribution_eq hf hkeys, ← Finset.add_sum_erase keys _ hmem,
    ← Finset.add_sum_erase keys (fun key => f (streamedTextOf fragments key)) hmem]
  have hothers : ∑ key ∈ keys.erase d.1, f (streamedTextOf (fragments ++ [d]) key)
      = ∑ key ∈ keys.erase d.1, f (streamedTextOf fragments key) := by
    refine Finset.sum_congr rfl fun key hkey => ?_
    rw [streamedTextOf_snoc, if_neg (Finset.ne_of_mem_erase hkey).symm]
  rw [streamedTextOf_snoc, if_pos rfl]
  omega

theorem contribution_nil (f : Text → Nat) : contribution f [] = 0 := rfl

theorem contribution_length (fragments : List Fragment) :
    contribution List.length fragments = fragmentLength fragments := by
  induction fragments using List.reverseRecOn with
  | nil => rfl
  | append_singleton fragments d ih =>
    have hsnoc := contribution_snoc List.length_nil fragments d
    rw [ih, List.length_append] at hsnoc
    simp only [fragmentLength, List.map_append, List.map_cons, List.map_nil, List.sum_append,
      List.sum_cons, List.sum_nil] at hsnoc ⊢
    omega

theorem contribution_textCharacters_le (fragments : List Fragment) :
    contribution textCharacters fragments ≤ fragmentLength fragments := by
  rw [← contribution_length]
  exact List.sum_le_sum fun key _ => textCharacters_le _

/-! ## The run -/

/-- The observation after the fragments. -/
def appendFragments (o : Observation) (fragments : List Fragment) : Observation :=
  fragments.foldl (fun o d => appendStreamedOutputText d.1 (some (.str d.2)) o) o

/-- The observation after the strings, each recorded whole. -/
def recordStrings (o : Observation) (strings : List Text) : Observation :=
  strings.foldl (fun o value => recordOutputText (some (.str value)) o) o

/-- No bound cuts the fragments off: the estimate is not tainted, the strings are new and there
is room for them, and the numbers of characters are safe integers. -/
structure WithinLimits (o : Observation) (fragments : List Fragment) : Prop where
  clean : o.estimate.overflow = false
  fresh : ∀ d ∈ fragments, o.estimate.streamedTexts.get? d.1 = none
  fields : o.estimate.streamedTexts.values.length + (streamedKeys fragments).length
    ≤ MAX_STREAMED_TEXT_FIELDS
  before : isSafeInteger o.estimate.characters = true
  text : isSafeInteger (fragmentLength fragments) = true
  after : isSafeInteger (o.estimate.characters + fragmentLength fragments) = true

theorem isSafeInteger_iff {n : Int} :
    isSafeInteger n = true ↔ -(maxSafeInteger : Int) ≤ n ∧ n ≤ maxSafeInteger := by
  rw [isSafeInteger, decide_eq_true_eq]
  omega

theorem isSafeInteger_between {a b n : Int} (ha : isSafeInteger a = true)
    (hb : isSafeInteger b = true) (han : a ≤ n) (hnb : n ≤ b) : isSafeInteger n = true := by
  rw [isSafeInteger_iff] at ha hb ⊢
  omega

theorem fragmentLength_snoc (fragments : List Fragment) (d : Fragment) :
    fragmentLength (fragments ++ [d]) = fragmentLength fragments + d.2.length := by
  simp [fragmentLength]

theorem WithinLimits.init (h : WithinLimits o (fragments ++ [d])) : WithinLimits o fragments where
  clean := h.clean
  fresh d' hd' := h.fresh d' (List.mem_append_left _ hd')
  fields := by
    have hfields := h.fields
    by_cases hnil : d.2 = []
    · rwa [streamedKeys_snoc_of_nil fragments hnil] at hfields
    · rw [length_streamedKeys_snoc hnil] at hfields
      omega
  before := h.before
  text := by
    refine isSafeInteger_between (a := 0) (by decide) h.text (by omega) ?_
    rw [fragmentLength_snoc]
    omega
  after := by
    refine isSafeInteger_between h.before h.after (by omega) ?_
    rw [fragmentLength_snoc]
    omega

/-- The observation `o` after the fragments, which began at `o₀`. -/
structure Streamed (o₀ : Observation) (fragments : List Fragment) (o : Observation) : Prop where
  clean : o.estimate.overflow = false
  characters : o.estimate.characters
    = o₀.estimate.characters + contribution textCharacters fragments
  fields : o.estimate.streamedTexts.values.length
    = o₀.estimate.streamedTexts.values.length + (streamedKeys fragments).length
  seen : ∀ key ∈ streamedKeys fragments, ∃ t, o.estimate.streamedTexts.get? key = some t
    ∧ t.Follows (streamedTextOf fragments key)
  others : ∀ key ∉ streamedKeys fragments,
    o.estimate.streamedTexts.get? key = o₀.estimate.streamedTexts.get? key

theorem Streamed.new (h : o.estimate.overflow = false) : Streamed o [] o where
  clean := h
  characters := by rw [contribution_nil, Int.natCast_zero, Int.add_zero]
  fields := rfl
  seen _ hkey := absurd hkey List.not_mem_nil
  others _ _ := rfl

theorem follows_new : StreamedTextState.Follows ⟨.candidate, 0, [], []⟩ [] :=
  ⟨.new, rfl⟩

/-- What a string that may be new has in store. -/
def StoredFor (o : Observation) (key v : Text) : Prop :=
  match o.estimate.streamedTexts.get? key with
  | some t => t.Follows v
  | none => v = [] ∧ o.estimate.streamedTexts.values.length < MAX_STREAMED_TEXT_FIELDS

/-- **One append** of the observer. -/
theorem appendStreamedOutputText_estimate {value : Text} (hstored : StoredFor o key v)
    (hclean : o.estimate.overflow = false) (hne : value ≠ [])
    (hheld : isSafeInteger ((v ++ value).length : Int) = true)
    (hvalue : isSafeInteger (value.length : Int) = true)
    (hnext : isSafeInteger (o.estimate.characters + value.length) = true) :
    ∃ t', t'.Follows (v ++ value) ∧
      (appendStreamedOutputText key (some (.str value)) o).estimate
        = { o.estimate with
              characters := o.estimate.characters + textCharacters (v ++ value) - textCharacters v
              streamedTexts := o.estimate.streamedTexts.set key t' } := by
  have hlength : value.length ≠ 0 := fun h => hne (List.eq_nil_of_length_eq_zero h)
  unfold appendStreamedOutputText
  simp only [Json.string?]
  rw [if_neg (by rw [hclean]; simp [hlength])]
  unfold StoredFor at hstored
  cases hget : o.estimate.streamedTexts.get? key with
  | some t =>
    simp only [hget] at hstored ⊢
    exact continueStreamedText_estimate hstored hclean hget hheld hvalue hnext
  | none =>
    simp only [hget] at hstored ⊢
    obtain ⟨rfl, hroom⟩ := hstored
    rw [if_neg (Nat.not_le.mpr hroom)]
    -- the new string is stored first, and overwritten by what the fragment makes of it
    obtain ⟨t', hfollows, hestimate⟩ := continueStreamedText_estimate
      (o := o.withStreamedTexts (o.estimate.streamedTexts.set key ⟨.candidate, 0, [], []⟩))
      follows_new hclean (OrderedMap.get?_set_self _ _ _) hheld hvalue hnext
    refine ⟨t', hfollows, hestimate.trans ?_⟩
    simp only [Observation.withStreamedTexts, OrderedMap.set_set]

theorem values_length_set (m : OrderedMap Text StreamedTextState) (key : Text)
    (t : StreamedTextState) :
    (m.set key t).values.length = m.values.length + if (m.get? key).isSome then 0 else 1 := by
  cases hget : m.get? key with
  | none =>
    rw [OrderedMap.length_values, OrderedMap.entries_set_of_none t hget]
    simp
  | some t' =>
    have h := OrderedMap.countP_values_set_of_some (fun _ => true) t hget
    simpa using h

theorem length_streamedTextOf_le (fragments : List Fragment) (key : Text) :
    (streamedTextOf fragments key).length ≤ fragmentLength fragments := by
  induction fragments using List.reverseRecOn with
  | nil => exact Nat.zero_le _
  | append_singleton fragments d ih =>
    rw [streamedTextOf_snoc, fragmentLength_snoc]
    split
    · rw [List.length_append]
      omega
    · omega

/-- **One further fragment.** -/
theorem Streamed.snoc {o₀ : Observation} (h : Streamed o₀ fragments o)
    (hlimits : WithinLimits o₀ (fragments ++ [d])) :
    Streamed o₀ (fragments ++ [d]) (appendStreamedOutputText d.1 (some (.str d.2)) o) := by
  have hsum := contribution_snoc (f := textCharacters) rfl fragments d
  have hle := contribution_textCharacters_le fragments
  have htext := length_streamedTextOf_le fragments d.1
  have htotal := fragmentLength_snoc fragments d
  by_cases hnil : d.2 = []
  · -- an empty fragment is not looked at
    have hsame : appendStreamedOutputText d.1 (some (.str d.2)) o = o := by
      rw [hnil]
      unfold appendStreamedOutputText
      simp [Json.string?]
    have htexts : ∀ key, streamedTextOf (fragments ++ [d]) key = streamedTextOf fragments key := by
      intro key
      rw [streamedTextOf_snoc, hnil, List.append_nil, ite_self]
    have hkeys := streamedKeys_snoc_of_nil fragments hnil
    rw [hnil, List.append_nil] at hsum
    rw [hsame]
    exact ⟨h.clean, by rw [h.characters]; omega, by rw [hkeys]; exact h.fields,
      fun key hkey => by rw [htexts]; exact h.seen key (hkeys ▸ hkey),
      fun key hkey => h.others key (hkeys ▸ hkey)⟩
  have hlength := @length_streamedKeys_snoc fragments d hnil
  have hfields := hlimits.fields
  have hmem : d.1 ∈ streamedKeys fragments ↔
      (o.estimate.streamedTexts.get? d.1).isSome = true := by
    constructor
    · intro hin
      obtain ⟨t, ht, -⟩ := h.seen d.1 hin
      rw [ht]
      rfl
    · intro hsome
      by_contra hnot
      rw [h.others d.1 hnot, hlimits.fresh d (List.mem_append_right _ List.mem_cons_self)] at hsome
      cases hsome
  have hstored : StoredFor o d.1 (streamedTextOf fragments d.1) := by
    unfold StoredFor
    cases hget : o.estimate.streamedTexts.get? d.1 with
    | some t =>
      obtain ⟨t', ht', hfollows⟩ := h.seen d.1 (hmem.mpr (by rw [hget]; rfl))
      rw [hget] at ht'
      rw [ht']
      exact hfollows
    | none =>
      have hnew : d.1 ∉ streamedKeys fragments := fun hin => by
        rw [hmem, hget] at hin
        cases hin
      rw [if_neg hnew] at hlength
      refine ⟨streamedTextOf_of_not_mem hnew, ?_⟩
      have hcount := h.fields
      omega
  have hcharacters := h.characters
  obtain ⟨t', hfollows, hestimate⟩ := appendStreamedOutputText_estimate hstored h.clean hnil
    (isSafeInteger_between (a := 0) (by decide) hlimits.text (by omega)
      (by rw [List.length_append]; omega))
    (isSafeInteger_between (a := 0) (by decide) hlimits.text (by omega) (by omega))
    (isSafeInteger_between hlimits.before hlimits.after (by omega) (by omega))
  have htexts : (appendStreamedOutputText d.1 (some (.str d.2)) o).estimate.streamedTexts
      = o.estimate.streamedTexts.set d.1 t' := by rw [hestimate]
  refine ⟨by rw [hestimate]; exact h.clean, ?_, ?_, ?_, ?_⟩
  · rw [hestimate]
    dsimp only
    omega
  · rw [htexts, values_length_set, h.fields, hlength]
    by_cases hin : d.1 ∈ streamedKeys fragments
    · rw [if_pos hin, if_pos (hmem.mp hin)]
      rfl
    · rw [if_neg hin, if_neg fun hsome => hin (hmem.mpr hsome)]
      omega
  · intro key hkey
    rw [htexts, OrderedMap.get?_set, streamedTextOf_snoc]
    split
    · exact ⟨t', rfl, by rename_i hk; rw [← hk]; exact hfollows⟩
    · rename_i hk
      exact h.seen key (((mem_streamedKeys_snoc hnil).mp hkey).resolve_left (Ne.symm hk))
  · intro key hkey
    rw [mem_streamedKeys_snoc hnil, not_or] at hkey
    rw [htexts, OrderedMap.get?_set_of_ne _ _ (Ne.symm hkey.1)]
    exact h.others key hkey.2

/-- **All fragments.** -/
theorem Streamed.of_withinLimits (h : WithinLimits o fragments) :
    Streamed o fragments (appendFragments o fragments) := by
  induction fragments using List.reverseRecOn with
  | nil => exact .new h.clean
  | append_singleton fragments d ih =>
    rw [appendFragments, List.foldl_append]
    exact (ih h.init).snoc h

theorem recordStrings_estimate {strings : List Text} (hclean : o.estimate.overflow = false)
    (hbefore : isSafeInteger o.estimate.characters = true)
    (hafter : isSafeInteger (o.estimate.characters + (strings.map List.length).sum) = true)
    (htext : isSafeInteger ((strings.map List.length).sum : Int) = true) :
    (recordStrings o strings).estimate
      = { o.estimate with
            characters := o.estimate.characters + (strings.map textCharacters).sum } := by
  induction strings generalizing o with
  | nil => simp [recordStrings]
  | cons value strings ih =>
    rw [List.map_cons, List.sum_cons] at hafter htext
    have hone : (recordOutputText (some (.str value)) o).estimate
        = { o.estimate with characters := o.estimate.characters + textCharacters value } := by
      unfold recordOutputText textCharacters
      simp only [Json.string?]
      split
      · simp
      · exact recordOutputCharacters_estimate hclean
          (isSafeInteger_between (a := 0) (by decide) htext (by omega) (by omega))
          (isSafeInteger_between hbefore hafter (by omega) (by omega))
    have hle := textCharacters_le value
    have hlater := ih (o := recordOutputText (some (.str value)) o) (by rw [hone]; exact hclean)
      (by
        rw [hone]
        exact isSafeInteger_between hbefore hafter (by dsimp only; omega) (by dsimp only; omega))
      (by
        rw [hone]
        exact isSafeInteger_between hbefore hafter (by dsimp only; omega) (by dsimp only; omega))
      (isSafeInteger_between (a := 0) (by decide) htext (by omega) (by omega))
    refine hlater.trans ?_
    have hsum : o.estimate.characters + textCharacters value
          + ((strings.map textCharacters).sum : Nat)
        = o.estimate.characters
          + ((textCharacters value + (strings.map textCharacters).sum : Nat) : Int) := by
      omega
    rw [hone, List.map_cons, List.sum_cons, ← hsum]

/-- **The streamed estimate is the buffered one.** Within the limits of the observer the
fragments of any strings, however they are cut and interleaved, contribute for each string
nothing where it is binary data and its length otherwise, which is what the strings contribute
when they are recorded whole. -/
theorem streamed_estimate_eq_buffered {o : Observation} {fragments : List Fragment}
    (h : WithinLimits o fragments) :
    let streamed := appendFragments o fragments
    let buffered := recordStrings o ((streamedKeys fragments).map (streamedTextOf fragments))
    (streamed.estimate.overflow = false ∧ buffered.estimate.overflow = false)
    ∧ streamed.estimate.characters = o.estimate.characters
        + ((streamedKeys fragments).map fun key =>
            if isBase64DataUrl (streamedTextOf fragments key) then 0
            else (streamedTextOf fragments key).length).sum
    ∧ streamed.estimate.characters = buffered.estimate.characters := by
  intro streamed buffered
  have hstreamed := Streamed.of_withinLimits h
  have hlengths : (((streamedKeys fragments).map (streamedTextOf fragments)).map List.length).sum
      = fragmentLength fragments := by
    rw [← contribution_length, List.map_map]
    rfl
  have hbuffered := recordStrings_estimate h.clean h.before (by rw [hlengths]; exact h.after)
    (by rw [hlengths]; exact h.text)
  have hcharacters : streamed.estimate.characters = buffered.estimate.characters := by
    rw [show buffered.estimate = _ from hbuffered, show streamed.estimate.characters = _ from
      hstreamed.characters, List.map_map]
    rfl
  refine ⟨⟨hstreamed.clean, ?_⟩, hstreamed.characters, hcharacters⟩
  rw [show buffered.estimate = _ from hbuffered]
  exact h.clean

/-- Two strings at once: a `data:` URL cut inside its scheme and its header, and plain text. -/
def interleavedFragments : List Fragment :=
  [(text "a", text "da"), (text "b", text "hi"), (text "a", text "ta:;base"), (text "b", text "!"),
    (text "a", text "64,QUJD")]

/-- Of the two strings only the plain one is counted. -/
theorem streamed_estimate_interleaved :
    let streamed := appendFragments .new interleavedFragments
    let buffered := recordStrings .new
      ((streamedKeys interleavedFragments).map (streamedTextOf interleavedFragments))
    (streamed.estimate.overflow = false ∧ buffered.estimate.overflow = false)
    ∧ streamed.estimate.characters = 0
        + ((streamedKeys interleavedFragments).map fun key =>
            if isBase64DataUrl (streamedTextOf interleavedFragments key) then 0
            else (streamedTextOf interleavedFragments key).length).sum
    ∧ streamed.estimate.characters = buffered.estimate.characters :=
  streamed_estimate_eq_buffered
    ⟨rfl, fun _ _ => rfl, by decide, by decide, by decide, by decide⟩

end LlmRelay
