import LlmRelay.Dialects.Markers

/-!
# Incremental marker scanning

A text that arrives in pieces is scanned after every piece. What `scanForMarker`
calls safe never reaches into the envelope, unless a piece ends inside the first
marker while a tag opener stands right before it; and once a marker has landed,
`markerStart` of the part is that of the whole text.

## Main definitions

* `MarkerAt`: a marker stands at a position;
* `SplitsMarker`: a piece ends inside the first marker, behind a tag opener.

## Main results

* `firstMarker_take`: the first marker of a part that holds one is that of the text;
* `safeLen_le_markerStart`: what is safe lies before the envelope.
-/

namespace LlmRelay

open Ecma

/-! ## The marker vocabulary -/

variable {m t u : Text} {i b k s : Nat}

variable (hm : m ∈ ALL_MARKERS)

include hm

theorem eq_of_marker_infix {m' : Text} (hm' : m' ∈ ALL_MARKERS) (h : m <:+: m') : m = m' := by
  have hall : ∀ m ∈ ALL_MARKERS, ∀ m' ∈ ALL_MARKERS, m'.includes m = true → m = m' := by
    decide +kernel
  exact hall m hm m' hm' (Text.includes_iff.mpr h)

theorem marker_length_le : m.length ≤ LONGEST_MARKER := by
  have hall : ∀ m ∈ ALL_MARKERS, m.length ≤ LONGEST_MARKER := by decide +kernel
  exact hall m hm

theorem marker_ne_nil : m ≠ [] := by
  have hall : ∀ m ∈ ALL_MARKERS, m ≠ [] := by decide +kernel
  exact hall m hm

omit hm

/-! ## Positions of markers -/

/-- A marker stands at a position of a text. -/
def MarkerAt (t : Text) (i : Nat) : Prop :=
  ∃ m ∈ ALL_MARKERS, m <+: t.drop i

theorem MarkerAt.within (h : MarkerAt t i) : ∃ m ∈ ALL_MARKERS, m <:+: t := by
  obtain ⟨m, hm, hpre⟩ := h
  exact ⟨m, hm, hpre.isInfix.trans (List.drop_suffix i t).isInfix⟩

theorem firstMarker_foldl (t : Text) (ms : List Text) (best : Option Nat) (seen : Text → Prop)
    (hsome : ∀ b, best = some b →
      (∃ m, seen m ∧ m <+: t.drop b) ∧ ∀ j < b, ∀ m, seen m → ¬ m <+: t.drop j)
    (hnone : best = none → ∀ j m, seen m → ¬ m <+: t.drop j) :
    let last := ms.foldl (fun best m =>
      match t.indexOf m, best with
      | some i, none => some i
      | some i, some b => if i < b then some i else some b
      | none, best => best) best
    (∀ b, last = some b → (∃ m, (seen m ∨ m ∈ ms) ∧ m <+: t.drop b)
        ∧ ∀ j < b, ∀ m, seen m ∨ m ∈ ms → ¬ m <+: t.drop j)
      ∧ (last = none → ∀ j m, seen m ∨ m ∈ ms → ¬ m <+: t.drop j) := by
  induction ms generalizing best seen with
  | nil => simpa using ⟨hsome, hnone⟩
  | cons m ms ih =>
    have hmem : ∀ m', (seen m' ∨ m' = m) ∨ m' ∈ ms ↔ seen m' ∨ m' ∈ m :: ms := by
      intro m'
      rw [List.mem_cons, or_assoc]
    simp only [← hmem]
    refine ih _ _ ?_ ?_
    · intro b hb
      cases hi : t.indexOf m with
      | none =>
        have habsent : ∀ j, ¬ m <+: t.drop j := fun j hj =>
          Text.indexOf_eq_none_iff.mp hi
            (hj.isInfix.trans (List.drop_suffix j t).isInfix)
        simp only [hi] at hb
        obtain ⟨⟨m', hs, hp⟩, hbefore⟩ := hsome b hb
        refine ⟨⟨m', .inl hs, hp⟩, ?_⟩
        rintro j hj m' (hs' | rfl)
        · exact hbefore j hj m' hs'
        · exact habsent j
      | some i =>
        have hat := (Text.indexOf_spec hi).1
        have hbefore : ∀ j < i, ¬ m <+: t.drop j := fun j hj =>
          Text.not_prefix_of_lt_indexOf hi hj
        cases hbest : best with
        | none =>
          simp only [hi, hbest, Option.some.injEq] at hb
          subst hb
          refine ⟨⟨m, .inr rfl, hat⟩, ?_⟩
          rintro j hj m' (hs' | rfl)
          · exact hnone hbest j m' hs'
          · exact hbefore j hj
        | some b₀ =>
          obtain ⟨⟨m₀, hs₀, hp₀⟩, hbefore₀⟩ := hsome b₀ hbest
          simp only [hi, hbest] at hb
          by_cases hlt : i < b₀
          · simp only [hlt, if_true, Option.some.injEq] at hb
            subst hb
            refine ⟨⟨m, .inr rfl, hat⟩, ?_⟩
            rintro j hj m' (hs' | rfl)
            · exact hbefore₀ j (Nat.lt_trans hj hlt) m' hs'
            · exact hbefore j hj
          · simp only [hlt, if_false, Option.some.injEq] at hb
            subst hb
            refine ⟨⟨m₀, .inl hs₀, hp₀⟩, ?_⟩
            rintro j hj m' (hs' | rfl)
            · exact hbefore₀ j hj m' hs'
            · exact hbefore j (by omega)
    · intro hb
      cases hi : t.indexOf m with
      | none =>
        simp only [hi] at hb
        rintro j m' (hs' | rfl) hp
        · exact hnone hb j m' hs' hp
        · exact Text.indexOf_eq_none_iff.mp hi
            (hp.isInfix.trans (List.drop_suffix j t).isInfix)
      | some i =>
        cases hbest : best with
        | none => simp [hi, hbest] at hb
        | some b₀ =>
          simp only [hi, hbest] at hb
          split at hb <;> cases hb

theorem firstMarker_spec (h : firstMarker t = some b) : MarkerAt t b ∧ ∀ j < b, ¬ MarkerAt t j := by
  obtain ⟨hsome, -⟩ := firstMarker_foldl t ALL_MARKERS none (fun _ => False) (by simp) (by simp)
  obtain ⟨⟨m, hm, hp⟩, hbefore⟩ := hsome b h
  simp only [false_or] at hm hbefore
  refine ⟨⟨m, hm, hp⟩, ?_⟩
  rintro j hj ⟨m', hm', hp'⟩
  exact hbefore j hj m' hm' hp'

theorem firstMarker_eq_none_iff : firstMarker t = none ↔ ∀ j, ¬ MarkerAt t j := by
  obtain ⟨hsome, hnone⟩ := firstMarker_foldl t ALL_MARKERS none (fun _ => False) (by simp) (by simp)
  simp only [false_or] at hsome hnone
  constructor
  · rintro h j ⟨m, hm, hp⟩
    exact hnone h j m hm hp
  · intro h
    cases hf : firstMarker t with
    | none => rfl
    | some b => exact absurd (firstMarker_spec hf).1 (h b)

theorem firstMarker_eq_some (hat : MarkerAt t b) (hbefore : ∀ j < b, ¬ MarkerAt t j) :
    firstMarker t = some b := by
  cases hf : firstMarker t with
  | none => exact absurd hat (firstMarker_eq_none_iff.mp hf b)
  | some b' =>
    obtain ⟨hat', hbefore'⟩ := firstMarker_spec hf
    have h1 : ¬ b' < b := fun h => hbefore b' h hat'
    have h2 : ¬ b < b' := fun h => hbefore' b h hat
    rw [Nat.le_antisymm (Nat.not_lt.mp h2) (Nat.not_lt.mp h1)]

theorem any_includes_iff (t : Text) :
    (ALL_MARKERS.any fun m => t.includes m) = true ↔ ∃ i, MarkerAt t i := by
  simp only [List.any_eq_true, Text.includes_iff]
  constructor
  · rintro ⟨m, hm, u, v, rfl⟩
    exact ⟨u.length, m, hm, v, by simp⟩
  · rintro ⟨i, hi⟩
    exact hi.within

/-! ## Parts of a text -/

theorem prefix_drop_take {j : Nat} :
    m <+: (t.take k).drop j ↔ m <+: t.drop j ∧ (m ≠ [] → j + m.length ≤ k) := by
  rw [List.drop_take, List.prefix_take_iff]
  refine and_congr_right fun h => ?_
  constructor
  · intro hlen hne
    have := List.length_pos_iff.mpr hne
    omega
  · intro hlen
    by_cases hne : m = []
    · simp [hne]
    · have := hlen hne
      omega

theorem MarkerAt.of_take (h : MarkerAt (t.take k) i) : MarkerAt t i := by
  obtain ⟨m, hm, hp⟩ := h
  exact ⟨m, hm, (prefix_drop_take.mp hp).1⟩

variable (hb : firstMarker t = some b)

include hb

/-- **The first marker of a part that holds one is that of the text**: a marker
that ends earlier cannot start later, since no marker lies inside another. -/
theorem firstMarker_take (hm : m ∈ ALL_MARKERS) (hp : m <+: t.drop b)
    (hi : MarkerAt (t.take k) i) : b + m.length ≤ k ∧ firstMarker (t.take k) = some b := by
  obtain ⟨-, hbefore⟩ := firstMarker_spec hb
  obtain ⟨m', hm', hp'⟩ := hi
  obtain ⟨hat', hend⟩ := prefix_drop_take.mp hp'
  have hend' := hend (marker_ne_nil hm')
  have hbi : b ≤ i := Nat.not_lt.mp fun h => hbefore i h ⟨m', hm', hat'⟩
  have hlen : b + m.length ≤ k := by
    by_contra hover
    -- the marker that is complete would lie inside the one that is not
    have hinfix : m' <:+: m := by
      obtain ⟨r, hr⟩ := hp
      have hdrop : t.drop i = m.drop (i - b) ++ r := by
        have h1 : t.drop i = (t.drop b).drop (i - b) := by
          rw [List.drop_drop]
          congr 1
          omega
        rw [h1, ← hr, List.drop_append_of_le_length (by omega)]
      rw [hdrop] at hat'
      have h2 : m' <+: m.drop (i - b) := by
        refine List.prefix_of_prefix_length_le hat' (List.prefix_append _ _) ?_
        rw [List.length_drop]
        omega
      exact h2.isInfix.trans (List.drop_suffix _ _).isInfix
    have heq := eq_of_marker_infix hm' hm hinfix
    subst heq
    omega
  refine ⟨hlen, firstMarker_eq_some ⟨m, hm, prefix_drop_take.mpr ⟨hp, fun _ => hlen⟩⟩ ?_⟩
  intro j hj hat
  exact hbefore j hj hat.of_take

/-- The envelope of a part that reaches past the first marker begins where that
of the text does. -/
theorem markerStart_take (hk : firstMarker (t.take k) = some b)
    (hlen : b ≤ k) : markerStart (t.take k) = markerStart t := by
  simp only [markerStart, hb, hk, Option.map_some]
  by_cases hzero : b = 0
  · simp [hzero]
  have hlast : (t.take k)[b - 1]? = t[b - 1]? := List.getElem?_take_of_lt (by omega)
  have hopen : 2 ≤ b → (Text.startsWith ((t.take k).drop (b - 2)) (text "</") = true
      ↔ Text.startsWith (t.drop (b - 2)) (text "</") = true) := by
    intro htwo
    rw [Text.startsWith_iff, Text.startsWith_iff, prefix_drop_take]
    have : (text "</").length = 2 := by decide
    exact ⟨fun h => h.1, fun h => ⟨h, fun _ => by omega⟩⟩
  by_cases htwo : 2 ≤ b
  · simp only [hopen htwo, hlast]
  · simp only [htwo, false_and, hlast]

theorem markerStart_le (hs : markerStart t = some s) : s ≤ b ∧ b ≤ s + 2 := by
  simp only [markerStart, hb, Option.map_some, Option.some.injEq] at hs
  split at hs
  · omega
  · split at hs
    · omega
    · split at hs <;> omega

/-- The characters between the start of the envelope and its first marker open a
tag. -/
theorem opener_of_markerStart (hs : markerStart t = some s) :
    s = b ∨ (s + 1 = b ∧ t[s]? = some 0x3C)
      ∨ (s + 2 = b ∧ text "</" <+: t.drop s) := by
  simp only [markerStart, hb, Option.map_some, Option.some.injEq] at hs
  split at hs
  · left
    omega
  · split at hs
    · rename_i h
      subst hs
      exact .inr (.inr ⟨by omega, Text.startsWith_iff.mp h.2⟩)
    · split at hs
      · rename_i h
        subst hs
        exact .inr (.inl ⟨by omega, h⟩)
      · exact .inl hs.symm

omit hb

/-- A piece of the text ends inside its first marker, and a tag opener stands
right before that marker. -/
def SplitsMarker (t : Text) (k : Nat) : Prop :=
  ∃ b m, firstMarker t = some b ∧ markerStart t ≠ some b ∧ m ∈ ALL_MARKERS ∧ m <+: t.drop b
    ∧ b < k ∧ k < b + m.length

theorem holdFrom_le {t : Text} {i n s : Nat} (hi : i ≤ s) (hn : s < i + n)
    (hs : (ALL_MARKERS.any fun m => m.startsWith (t.drop s)) = true) :
    ∃ k, holdFrom t i n = some k ∧ k ≤ s := by
  induction n generalizing i with
  | zero => omega
  | succ n ih =>
    rw [holdFrom]
    split
    · exact ⟨i, rfl, hi⟩
    · rename_i hno
      have hne : i ≠ s := by
        rintro rfl
        exact hno hs
      exact ih (by omega) (by omega)

theorem holdFrom_lt {n : Nat} (h : holdFrom t i n = some k) : k < i + n := by
  induction n generalizing i with
  | zero => cases h
  | succ n ih =>
    rw [holdFrom] at h
    split at h
    · cases h
      omega
    · have := ih h
      omega

theorem scanForMarker_hit_iff (t : Text) : (scanForMarker t).hit = true ↔ ∃ i, MarkerAt t i := by
  rw [← any_includes_iff, scanForMarker]
  split
  · rename_i h
    simp [h]
  · rename_i h
    simp [h]

theorem miss_of_append (h : (scanForMarker (t ++ u)).hit = false) :
    (scanForMarker t).hit = false := by
  by_contra hhit
  rw [Bool.not_eq_false, scanForMarker_hit_iff] at hhit
  obtain ⟨i, hi⟩ := hhit
  have hwhole : MarkerAt (t ++ u) i := by
    refine MarkerAt.of_take (k := t.length) ?_
    rwa [List.take_left]
  rw [← Bool.not_eq_true, scanForMarker_hit_iff] at h
  exact h ⟨i, hwhole⟩

theorem safeLen_of_miss (h : (scanForMarker t).hit = false) :
    (scanForMarker t).safeLen
      = (holdFrom t (t.length - (LONGEST_MARKER - 1))
          (t.length - (t.length - (LONGEST_MARKER - 1)))).getD t.length := by
  unfold scanForMarker at h ⊢
  split at h
  · cases h
  · rename_i hno
    rw [if_neg hno]

theorem safeLen_le_length (t : Text) : (scanForMarker t).safeLen ≤ t.length := by
  cases hhit : (scanForMarker t).hit with
  | true =>
    rw [scanForMarker_hit_iff, ← any_includes_iff] at hhit
    rw [scanForMarker, if_pos hhit]
  | false =>
    rw [safeLen_of_miss hhit]
    cases hh : holdFrom t (t.length - (LONGEST_MARKER - 1))
        (t.length - (t.length - (LONGEST_MARKER - 1))) with
    | none => exact Nat.le_refl _
    | some j =>
      have := holdFrom_lt hh
      exact (by omega : j ≤ t.length)

theorem safeLen_le_of_tail (hmiss : (scanForMarker t).hit = false) (hs : s < t.length)
    (hm : m ∈ ALL_MARKERS) (htail : t.drop s <+: m) : (scanForMarker t).safeLen ≤ s := by
  have hlen := marker_length_le hm
  have htl := htail.length_le
  rw [List.length_drop] at htl
  -- a whole marker would be a hit
  have hshort : t.length - s ≠ m.length := by
    intro heq
    have hwhole : t.drop s = m := htail.eq_of_length (by rw [List.length_drop, heq])
    have hhit : (scanForMarker t).hit = true :=
      (scanForMarker_hit_iff t).mpr ⟨s, m, hm, by rw [hwhole]⟩
    rw [hmiss] at hhit
    cases hhit
  have hany : (ALL_MARKERS.any fun m => m.startsWith (t.drop s)) = true :=
    List.any_eq_true.mpr ⟨m, hm, Text.startsWith_iff.mpr htail⟩
  obtain ⟨k, hk, hks⟩ := @holdFrom_le t (t.length - (LONGEST_MARKER - 1))
    (t.length - (t.length - (LONGEST_MARKER - 1))) s (by omega) (by omega) hany
  rw [safeLen_of_miss hmiss, hk]
  exact hks

/-- **What is safe lies before the envelope.** -/
theorem safeLen_le_markerStart (hs : markerStart t = some s) (hk : k ≤ t.length)
    (hmiss : (scanForMarker (t.take k)).hit = false) (hsplit : ¬ SplitsMarker t k) :
    (scanForMarker (t.take k)).safeLen ≤ s := by
  have hlen : (t.take k).length = k := by rw [List.length_take, Nat.min_eq_left hk]
  by_cases hks : k ≤ s
  · have := safeLen_le_length (t.take k)
    omega
  obtain ⟨b, hb⟩ : ∃ b, firstMarker t = some b := by
    obtain ⟨b, hb, -⟩ := Option.map_eq_some_iff.mp hs
    exact ⟨b, hb⟩
  obtain ⟨m, hm, hp⟩ := (firstMarker_spec hb).1
  have hcut : k < b + m.length := by
    by_contra hover
    have hhit : (scanForMarker (t.take k)).hit = true :=
      (scanForMarker_hit_iff _).mpr
        ⟨b, m, hm, prefix_drop_take.mpr ⟨hp, fun _ => by omega⟩⟩
    rw [hmiss] at hhit
    cases hhit
  have htail : (t.take k).drop s = (t.drop s).take (k - s) := by rw [List.drop_take]
  -- the tail is the beginning of the marker, or of a tag opener
  obtain ⟨w, hw, hpre⟩ : ∃ w ∈ ALL_MARKERS, (t.take k).drop s <+: w := by
    rw [htail]
    rcases opener_of_markerStart hb hs with rfl | ⟨hsb, hopen⟩ | ⟨hsb, hopen⟩
    · refine ⟨m, hm, ?_⟩
      refine List.prefix_of_prefix_length_le (List.take_prefix _ _) hp ?_
      rw [List.length_take]
      omega
    · have hkb : k ≤ b := by
        by_contra hover
        refine hsplit ⟨b, m, hb, ?_, hm, hp, by omega, hcut⟩
        rw [hs, ne_eq, Option.some.injEq]
        omega
      have hone : (t.drop s).take (k - s) = [0x3C] := by
        have hlt : s < t.length := by omega
        rw [List.drop_eq_getElem_cons hlt, show k - s = 1 by omega]
        rw [List.getElem?_eq_getElem hlt, Option.some.injEq] at hopen
        rw [hopen]
        rfl
      rw [hone]
      exact ⟨text "</tool_call>", by decide, by decide⟩
    · have hkb : k ≤ b := by
        by_contra hover
        refine hsplit ⟨b, m, hb, ?_, hm, hp, by omega, hcut⟩
        rw [hs, ne_eq, Option.some.injEq]
        omega
      have htwo : (t.drop s).take (k - s) <+: text "</" := by
        refine List.prefix_of_prefix_length_le (List.take_prefix _ _) hopen ?_
        have h2 : (text "</").length = 2 := by decide
        rw [List.length_take]
        omega
      exact ⟨text "</tool_call>", by decide, htwo.trans (by decide)⟩
  exact safeLen_le_of_tail hmiss (by omega) hw hpre

theorem markerStart_take_of_hit (hhit : (scanForMarker (t.take k)).hit = true) :
    ∃ s, markerStart t = some s ∧ markerStart (t.take k) = some s ∧ s ≤ k := by
  obtain ⟨i, hi⟩ := (scanForMarker_hit_iff _).mp hhit
  cases hb : firstMarker t with
  | none => exact absurd hi.of_take (firstMarker_eq_none_iff.mp hb i)
  | some b =>
    obtain ⟨m, hm, hp⟩ := (firstMarker_spec hb).1
    obtain ⟨hlen, hfirst⟩ := firstMarker_take hb hm hp hi
    obtain ⟨s, hs⟩ : ∃ s, markerStart t = some s := by
      rw [markerStart, hb]
      exact ⟨_, rfl⟩
    refine ⟨s, hs, ?_, ?_⟩
    · rw [markerStart_take hb hfirst (by omega), hs]
    · have := (markerStart_le hb hs).1
      omega

theorem holdFrom_spec {n : Nat} (h : holdFrom t i n = some k) :
    (ALL_MARKERS.any fun m => m.startsWith (t.drop k)) = true := by
  induction n generalizing i with
  | zero => cases h
  | succ n ih =>
    rw [holdFrom] at h
    split at h
    · rename_i hany
      cases h
      exact hany
    · exact ih h

theorem safeLen_mono (ht : (scanForMarker t).hit = false)
    (hu : (scanForMarker (t ++ u)).hit = false) :
    (scanForMarker t).safeLen ≤ (scanForMarker (t ++ u)).safeLen := by
  have hle := safeLen_le_length t
  by_contra hlt
  have hsafe := safeLen_of_miss hu
  cases hh : holdFrom (t ++ u) ((t ++ u).length - (LONGEST_MARKER - 1))
      ((t ++ u).length - ((t ++ u).length - (LONGEST_MARKER - 1))) with
  | none =>
    rw [hh] at hsafe
    simp only [Option.getD_none, List.length_append] at hsafe
    omega
  | some j =>
    rw [hh, Option.getD_some] at hsafe
    obtain ⟨m, hm, htail⟩ := List.any_eq_true.mp (holdFrom_spec hh)
    -- a tail that is held in the longer text was already held in the shorter one
    have hshort : t.drop j <+: m := by
      refine List.IsPrefix.trans ?_ (Text.startsWith_iff.mp htail)
      rw [List.drop_append_of_le_length (by omega)]
      exact List.prefix_append _ _
    have := safeLen_le_of_tail ht (by omega) hm hshort
    omega

/-- **The first hit** finds the envelope of the whole text, behind what was
forwarded before. -/
theorem markerStart_of_first_hit {T : Text} (hT : t ++ u <+: T)
    (ht : (scanForMarker t).hit = false) (hu : (scanForMarker (t ++ u)).hit = true)
    (hsplit : ¬ SplitsMarker T t.length) :
    ∃ s, markerStart T = some s ∧ markerStart (t ++ u) = some s
      ∧ (scanForMarker t).safeLen ≤ s ∧ s ≤ (t ++ u).length := by
  have htu : t ++ u = T.take (t ++ u).length := List.prefix_iff_eq_take.mp hT
  have htT : t = T.take t.length :=
    List.prefix_iff_eq_take.mp ((List.prefix_append t u).trans hT)
  rw [htu] at hu
  obtain ⟨s, hs, hsu, hle⟩ := markerStart_take_of_hit hu
  refine ⟨s, hs, by rw [htu]; exact hsu, ?_, hle⟩
  have hlen : t.length ≤ T.length := by
    have := hT.length_le
    rw [List.length_append] at this
    omega
  have hmiss : (scanForMarker (T.take t.length)).hit = false := by rw [← htT]; exact ht
  have := safeLen_le_markerStart hs hlen hmiss hsplit
  rwa [← htT] at this

theorem markerStart_eq_none (h : (scanForMarker t).hit = false) : markerStart t = none := by
  have hnone : firstMarker t = none := by
    rw [firstMarker_eq_none_iff]
    intro j hj
    have hhit := (scanForMarker_hit_iff t).mpr ⟨j, hj⟩
    rw [h] at hhit
    cases hhit
  rw [markerStart, hnone]
  rfl

end LlmRelay
