import LlmRelay.Ecma.Regex

/-!
# Where a regular expression matches

The global scan of a regular expression with the positions of its matches, and what is left of a
text without the matches, where every code unit keeps what it was labelled with.

## Main definitions

* `Regex.Placed`, `Regex.places`: a match and where it starts, and all of them;
* `Regex.removeAllOn`, `Text.trimOn`: removal and trimming of labelled code units.

## Main results

* `Regex.map_places`, `Regex.map_removeAllOn`, `Text.map_trimOn`: positions and labels apart, it is
  the scan, the removal and the trimming;
* `Regex.places_pairwise`: the matches do not overlap;
* `Regex.filter_places_eq`: at most one match ends at a position.
-/

namespace Ecma

namespace Regex

/-- A match, and the position at which it starts. -/
structure Placed where
  start : Nat
  found : Match
  deriving DecidableEq, Repr

/-- The position behind a match. -/
def Placed.stop (b : Placed) : Nat :=
  b.start + b.found.matched.length

/-- The scan of a global expression, where the text starts at a position. -/
def placedScan (r : Regex) : Nat → Nat → Text → List Placed
  | 0, pos, [] => (runs r []).head?.toList.map fun m => ⟨pos, m⟩
  | _ + 1, _, [] => []
  | 0, pos, c :: t =>
    match (runs r (c :: t)).head? with
    | none => placedScan r 0 (pos + 1) t
    | some m => ⟨pos, m⟩ :: placedScan r (m.matched.length - 1) (pos + 1) t
  | skip + 1, pos, _ :: t => placedScan r skip (pos + 1) t

/-- The matches of the scan, and where they start. -/
def places (r : Regex) (t : Text) : List Placed :=
  placedScan r 0 0 t

theorem map_placedScan (r : Regex) (n pos : Nat) (t : Text) :
    (placedScan r n pos t).map Placed.found = scan r n t := by
  induction t generalizing n pos with
  | nil =>
    cases n with
    | zero =>
      rw [placedScan, List.map_map]
      exact List.map_id _
    | succ n => rfl
  | cons c t ih =>
    cases n with
    | succ n => exact ih n (pos + 1)
    | zero =>
      rw [placedScan, scan]
      cases (runs r (c :: t)).head? with
      | none => exact ih 0 (pos + 1)
      | some m => exact congrArg (m :: ·) (ih _ (pos + 1))

/-- The places are those of the matches that the scan finds. -/
theorem map_places (r : Regex) (t : Text) : (places r t).map Placed.found = matchAll r t :=
  map_placedScan r 0 0 t

variable {r : Regex} {t : Text} {b : Placed}

theorem found_mem_matchAll (h : b ∈ places r t) : b.found ∈ matchAll r t := by
  rw [← map_places]
  exact List.mem_map_of_mem h

theorem le_start_of_mem {n pos : Nat} (h : b ∈ placedScan r n pos t) : pos + n ≤ b.start := by
  induction t generalizing n pos with
  | nil =>
    cases n with
    | zero =>
      obtain ⟨m, -, rfl⟩ := List.mem_map.mp h
      exact Nat.le_refl pos
    | succ n => cases h
  | cons c t ih =>
    cases n with
    | succ n =>
      have hle := ih h
      omega
    | zero =>
      rw [placedScan] at h
      cases hrun : (runs r (c :: t)).head? with
      | none =>
        rw [hrun] at h
        have hle := ih h
        omega
      | some m =>
        rw [hrun] at h
        rcases List.mem_cons.mp h with rfl | h
        · exact Nat.le_refl pos
        · have hle := ih h
          omega

/-- **The matches do not overlap**: each ends before the next one starts. -/
theorem placedScan_pairwise (r : Regex) (n pos : Nat) (t : Text) :
    (placedScan r n pos t).Pairwise fun a b => a.stop ≤ b.start := by
  induction t generalizing n pos with
  | nil =>
    cases n with
    | zero =>
      rw [placedScan]
      cases (runs r []).head? with
      | none => exact List.Pairwise.nil
      | some m => exact List.pairwise_singleton _ _
    | succ n => exact List.Pairwise.nil
  | cons c t ih =>
    cases n with
    | succ n => exact ih n (pos + 1)
    | zero =>
      rw [placedScan]
      cases (runs r (c :: t)).head? with
      | none => exact ih 0 (pos + 1)
      | some m =>
        refine List.pairwise_cons.mpr ⟨fun b hb => ?_, ih _ (pos + 1)⟩
        have hle := le_start_of_mem hb
        show pos + m.matched.length ≤ b.start
        omega

theorem places_pairwise (r : Regex) (t : Text) :
    (places r t).Pairwise fun a b => a.stop ≤ b.start :=
  placedScan_pairwise r 0 0 t

theorem filter_eq_singleton_of_stop {bs : List Placed}
    (hbs : bs.Pairwise fun a b => a.stop ≤ b.start) (hne : ∀ b ∈ bs, b.start < b.stop)
    {p : Placed → Bool} (hmem : b ∈ bs) (hb : p b = true)
    (hstop : ∀ a, p a = true → a.stop = b.stop) : bs.filter p = [b] := by
  induction bs with
  | nil => cases hmem
  | cons a rest ih =>
    obtain ⟨hafter, hrest⟩ := List.pairwise_cons.mp hbs
    rcases List.mem_cons.mp hmem with rfl | hmem
    · have hnone : rest.filter p = [] := by
        apply List.filter_eq_nil_iff.mpr
        intro c hc hpc
        have hle := hafter c hc
        have hlt := hne c (List.mem_cons_of_mem b hc)
        have heq := hstop c hpc
        omega
      rw [List.filter_cons_of_pos hb, hnone]
    · have ha : ¬ p a = true := by
        intro hpa
        have hle := hafter b hmem
        have hlt := hne b (List.mem_cons_of_mem a hmem)
        have heq := hstop a hpa
        omega
      rw [List.filter_cons_of_neg ha]
      exact ih hrest (fun c hc => hne c (List.mem_cons_of_mem a hc)) hmem

/-- **At most one match ends at a position.** -/
theorem filter_places_eq (hne : ∀ b ∈ places r t, b.found.matched ≠ []) {p : Placed → Bool}
    (hmem : b ∈ places r t) (hb : p b = true) (hstop : ∀ a, p a = true → a.stop = b.stop) :
    (places r t).filter p = [b] := by
  refine filter_eq_singleton_of_stop (places_pairwise r t) (fun c hc => ?_) hmem hb hstop
  have hpos := List.length_pos_iff.mpr (hne c hc)
  rw [Placed.stop]
  omega

/-! ## Labelled code units -/

section Labelled

variable {α : Type} (unit : α → CodeUnit)

/-- What is outside the matches of the scan. -/
def unscannedOn (r : Regex) : Nat → List α → List α
  | _, [] => []
  | 0, x :: xs =>
    match (runs r ((x :: xs).map unit)).head? with
    | none => x :: unscannedOn r 0 xs
    | some m =>
      if m.matched = [] then x :: unscannedOn r 0 xs
      else unscannedOn r (m.matched.length - 1) xs
  | skip + 1, _ :: xs => unscannedOn r skip xs

/-- The labelled code units without the matches of a global expression. -/
def removeAllOn (r : Regex) (xs : List α) : List α :=
  unscannedOn unit r 0 xs

theorem map_unscannedOn (r : Regex) (n : Nat) (xs : List α) :
    (unscannedOn unit r n xs).map unit = unscanned r n (xs.map unit) := by
  induction xs generalizing n with
  | nil => cases n <;> rfl
  | cons x xs ih =>
    cases n with
    | succ n => exact ih n
    | zero =>
      rw [unscannedOn, List.map_cons, unscanned]
      cases (runs r (unit x :: xs.map unit)).head? with
      | none => exact congrArg (unit x :: ·) (ih 0)
      | some m =>
        dsimp only
        split
        · exact congrArg (unit x :: ·) (ih 0)
        · exact ih _

/-- **The removal**, labels apart. -/
theorem map_removeAllOn (r : Regex) (xs : List α) :
    (removeAllOn unit r xs).map unit = removeAll r (xs.map unit) :=
  map_unscannedOn unit r 0 xs

theorem map_foldl_removeAllOn (rs : List Regex) (xs : List α) :
    (rs.foldl (fun xs r => removeAllOn unit r xs) xs).map unit
      = rs.foldl (fun t r => r.removeAll t) (xs.map unit) := by
  induction rs generalizing xs with
  | nil => rfl
  | cons r rs ih => rw [List.foldl_cons, ih, map_removeAllOn, List.foldl_cons]

end Labelled

end Regex

/-- `String.prototype.trim` on labelled code units. -/
def Text.trimOn {α : Type} (unit : α → CodeUnit) (xs : List α) : List α :=
  let isSpace (x : α) : Bool := isWhitespace (unit x)
  ((xs.dropWhile isSpace).reverse.dropWhile isSpace).reverse

theorem Text.map_trimOn {α : Type} (unit : α → CodeUnit) (xs : List α) :
    (Text.trimOn unit xs).map unit = Text.trim (xs.map unit) := by
  have hdrop : ∀ ys : List α, (ys.dropWhile fun x => isWhitespace (unit x)).map unit
      = (ys.map unit).dropWhile isWhitespace := by
    intro ys
    rw [List.dropWhile_map]
    rfl
  rw [Text.trimOn, Text.trim, Text.trimStart, Text.trimEnd, List.map_reverse, hdrop,
    List.map_reverse, hdrop]

end Ecma
