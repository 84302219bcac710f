import LlmRelay.Ecma.Text

/-!
# Lines

A line ends in CR, LF or CRLF. A reader that has not seen the end of its text cannot yet
take a trailing CR for a terminator, since the LF that belongs to it may follow.

## Main definitions

* `Line`: the content of a line and the length of its terminator;
* `nextLine? final t`: the first line of `t`, where `final` says that the text has ended;
* `lines final t`: the lines that have ended, and what follows them;
* `documentLines t`: the lines of a whole text;
* `Unbroken t`: no terminator begins in `t`.

## Main results

* `nextLine?_append`: a line that has ended stays when the text goes on;
* `nextLine?_unbroken_append`: what precedes the first terminator is the line;
* `lines_append`, `documentLines_append`: lines do not depend on where the text is cut.
-/

namespace Ecma

/-- A line, and how many code units end it. -/
structure Line where
  content : Text
  terminator : Nat
  deriving DecidableEq, Repr

namespace Text

/-- The blank line that a CR ends, by what follows the CR. -/
def afterCr? (final : Bool) : Text → Option (Line × Text)
  -- the LF of a split CRLF may still come
  | [] => if final then some (⟨[], 1⟩, []) else none
  | d :: rest => if d = lf then some (⟨[], 2⟩, rest) else some (⟨[], 1⟩, d :: rest)

/-- The first line and what follows it. -/
def nextLine? (final : Bool) : Text → Option (Line × Text)
  | [] => none
  | c :: rest =>
    if c = lf then some (⟨[], 1⟩, rest)
    else if c = cr then afterCr? final rest
    else
      (nextLine? final rest).map fun p => (⟨c :: p.1.content, p.1.terminator⟩, p.2)

/-- No terminator begins in the text. -/
def Unbroken (t : Text) : Prop :=
  ∀ c ∈ t, c ≠ lf ∧ c ≠ cr

variable {final : Bool} {t rest : Text} {line : Line}

theorem nextLine?_length (h : nextLine? final t = some (line, rest)) : rest.length < t.length := by
  induction t generalizing line with
  | nil => cases h
  | cons c t ih =>
    rw [nextLine?] at h
    split at h
    · cases h
      exact Nat.lt_succ_self _
    split at h
    · rcases t with _ | ⟨d, t⟩
      · rw [afterCr?] at h
        split at h <;> cases h
        exact Nat.zero_lt_one
      · rw [afterCr?] at h
        split at h <;> cases h
        · exact Nat.lt_succ_of_lt (Nat.lt_succ_self _)
        · exact Nat.lt_succ_self _
    · obtain ⟨⟨line', rest'⟩, hnext, heq⟩ := Option.map_eq_some_iff.mp h
      cases heq
      exact Nat.lt_succ_of_lt (ih hnext)

/-- A line that has ended stays when the text goes on. -/
theorem nextLine?_append (h : nextLine? false t = some (line, rest)) (final : Bool) (u : Text) :
    nextLine? final (t ++ u) = some (line, rest ++ u) := by
  induction t generalizing line with
  | nil => cases h
  | cons c t ih =>
    rw [nextLine?] at h
    rw [List.cons_append, nextLine?]
    split at h
    · rename_i hlf
      rw [if_pos hlf]
      cases h
      rfl
    rename_i hlf
    rw [if_neg hlf]
    split at h
    · rename_i hcr
      rw [if_pos hcr]
      rcases t with _ | ⟨d, t⟩
      · cases h
      · rw [afterCr?] at h
        rw [List.cons_append, afterCr?]
        split at h <;> rename_i hd <;> cases h
        · rw [if_pos hd]
        · rw [if_neg hd, List.cons_append]
    · rename_i hcr
      rw [if_neg hcr]
      obtain ⟨⟨line', rest'⟩, hnext, heq⟩ := Option.map_eq_some_iff.mp h
      cases heq
      rw [ih hnext]
      rfl

/-- What precedes the first terminator belongs to the line. -/
theorem nextLine?_unbroken_append {w : Text} (h : Unbroken w) (final : Bool) (t : Text) :
    nextLine? final (w ++ t)
      = (nextLine? final t).map fun p => (⟨w ++ p.1.content, p.1.terminator⟩, p.2) := by
  induction w with
  | nil =>
    exact Option.map_id'.symm
  | cons c w ih =>
    obtain ⟨hlf, hcr⟩ := h c (List.mem_cons_self ..)
    have hw : Unbroken w := fun d hd => h d (List.mem_cons_of_mem _ hd)
    rw [List.cons_append, nextLine?, if_neg hlf, if_neg hcr, ih hw, Option.map_map]
    rfl

theorem nextLine?_of_unbroken {w : Text} (h : Unbroken w) (final : Bool) :
    nextLine? final w = none := by
  have happend := nextLine?_unbroken_append h final []
  rwa [List.append_nil] at happend

theorem unbroken_or_held (h : nextLine? false t = none) :
    Unbroken t ∨ ∃ w, Unbroken w ∧ t = w ++ [cr] := by
  induction t with
  | nil => exact .inl fun c hc => absurd hc List.not_mem_nil
  | cons c t ih =>
    rw [nextLine?] at h
    split at h
    · cases h
    rename_i hlf
    split at h
    · rename_i hcr
      subst hcr
      rcases t with _ | ⟨d, t⟩
      · exact .inr ⟨[], fun c hc => absurd hc List.not_mem_nil, rfl⟩
      · rw [afterCr?] at h
        split at h <;> cases h
    · rename_i hcr
      have hcons : ∀ w : Text, Unbroken w → Unbroken (c :: w) := by
        intro w hw d hd
        rcases List.mem_cons.mp hd with rfl | hd
        · exact ⟨hlf, hcr⟩
        · exact hw d hd
      rcases ih (Option.map_eq_none_iff.mp h) with hw | ⟨w, hw, rfl⟩
      · exact .inl (hcons t hw)
      · exact .inr ⟨c :: w, hcons w hw, rfl⟩

/-- The lines that have ended, and what follows the last of them. -/
def lines (final : Bool) (t : Text) : List Line × Text :=
  match h : nextLine? final t with
  | none => ([], t)
  | some (line, rest) =>
    have := nextLine?_length h
    let later := lines final rest
    (line :: later.1, later.2)
termination_by t.length

/-- The line that only the end of the text ends. -/
def lastLine (t : Text) : List Line :=
  if t = [] then [] else [⟨t, 0⟩]

/-- The lines of a whole text. -/
def documentLines (t : Text) : List Line :=
  (lines true t).1 ++ lastLine (lines true t).2

theorem lines_of_none (h : nextLine? final t = none) : lines final t = ([], t) := by
  rw [lines]
  split
  · rfl
  · rename_i hsome
    rw [h] at hsome
    cases hsome

theorem lines_of_some (h : nextLine? final t = some (line, rest)) :
    lines final t = (line :: (lines final rest).1, (lines final rest).2) := by
  rw [lines]
  split
  · rename_i hnone
    rw [h] at hnone
    cases hnone
  · rename_i hsome
    rw [h] at hsome
    cases hsome
    rfl

theorem nextLine?_lines (final : Bool) (t : Text) : nextLine? final (lines final t).2 = none := by
  induction hn : t.length using Nat.strong_induction_on generalizing t with
  | _ n ih =>
    cases h : nextLine? final t with
    | none => rwa [lines_of_none h]
    | some p =>
      rw [lines_of_some h]
      exact ih _ (hn ▸ nextLine?_length h) _ rfl

/-- **The lines that have ended are found wherever the text is cut.** -/
theorem lines_append (final : Bool) (t u : Text) :
    lines final (t ++ u)
      = ((lines false t).1 ++ (lines final ((lines false t).2 ++ u)).1,
        (lines final ((lines false t).2 ++ u)).2) := by
  induction hn : t.length using Nat.strong_induction_on generalizing t with
  | _ n ih =>
    cases h : nextLine? false t with
    | none => rw [lines_of_none h, List.nil_append]
    | some p =>
      rw [lines_of_some h, lines_of_some (nextLine?_append h final u),
        ih _ (hn ▸ nextLine?_length h) _ rfl, List.cons_append]

/-- **The lines of a whole text are found wherever the text is cut.** -/
theorem documentLines_append (t u : Text) :
    documentLines (t ++ u) = (lines false t).1 ++ documentLines ((lines false t).2 ++ u) := by
  rw [documentLines, lines_append, List.append_assoc]
  rfl

-- the last CR may belong to a CRLF, and is a terminator of its own where the text ends
example : nextLine? false (text "a\r") = none ∧
    nextLine? true (text "a\r") = some (⟨text "a", 1⟩, []) ∧
    nextLine? false (text "a\r\nb") = some (⟨text "a", 2⟩, text "b") := by
  decide

end Text

end Ecma
