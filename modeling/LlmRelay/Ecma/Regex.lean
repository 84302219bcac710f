import LlmRelay.Ecma.Text
import Mathlib.Data.List.Induction

/-!
# Regular expressions

Regular expressions with the backtracking order of ECMAScript. A match attempt
answers the list of all matches at a position, the preferred one first; only
character classes are repeated.

## Main definitions

* `Regex`, `Regex.Match`: the expressions, and one match at the head of a text;
* `Regex.runs`: the matches at the head of a text, in order of preference;
* `Regex.matchAll`, `Regex.removeAll`: the global scan from left to right, and the
  text without its matches;
* `Regex.exec`: the leftmost match;
* `Regex.IsBlock`: a match at some position of a text.

## Main results

* `Regex.runs_spec`: a match is a prefix of its text;
* `Regex.isBlock_of_mem_matchAll`: the scan finds matches at positions of the text;
* `Regex.matchAll_append`: the scan passes over a prefix in which no match starts.
-/

namespace Ecma

/-- A regular expression. -/
inductive Regex where
  | lit (w : Text)
  | unit (p : CodeUnit → Bool)
  | rep (greedy : Bool) (p : CodeUnit → Bool)
  | seq (a b : Regex)
  | alt (a b : Regex)
  | group (a : Regex)
  | stop

namespace Regex

/-- One match at the head of a text: the text matched, what the groups captured,
and what follows. -/
structure Match where
  matched : Text
  groups : List Text
  rest : Text
  deriving DecidableEq, Repr

/-- The text of a group. -/
def Match.get (m : Match) (n : Nat) : Text :=
  m.groups.getD n []

/-- Puts an earlier match in front. -/
def Match.after (m m' : Match) : Match :=
  ⟨m.matched ++ m'.matched, m.groups ++ m'.groups, m'.rest⟩

/-- `a+`. -/
def plus (p : CodeUnit → Bool) : Regex :=
  seq (unit p) (rep true p)

/-- `(?:a)?`. -/
def opt (a : Regex) : Regex :=
  alt a (lit [])

/-- `[\s\S]*?`. -/
def lazyAny : Regex :=
  rep false fun _ => true

/-- `\s*`. -/
def spaces : Regex :=
  rep true isWhitespace

/-- The splits of a text after a run of a character class, shortest first. -/
def spans (p : CodeUnit → Bool) : Text → List (Text × Text)
  | [] => [([], [])]
  | c :: t => ([], c :: t) :: if p c then (spans p t).map fun s => (c :: s.1, s.2) else []

/-- The matches at the head of a text, the preferred one first. -/
def runs : Regex → Text → List Match
  | lit w, t => if w.isPrefixOf t then [⟨w, [], t.drop w.length⟩] else []
  | unit _, [] => []
  | unit p, c :: t => if p c then [⟨[c], [], t⟩] else []
  | rep greedy p, t =>
    let found := (spans p t).map fun s => ⟨s.1, [], s.2⟩
    if greedy then found.reverse else found
  | seq a b, t => (runs a t).flatMap fun m => (runs b m.rest).map m.after
  | alt a b, t => runs a t ++ runs b t
  | group a, t => (runs a t).map fun m => { m with groups := m.matched :: m.groups }
  | stop, t => if t = [] then [⟨[], [], []⟩] else []

/-- The scan of a global expression; `skip` code units belong to the match found
last, and an empty match moves on by one. -/
def scan (r : Regex) : Nat → Text → List Match
  | 0, [] => (runs r []).head?.toList
  | _ + 1, [] => []
  | 0, c :: t =>
    match (runs r (c :: t)).head? with
    | none => scan r 0 t
    | some m => m :: scan r (m.matched.length - 1) t
  | skip + 1, _ :: t => scan r skip t

/-- `text.matchAll(r)`. -/
def matchAll (r : Regex) (t : Text) : List Match :=
  scan r 0 t

/-- The text outside the matches of the scan. -/
def unscanned (r : Regex) : Nat → Text → Text
  | _, [] => []
  | 0, c :: t =>
    match (runs r (c :: t)).head? with
    | none => c :: unscanned r 0 t
    | some m =>
      if m.matched = [] then c :: unscanned r 0 t
      else unscanned r (m.matched.length - 1) t
  | skip + 1, _ :: t => unscanned r skip t

/-- `text.replace(r, "")` with a global expression. -/
def removeAll (r : Regex) (t : Text) : Text :=
  unscanned r 0 t

/-- `r.exec(text)`: what precedes the leftmost match, and the match. -/
def exec (r : Regex) : Text → Option (Text × Match)
  | [] => (runs r []).head?.map fun m => ([], m)
  | c :: t =>
    match (runs r (c :: t)).head? with
    | some m => some ([], m)
    | none => (exec r t).map fun p => (c :: p.1, p.2)

/-- `/^r$/.exec(text)`. -/
def fullMatch (r : Regex) (t : Text) : Option Match :=
  (runs (seq r stop) t).head?

/-! ## Matches -/

variable {t w : Text} {r : Regex} {m : Match} {ws : List Text}

theorem mem_spans {p : CodeUnit → Bool} {s : Text × Text} (h : s ∈ spans p t) : t = s.1 ++ s.2 := by
  induction t generalizing s with
  | nil =>
    rw [spans, List.mem_singleton] at h
    rw [h]
    rfl
  | cons c t ih =>
    rw [spans, List.mem_cons] at h
    rcases h with rfl | h
    · rfl
    · split at h
      · obtain ⟨s', hs', rfl⟩ := List.mem_map.mp h
        rw [ih hs']
        rfl
      · cases h

/-- **A match is a prefix of its text.** -/
theorem runs_spec (h : m ∈ runs r t) : t = m.matched ++ m.rest := by
  induction r generalizing t m with
  | lit w =>
    rw [runs] at h
    split at h
    · rename_i hw
      rw [List.mem_singleton.mp h]
      exact (List.prefix_iff_eq_append.mp (List.isPrefixOf_iff_prefix.mp hw)).symm
    · cases h
  | unit p =>
    cases t with
    | nil => cases h
    | cons c t =>
      rw [runs] at h
      split at h
      · rw [List.mem_singleton.mp h]
        rfl
      · cases h
  | rep greedy p =>
    rw [runs] at h
    have h : m ∈ (spans p t).map fun s => ⟨s.1, [], s.2⟩ := by
      split at h
      · exact List.mem_reverse.mp h
      · exact h
    obtain ⟨s, hs, rfl⟩ := List.mem_map.mp h
    exact mem_spans hs
  | seq a b iha ihb =>
    obtain ⟨ma, hma, hm⟩ := List.mem_flatMap.mp h
    obtain ⟨mb, hmb, rfl⟩ := List.mem_map.mp hm
    rw [iha hma, ihb hmb, Match.after, List.append_assoc]
  | alt a b iha ihb =>
    rcases List.mem_append.mp h with h | h
    · exact iha h
    · exact ihb h
  | group a ih =>
    obtain ⟨m', hm', rfl⟩ := List.mem_map.mp h
    have hspec := ih hm'
    exact hspec
  | stop =>
    rw [runs] at h
    split at h
    · rename_i ht
      rw [List.mem_singleton.mp h, ht]
      rfl
    · cases h

theorem mem_runs_seq {a b : Regex} (h : m ∈ runs (seq a b) t) :
    ∃ ma ∈ runs a t, ∃ mb ∈ runs b ma.rest, m = ma.after mb := by
  obtain ⟨ma, hma, hm⟩ := List.mem_flatMap.mp h
  obtain ⟨mb, hmb, rfl⟩ := List.mem_map.mp hm
  exact ⟨ma, hma, mb, hmb, rfl⟩

theorem mem_runs_lit (h : m ∈ runs (lit w) t) : m.matched = w := by
  rw [runs] at h
  split at h
  · rw [List.mem_singleton.mp h]
  · cases h

theorem mem_runs_unit {p : CodeUnit → Bool} (h : m ∈ runs (unit p) t) :
    ∃ c, p c = true ∧ m.matched = [c] := by
  cases t with
  | nil => cases h
  | cons c t =>
    rw [runs] at h
    split at h
    · rename_i hc
      exact ⟨c, hc, by rw [List.mem_singleton.mp h]⟩
    · cases h

theorem mem_runs_opt_lit (h : m ∈ runs (opt (lit w)) t) : m.matched = w ∨ m.matched = [] := by
  rcases List.mem_append.mp h with h | h
  · exact .inl (mem_runs_lit h)
  · exact .inr (mem_runs_lit h)

/-! ## Literals every match contains -/

/-- Every match of the expression contains one of the words. -/
def Contains (r : Regex) (ws : List Text) : Prop :=
  ∀ t, ∀ m ∈ runs r t, ∃ w ∈ ws, w <:+: m.matched

theorem contains_lit {v : Text} (hw : w ∈ ws) (h : w <:+: v) : Contains (lit v) ws := by
  intro t m hm
  rw [mem_runs_lit hm]
  exact ⟨w, hw, h⟩

theorem Contains.seq_left {a : Regex} (h : Contains a ws) (b : Regex) : Contains (seq a b) ws := by
  intro t m hm
  obtain ⟨ma, hma, mb, -, rfl⟩ := mem_runs_seq hm
  obtain ⟨w, hw, hin⟩ := h t ma hma
  exact ⟨w, hw, hin.trans (List.infix_append' [] _ _)⟩

theorem Contains.seq_right {b : Regex} (h : Contains b ws) (a : Regex) : Contains (seq a b) ws := by
  intro t m hm
  obtain ⟨ma, -, mb, hmb, rfl⟩ := mem_runs_seq hm
  obtain ⟨w, hw, hin⟩ := h _ mb hmb
  exact ⟨w, hw, hin.trans ⟨ma.matched, [], by simp [Match.after]⟩⟩

/-! ## The global scan -/

/-- A match at some position of a text. -/
def IsBlock (r : Regex) (t : Text) (m : Match) : Prop :=
  ∃ u v, t = u ++ v ∧ (runs r v).head? = some m

theorem IsBlock.cons {r : Regex} {t : Text} {m : Match} (h : IsBlock r t m) (c : CodeUnit) :
    IsBlock r (c :: t) m := by
  obtain ⟨u, v, rfl, hm⟩ := h
  exact ⟨c :: u, v, rfl, hm⟩

theorem IsBlock.within (h : IsBlock r t m) : m.matched <:+: t := by
  obtain ⟨u, v, rfl, hm⟩ := h
  have hv := runs_spec (List.mem_of_mem_head? (Option.mem_def.mpr hm))
  exact ⟨u, m.rest, by rw [hv, List.append_assoc]⟩

theorem IsBlock.contains (h : IsBlock r t m) (hw : Contains r ws) : ∃ w ∈ ws, w <:+: t := by
  obtain ⟨u, v, rfl, hm⟩ := h
  have hmem := List.mem_of_mem_head? (Option.mem_def.mpr hm)
  obtain ⟨w, hws, hin⟩ := hw v m hmem
  exact ⟨w, hws, hin.trans (IsBlock.within ⟨u, v, rfl, hm⟩)⟩

theorem isBlock_of_mem_scan {n : Nat} (h : m ∈ scan r n t) : IsBlock r t m := by
  induction t generalizing n with
  | nil =>
    cases n with
    | zero =>
      rw [scan, Option.mem_toList] at h
      exact ⟨[], [], rfl, h⟩
    | succ n => cases h
  | cons c t ih =>
    cases n with
    | succ n => exact (ih h).cons c
    | zero =>
      rw [scan] at h
      cases hr : (runs r (c :: t)).head? with
      | none =>
        simp only [hr] at h
        exact (ih h).cons c
      | some m' =>
        simp only [hr, List.mem_cons] at h
        rcases h with rfl | h
        · exact ⟨[], c :: t, rfl, hr⟩
        · exact (ih h).cons c

/-- The scan finds matches at positions of the text. -/
theorem isBlock_of_mem_matchAll (h : m ∈ matchAll r t) : IsBlock r t m :=
  isBlock_of_mem_scan h

/-- **The scan passes over a prefix in which no match starts.** -/
theorem matchAll_append {p : Text} (h : ∀ u v, p = u ++ v → v ≠ [] → runs r (v ++ t) = []) :
    matchAll r (p ++ t) = matchAll r t := by
  induction p with
  | nil => rfl
  | cons c p ih =>
    have hc := h [] (c :: p) rfl (by simp)
    rw [List.cons_append] at hc
    rw [List.cons_append, matchAll, scan, hc]
    exact ih fun u v hp hv => h (c :: u) v (by rw [hp]; rfl) hv

end Regex

end Ecma
