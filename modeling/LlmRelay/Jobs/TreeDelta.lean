import LlmRelay.Ecma.NumberText
import LlmRelay.Ecma.OrderedMap
import LlmRelay.Ecma.Regex
import Mathlib.Algebra.Order.BigOperators.Group.List
import Mathlib.Data.Finset.Card
import Mathlib.Data.List.Sort

/-!
# What a lane changed in its tree

The status of a working tree is read when a walk starts and when its job ends. What differs is
rendered, path by path, under a line that counts.

## Main definitions

* `parsePorcelainZ`, `renderTreeDelta`: the reading, and the difference of two readings;
* `StatusRow`, `encodeRows original rows`: what git writes, where the former path of a row that is
  renamed or copied is `original` of it;
* `DeltaExact`: both trees are read as they were written, and the counts of the rendered difference
  are right.

## Main results

* `renderTreeDelta_counts`: the counts of the difference of any two readings;
* `entries_parsePorcelainZ`: what is read, where no former path is read as a row;
* `tree_delta_exact_iff`: rows are read whatever their former paths are exactly when no row is
  renamed or copied in its second column alone.
-/

namespace LlmRelay.TreeDelta

open Ecma

/-! ## Reading -/

def nul : CodeUnit := 0

/-- The status of a rename or a copy. -/
def isRenameLetter (c : CodeUnit) : Bool :=
  c == 0x52 || c == 0x43

/-- The loop over the fields; a field is passed over when it belongs to the one before it. -/
def readFields : Bool → List Text → OrderedMap Text Text → OrderedMap Text Text
  | _, [], entries => entries
  | true, _ :: fields, entries => readFields false fields entries
  | false, field :: fields, entries =>
    if field.length < 4 then readFields false fields entries
    else
      readFields (field.head?.any isRenameLetter) fields (entries.set (field.drop 3) (field.take 2))

def parsePorcelainZ (t : Text) : OrderedMap Text Text :=
  readFields false (List.splitOn nul t) OrderedMap.empty

/-! ## Rendering -/

/-- `.`: no line terminator. -/
def isDot (c : CodeUnit) : Bool :=
  !(c == lf || c == cr || c == 0x2028 || c == 0x2029)

/-- `[^/]`. -/
def notSlash (c : CodeUnit) : Bool :=
  c != 0x2F

/-- The expression of a pattern. -/
def globRegex : Text → Regex
  | [] => .lit []
  | [c] =>
    if c = 0x2A then .rep true notSlash else if c = 0x3F then .unit notSlash else .lit [c]
  | c :: d :: rest =>
    if c = 0x2A ∧ d = 0x2A then .seq (.rep true isDot) (globRegex rest)
    else if c = 0x2A then .seq (.rep true notSlash) (globRegex (d :: rest))
    else if c = 0x3F then .seq (.unit notSlash) (globRegex (d :: rest))
    else .seq (.lit [c]) (globRegex (d :: rest))

/-- The pattern with slashes, and none at its end. -/
def cleanPattern (pattern : Text) : Text :=
  let slashed := pattern.map fun c => if c = 0x5C then 0x2F else c
  let clean := if Text.startsWith slashed (text "./") then slashed.drop 2 else slashed
  (clean.reverse.dropWhile (· = 0x2F)).reverse

def scopeMatcher (pattern path : Text) : Bool :=
  let clean := cleanPattern pattern
  if clean = [] ∨ clean = text "." then true
  else if clean.all fun c => c != 0x2A && c != 0x3F then
    path = clean || path.startsWith (clean ++ [0x2F])
  else
    (Regex.fullMatch (.seq (globRegex clean) (.opt (.seq (.lit [0x2F]) (.rep true isDot)))) path).isSome

/-- One reading: the place of the working directory in its repository, and the status of each path
that is not clean. -/
structure TreeSnapshot where
  prefix_ : Text
  entries : OrderedMap Text Text

def MAX_TREE_DELTA_LINES : Nat := 50

section Render

variable (cwd : Text) (before after : TreeSnapshot) (scope : Option (List Text))

def outOfScope (path : Text) : Bool :=
  match scope with
  | none => false
  | some patterns =>
    !path.startsWith after.prefix_
      || !patterns.any fun pattern => scopeMatcher pattern (path.drop after.prefix_.length)

def changeText (path : Text) (was now : Option Text) : Text :=
  match was, now with
  | none, now => text "+ " ++ path ++ text " [" ++ now.getD (text "undefined") ++ text "]"
  | some was, none => text "- " ++ path ++ text " [was " ++ was ++ text "; now clean]"
  | some was, some now =>
    text "~ " ++ path ++ text " [" ++ was ++ text " -> " ++ now ++ text "]"

def OUT_OF_SCOPE : Text := text "OUT OF SCOPE"

def deltaLine (path : Text) : Text :=
  let change := changeText path (before.entries.get? path) (after.entries.get? path)
  if outOfScope after scope path then change ++ text "  " ++ OUT_OF_SCOPE else change

/-- The paths whose status differs, in the order of their code units. -/
def changedPaths : List Text :=
  ((before.entries.keys ++ after.entries.keys).dedup.insertionSort (· ≤ ·)).filter fun path =>
    before.entries.get? path ≠ after.entries.get? path

/-- The first line. -/
def deltaHeader (changed flagged : Nat) : Text :=
  text "tree delta (" ++ cwd ++ text "): " ++ Number.natText changed ++ text " path"
    ++ (if changed = 1 then [] else text "s")
    ++ (if scope.isNone then [] else text ", " ++ Number.natText flagged ++ text " out of scope")

def renderTreeDelta (after : Option TreeSnapshot) : Text :=
  match after with
  | none => text "tree delta (" ++ cwd ++ text "): unknown — git status failed when the job ended"
  | some after =>
    let lines := (changedPaths before after).map (deltaLine before after scope)
    if lines = [] then text "tree delta: none"
    else
      let shown := (lines.take MAX_TREE_DELTA_LINES).map (text "  " ++ ·)
      let more := lines.length - (lines.take MAX_TREE_DELTA_LINES).length
      let flagged := (lines.filter fun line => Text.endsWith line OUT_OF_SCOPE).length
      Text.join [lf] (deltaHeader cwd scope lines.length flagged :: shown
        ++ if 0 < more then [text "  … " ++ Number.natText more ++ text " more"] else [])

/-! ## Counting -/

theorem changeText_ends (path : Text) (was now : Option Text) :
    ∃ t, changeText path was now = t ++ text "]" := by
  rcases was with _ | was
  · exact ⟨_, rfl⟩
  · rcases now with _ | now
    · refine ⟨text "- " ++ path ++ text " [was " ++ was ++ text "; now clean", ?_⟩
      rw [List.append_assoc _ _ (text "]")]
      rfl
    · exact ⟨_, rfl⟩

/-- A line says that its path is out of the scope exactly where the path is, whatever its name. -/
theorem endsWith_deltaLine (path : Text) :
    Text.endsWith (deltaLine before after scope path) OUT_OF_SCOPE = outOfScope after scope path := by
  rw [deltaLine]
  cases outOfScope after scope path with
  | true => exact Text.endsWith_iff.mpr ⟨_, rfl⟩
  | false =>
    obtain ⟨t, ht⟩ := changeText_ends path (before.entries.get? path) (after.entries.get? path)
    rw [Bool.eq_false_iff, ne_eq, Text.endsWith_iff]
    rintro ⟨u, hu⟩
    -- the last units are `E` and `]`
    have hlast := congrArg List.getLast? (hu.trans ht)
    simp [OUT_OF_SCOPE, text, ofCodePoint] at hlast

theorem nodup_changedPaths : (changedPaths before after).Nodup :=
  ((List.perm_insertionSort _ _).nodup_iff.mpr (List.nodup_dedup _)).filter _

theorem mem_changedPaths {path : Text} :
    path ∈ changedPaths before after ↔ before.entries.get? path ≠ after.entries.get? path := by
  rw [changedPaths, List.mem_filter, List.mem_insertionSort, List.mem_dedup, List.mem_append,
    OrderedMap.mem_keys_iff, OrderedMap.mem_keys_iff, decide_eq_true_eq, and_iff_right_iff_imp]
  intro hne
  by_contra hnone
  simp only [not_or, Bool.not_eq_true, Option.isSome_eq_false_iff, Option.isNone_iff_eq_none] at hnone
  exact hne (hnone.1.trans hnone.2.symm)

/-- **The counts of a rendered difference** are those of the paths whose status differs, and of
those among them that are out of the scope. -/
theorem renderTreeDelta_counts {changed : Finset Text}
    (h : ∀ path, path ∈ changed ↔ before.entries.get? path ≠ after.entries.get? path) :
    (changed = ∅ → renderTreeDelta cwd before scope (some after) = text "tree delta: none") ∧
      (changed ≠ ∅ → deltaHeader cwd scope changed.card
          (changed.filter fun path => outOfScope after scope path = true).card ++ [lf]
        <+: renderTreeDelta cwd before scope (some after)) := by
  have hset : (changedPaths before after).toFinset = changed := by
    ext path
    rw [List.mem_toFinset, mem_changedPaths, h]
  have hcard : (changedPaths before after).length = changed.card := by
    rw [← hset, List.toFinset_card_of_nodup (nodup_changedPaths before after)]
  have hflagged : ((changedPaths before after).filter (outOfScope after scope)).length
      = (changed.filter fun path => outOfScope after scope path = true).card := by
    rw [← List.toFinset_card_of_nodup ((nodup_changedPaths before after).filter _), List.toFinset_filter,
      hset]
  have hends : (changedPaths before after).filter
      ((fun line => Text.endsWith line OUT_OF_SCOPE) ∘ deltaLine before after scope)
      = (changedPaths before after).filter (outOfScope after scope) :=
    List.filter_congr fun path _ => endsWith_deltaLine before after scope path
  constructor
  · intro hempty
    rw [hempty] at hcard
    rw [renderTreeDelta, List.eq_nil_of_length_eq_zero hcard]
    rfl
  · intro hsome
    have hne : (changedPaths before after).map (deltaLine before after scope) ≠ [] := by
      intro hnil
      rw [List.map_eq_nil_iff] at hnil
      rw [hnil] at hcard
      exact hsome (Finset.card_eq_zero.mp hcard.symm)
    rw [renderTreeDelta]
    rw [if_neg hne, List.filter_map, List.length_map, List.length_map, hends, hflagged, hcard]
    obtain ⟨line, lines, hlines⟩ := List.exists_cons_of_ne_nil hne
    rw [hlines, MAX_TREE_DELTA_LINES, List.take_succ_cons, List.map_cons]
    exact ⟨_, by simp only [Text.join, List.cons_append, List.intercalate_cons_cons]; rfl⟩

end Render

/-! ## What git writes -/

/-- A row of the status: the status of the index and of the working tree, and the path. -/
structure StatusRow where
  index : CodeUnit
  worktree : CodeUnit
  path : Text
  deriving DecidableEq

namespace StatusRow

def status (r : StatusRow) : Text :=
  [r.index, r.worktree]

/-- The row comes with a former path. -/
def renamed (r : StatusRow) : Bool :=
  isRenameLetter r.index || isRenameLetter r.worktree

/-- The row is renamed or copied in its second column alone. -/
def strays (r : StatusRow) : Bool :=
  isRenameLetter r.worktree && !isRenameLetter r.index

end StatusRow

/-- The fields of a row. -/
def rowFields (original : StatusRow → Text) (r : StatusRow) : List Text :=
  (r.status ++ space :: r.path) :: if r.renamed then [original r] else []

/-- `git status --porcelain=v1 -z`: each field, and a NUL behind it. -/
def encodeRows (original : StatusRow → Text) (rows : List StatusRow) : Text :=
  (rows.flatMap (rowFields original)).flatMap (· ++ [nul])

/-- Distinct paths, and no NUL in what is written. -/
structure Writable (rows : List StatusRow) : Prop where
  letters : ∀ r ∈ rows, nul ∉ r.status
  path : ∀ r ∈ rows, r.path ≠ [] ∧ nul ∉ r.path
  distinct : (rows.map StatusRow.path).Nodup

/-- Former paths. -/
def Paths (original : StatusRow → Text) : Prop :=
  ∀ r, original r ≠ [] ∧ nul ∉ original r

/-- The rows are read as they were written. -/
def ReadsExactly (original : StatusRow → Text) (rows : List StatusRow) : Prop :=
  (parsePorcelainZ (encodeRows original rows)).entries = rows.map fun r => (r.path, r.status)

def statusOf (rows : List StatusRow) (path : Text) : Option Text :=
  (rows.find? fun r => r.path = path).map StatusRow.status

/-- The paths of two trees whose status differs. -/
def differing (before after : List StatusRow) : Finset Text :=
  ((before ++ after).map StatusRow.path).toFinset.filter fun path =>
    statusOf before path ≠ statusOf after path

/-- The reading of a tree. -/
def readTree (prefix_ : Text) (original : StatusRow → Text) (rows : List StatusRow) : TreeSnapshot where
  prefix_ := prefix_
  entries := parsePorcelainZ (encodeRows original rows)

/-- Both trees are read as they were written, and the first line of the difference counts the paths
whose status differs, and those of them that are out of the scope. -/
structure DeltaExact (cwd prefix_ : Text) (scope : Option (List Text))
    (ob oa : StatusRow → Text) (before after : List StatusRow) : Prop where
  readsBefore : ReadsExactly ob before
  readsAfter : ReadsExactly oa after
  none : differing before after = ∅ → renderTreeDelta cwd (readTree prefix_ ob before) scope
    (some (readTree prefix_ oa after)) = text "tree delta: none"
  counts : differing before after ≠ ∅ → deltaHeader cwd scope (differing before after).card
      ((differing before after).filter fun path =>
        outOfScope (readTree prefix_ oa after) scope path = true).card ++ [lf]
    <+: renderTreeDelta cwd (readTree prefix_ ob before) scope (some (readTree prefix_ oa after))

/-! ## What is read -/

theorem splitOn_fields {fields : List Text} (h : ∀ field ∈ fields, nul ∉ field) :
    List.splitOn nul (fields.flatMap (· ++ [nul])) = fields ++ [[]] := by
  induction fields with
  | nil => rfl
  | cons field fields ih =>
    obtain ⟨hfield, hfields⟩ := List.forall_mem_cons.mp h
    rw [List.flatMap_cons, List.append_assoc, List.singleton_append,
      List.splitOn_append_cons_self_of_not_mem hfield, ih hfields, List.cons_append]

section Rows

variable {original : StatusRow → Text} {rows : List StatusRow}

variable {r : StatusRow} {entries : OrderedMap Text Text}

theorem nul_notMem_rowFields (h : Paths original) (hletters : nul ∉ r.status)
    (hpath : nul ∉ r.path) : ∀ field ∈ rowFields original r, nul ∉ field := by
  intro field hfield
  rcases List.mem_cons.mp hfield with rfl | hfield
  · rw [List.mem_append, List.mem_cons]
    rintro (hmem | hmem | hmem)
    · exact hletters hmem
    · exact absurd hmem (by decide)
    · exact hpath hmem
  · split at hfield
    · exact List.mem_singleton.mp hfield ▸ (h r).2
    · cases hfield

theorem parse_encodeRows (h : Paths original) (hrows : Writable rows) :
    parsePorcelainZ (encodeRows original rows)
      = readFields false (rows.flatMap (rowFields original) ++ [[]]) OrderedMap.empty := by
  rw [parsePorcelainZ, encodeRows, splitOn_fields]
  intro field hfield
  obtain ⟨r, hr, hfield⟩ := List.mem_flatMap.mp hfield
  exact nul_notMem_rowFields h (hrows.letters r hr) (hrows.path r hr).2 field hfield

/-- **One row**: its status is read, and its former path is passed over, except where it is the
former path of a row that strays. -/
theorem readFields_row (hpath : r.path ≠ []) (fields : List Text) (entries : OrderedMap Text Text) :
    readFields false (rowFields original r ++ fields) entries
      = readFields false ((if r.strays then [original r] else []) ++ fields)
          (entries.set r.path r.status) := by
  have hlength : ¬ (r.status ++ space :: r.path).length < 4 := by
    have hpos := List.length_pos_of_ne_nil hpath
    simp only [StatusRow.status, List.cons_append, List.nil_append, List.length_cons]
    omega
  rw [rowFields, List.cons_append, readFields, if_neg hlength]
  have hfirst : (r.status ++ space :: r.path).head?.any isRenameLetter = isRenameLetter r.index := rfl
  have hset : entries.set ((r.status ++ space :: r.path).drop 3) ((r.status ++ space :: r.path).take 2)
      = entries.set r.path r.status := rfl
  rw [hfirst, StatusRow.renamed, StatusRow.strays]
  cases hindex : isRenameLetter r.index <;> cases hworktree : isRenameLetter r.worktree <;> rfl

/-- What is read, where a former path is passed over or too short to be a row. -/
theorem readFields_rows (hpath : ∀ r ∈ rows, r.path ≠ [])
    (hshort : ∀ r ∈ rows, r.strays = true → (original r).length < 4) (fields : List Text)
    (entries : OrderedMap Text Text) :
    readFields false (rows.flatMap (rowFields original) ++ fields) entries
      = readFields false fields (rows.foldl (fun m r => m.set r.path r.status) entries) := by
  induction rows generalizing entries with
  | nil => rfl
  | cons r rows ih =>
    obtain ⟨hr, hpath⟩ := List.forall_mem_cons.mp hpath
    obtain ⟨hstray, hshort⟩ := List.forall_mem_cons.mp hshort
    rw [List.flatMap_cons, List.append_assoc, readFields_row hr]
    split
    · rename_i hs
      rw [List.singleton_append, readFields, if_pos (hstray hs), ih hpath hshort, List.foldl_cons]
    · rw [List.nil_append, ih hpath hshort, List.foldl_cons]

theorem entries_foldl_set (hdistinct : (rows.map StatusRow.path).Nodup)
    (hnew : ∀ r ∈ rows, entries.get? r.path = none) :
    (rows.foldl (fun m r => m.set r.path r.status) entries).entries
      = entries.entries ++ rows.map fun r => (r.path, r.status) := by
  induction rows generalizing entries with
  | nil => exact (List.append_nil _).symm
  | cons r rows ih =>
    obtain ⟨hr, hdistinct⟩ := List.nodup_cons.mp hdistinct
    obtain ⟨hnone, hnew⟩ := List.forall_mem_cons.mp hnew
    rw [List.foldl_cons, ih hdistinct, OrderedMap.entries_set_of_none _ hnone, List.append_assoc]
    · rfl
    · intro r' hr'
      have hne : r.path ≠ r'.path := fun heq => hr (List.mem_map.mpr ⟨r', hr', heq.symm⟩)
      rw [OrderedMap.get?_set_of_ne _ _ hne, hnew r' hr']

/-- **What is read** is each path and its status, where the former path of a row that strays is too
short to be a row. -/
theorem entries_parsePorcelainZ (h : Paths original) (hrows : Writable rows)
    (hshort : ∀ r ∈ rows, r.strays = true → (original r).length < 4) : ReadsExactly original rows := by
  rw [ReadsExactly, parse_encodeRows h hrows,
    readFields_rows (fun r hr => (hrows.path r hr).1) hshort]
  exact entries_foldl_set hrows.distinct fun _ _ => rfl

theorem get?_of_readsExactly (h : ReadsExactly original rows) (path : Text) :
    (parsePorcelainZ (encodeRows original rows)).get? path = statusOf rows path := by
  rw [OrderedMap.get?, h, statusOf]
  clear h
  induction rows with
  | nil => rfl
  | cons r rows ih =>
    rw [List.map_cons, lookupEntry, ih, List.find?_cons]
    by_cases heq : r.path = path
    · rw [if_pos heq, decide_eq_true heq]
      rfl
    · rw [if_neg heq, decide_eq_false heq]

theorem mem_differing {before after : List StatusRow} {path : Text} :
    path ∈ differing before after ↔ statusOf before path ≠ statusOf after path := by
  have hnone : ∀ {rows : List StatusRow}, path ∉ rows.map StatusRow.path → statusOf rows path = none := by
    intro rows hpath
    rw [statusOf, List.find?_eq_none.mpr, Option.map_none]
    intro r hr
    rw [decide_eq_true_eq]
    exact fun heq => hpath (List.mem_map.mpr ⟨r, hr, heq⟩)
  rw [differing, Finset.mem_filter, List.mem_toFinset, List.map_append, List.mem_append,
    and_iff_right_iff_imp]
  intro hne
  by_contra hmem
  obtain ⟨hbefore, hafter⟩ := not_or.mp hmem
  exact hne ((hnone hbefore).trans (hnone hafter).symm)

/-! ## Former paths that are read as rows -/

/-- A path that is read stays. -/
theorem has_readFields {path : Text} (fields : List Text) (skip : Bool)
    (h : (entries.get? path).isSome = true) :
    ((readFields skip fields entries).get? path).isSome = true := by
  induction fields generalizing skip entries with
  | nil => cases skip <;> exact h
  | cons field fields ih =>
    cases skip with
    | true => exact ih false h
    | false =>
      rw [readFields]
      split
      · exact ih false h
      · apply ih
        rw [OrderedMap.get?_set]
        split
        · rfl
        · exact h

/-- A path that no row has. -/
theorem exists_fresh (rows : List StatusRow) :
    ∃ path : Text, path ≠ [] ∧ nul ∉ path ∧ path ∉ rows.map StatusRow.path := by
  refine ⟨List.replicate ((rows.map fun r => r.path.length).sum + 1) 0x78, by simp, ?_, ?_⟩
  · exact fun h => absurd (List.eq_of_mem_replicate h) (by decide)
  · intro hmem
    obtain ⟨r, hr, hpath⟩ := List.mem_map.mp hmem
    have hle := List.le_sum_of_mem
      (List.mem_map.mpr ⟨r, hr, rfl⟩ : r.path.length ∈ rows.map fun r => r.path.length)
    rw [hpath, List.length_replicate] at hle
    omega

/-- **The former path of a row that strays** can be one that is read as a row. -/
theorem exists_misread (hrows : Writable rows) (hr : r ∈ rows) (hstray : r.strays = true) :
    ∃ original, Paths original ∧ ¬ ReadsExactly original rows := by
  obtain ⟨path, hne, hnul, hfresh⟩ := exists_fresh rows
  let original : StatusRow → Text := fun r' => if r' = r then text "xx " ++ path else text "o"
  have hpaths : Paths original := by
    intro r'
    dsimp only [original]
    split
    · refine ⟨List.cons_ne_nil _ _, ?_⟩
      rw [List.mem_append]
      rintro (hmem | hmem)
      · exact absurd hmem (by decide)
      · exact hnul hmem
    · exact ⟨by decide, by decide⟩
  refine ⟨original, hpaths, fun hreads => ?_⟩
  -- the rows before it are read, then the row, and then its former path
  obtain ⟨first, last, rfl⟩ := List.append_of_mem hr
  have hfirst : ∀ r' ∈ first, r'.strays = true → (original r').length < 4 := by
    intro r' hr' _
    have hne : r' ≠ r := by
      rintro rfl
      have hdistinct := hrows.distinct
      rw [List.map_append, List.nodup_append] at hdistinct
      exact hdistinct.2.2 _ (List.mem_map.mpr ⟨r', hr', rfl⟩) _ List.mem_cons_self rfl
    dsimp only [original]
    rw [if_neg hne]
    decide
  have hhas : ((parsePorcelainZ (encodeRows original (first ++ r :: last))).get? path).isSome = true := by
    have horiginal : original r = text "xx " ++ path := if_pos rfl
    rw [parse_encodeRows hpaths hrows, List.flatMap_append, List.append_assoc,
      readFields_rows (fun r' hr' => (hrows.path r' (List.mem_append_left _ hr')).1) hfirst,
      List.flatMap_cons, List.append_assoc, readFields_row (hrows.path r hr).1, if_pos hstray,
      List.singleton_append, readFields, horiginal, if_neg]
    · refine has_readFields _ _ ?_
      rw [OrderedMap.get?_set, if_pos (show (text "xx " ++ path).drop 3 = path from rfl)]
      rfl
    · have hpos := List.length_pos_of_ne_nil hne
      rw [List.length_append, show (text "xx ").length = 3 from rfl]
      omega
  rw [get?_of_readsExactly hreads, statusOf, Option.isSome_map, List.find?_isSome] at hhas
  obtain ⟨r', hr', hpath⟩ := hhas
  exact hfresh (List.mem_map.mpr ⟨r', hr', of_decide_eq_true hpath⟩)

end Rows

/-- **The rows of two trees are read, and their difference is counted, whatever their former paths
are** exactly when no row is renamed or copied in its second column alone. They are also where the
former path of such a row has less than four characters. -/
theorem tree_delta_exact_iff (cwd prefix_ : Text) (scope : Option (List Text))
    (before after : List StatusRow) (hbefore : Writable before) (hafter : Writable after) :
    ((∀ ob oa, Paths ob → Paths oa → DeltaExact cwd prefix_ scope ob oa before after)
        ↔ ∀ r ∈ before ++ after, r.strays = false) ∧
      ∀ ob oa, Paths ob → Paths oa →
        (∀ r ∈ before, r.strays = true → (ob r).length < 4) →
        (∀ r ∈ after, r.strays = true → (oa r).length < 4) →
        DeltaExact cwd prefix_ scope ob oa before after := by
  have hexact : ∀ ob oa, Paths ob → Paths oa →
      (∀ r ∈ before, r.strays = true → (ob r).length < 4) →
      (∀ r ∈ after, r.strays = true → (oa r).length < 4) →
      DeltaExact cwd prefix_ scope ob oa before after := by
    intro ob oa hob hoa hb ha
    have hreadsBefore := entries_parsePorcelainZ hob hbefore hb
    have hreadsAfter := entries_parsePorcelainZ hoa hafter ha
    have hdiffering : ∀ path, path ∈ differing before after ↔
        (readTree prefix_ ob before).entries.get? path ≠ (readTree prefix_ oa after).entries.get? path := by
      intro path
      rw [mem_differing, readTree, readTree, get?_of_readsExactly hreadsBefore,
        get?_of_readsExactly hreadsAfter]
    obtain ⟨hnone, hcounts⟩ := renderTreeDelta_counts cwd (readTree prefix_ ob before)
      (readTree prefix_ oa after) scope hdiffering
    exact ⟨hreadsBefore, hreadsAfter, hnone, hcounts⟩
  refine ⟨⟨fun h r hr => ?_, fun h => ?_⟩, hexact⟩
  · rw [Bool.eq_false_iff]
    intro hstray
    have hplain : Paths fun _ => text "o" := fun _ =>
      ⟨List.cons_ne_nil _ _, (by decide : nul ∉ text "o")⟩
    rcases List.mem_append.mp hr with hr | hr
    · obtain ⟨ob, hob, hmisread⟩ := exists_misread hbefore hr hstray
      exact hmisread (h ob _ hob hplain).readsBefore
    · obtain ⟨oa, hoa, hmisread⟩ := exists_misread hafter hr hstray
      exact hmisread (h _ oa hplain hoa).readsAfter
  · intro ob oa hob hoa
    refine hexact ob oa hob hoa (fun r hr hstray => ?_) fun r hr hstray => ?_
    · rw [h r (List.mem_append_left _ hr)] at hstray
      cases hstray
    · rw [h r (List.mem_append_right _ hr)] at hstray
      cases hstray

/-- A file that was renamed in the index, with a name that is longer than its status. -/
def renamedInIndex : List StatusRow :=
  [{ index := 0x52, worktree := 0x20, path := text "dst.ts" }]

/-- A file that was renamed in the working tree. -/
def renamedInWorktree : List StatusRow :=
  [{ index := 0x20, worktree := 0x52, path := text "dst.ts" }]

theorem writable_renamed {r : StatusRow} (hletters : nul ∉ r.status)
    (hpath : r.path ≠ [] ∧ nul ∉ r.path) : Writable [r] where
  letters := List.forall_mem_singleton.mpr hletters
  path := List.forall_mem_singleton.mpr hpath
  distinct := List.nodup_singleton _

theorem tree_delta_exact_renamed :
    ((∀ ob oa, Paths ob → Paths oa →
          DeltaExact (text "C:/w") [] (some [text "src"]) ob oa [] renamedInIndex)
        ↔ ∀ r ∈ [] ++ renamedInIndex, r.strays = false) ∧
      ∀ ob oa, Paths ob → Paths oa →
        (∀ r ∈ ([] : List StatusRow), r.strays = true → (ob r).length < 4) →
        (∀ r ∈ renamedInIndex, r.strays = true → (oa r).length < 4) →
        DeltaExact (text "C:/w") [] (some [text "src"]) ob oa [] renamedInIndex :=
  tree_delta_exact_iff _ _ _ _ _
    ⟨(fun _ h => by cases h), (fun _ h => by cases h), List.nodup_nil⟩
    (writable_renamed (by decide) (by decide))

/-- The former path of a file renamed in the working tree is read as a file of its own, and counted. -/
theorem former_path_is_counted :
    (parsePorcelainZ (encodeRows (fun _ => text "src/a.ts") renamedInWorktree)).entries
        = [(text "dst.ts", text " R"), (text "/a.ts", text "sr")] ∧
      renderTreeDelta (text "C:/w") (readTree [] (fun _ => text "o") []) none
          (some (readTree [] (fun _ => text "src/a.ts") renamedInWorktree))
        = text "tree delta (C:/w): 2 paths\n  + /a.ts [sr]\n  + dst.ts [ R]" ∧
      (differing [] renamedInWorktree).card = 1 := by
  decide +kernel

end LlmRelay.TreeDelta
