import LlmRelay.Ecma.JsonFiles
import LlmRelay.Ecma.Utf8Append

/-!
# The file of environment variables

`KEY=value` lines, read when the program starts. The wizard and the key import append to the file
what they were given, each value between quotes.

## Main definitions

* `parseDotEnv`: the variables of a text;
* `saveKeysToEnv file added`: the file after the keys `added` were appended;
* `Plain v`: the value has no quote, no line feed and no unpaired surrogate.

## Main results

* `readLine_savedLine`: what a saved line is read as;
* `get?_parseDotEnv_save`: the variables of the file after the save, as long as no value has a line
  feed;
* `reads_saved_iff`: every variable reads as it was saved, or as before, exactly when every value is
  plain.
-/

namespace LlmRelay.Onboarding

open Ecma

/-! ## Reading -/

/-- `[A-Za-z_]`. -/
def isNameStart (c : CodeUnit) : Bool :=
  (decide (0x41 ≤ c) && decide (c ≤ 0x5A)) || (decide (0x61 ≤ c) && decide (c ≤ 0x7A)) || c == 0x5F

/-- `[A-Za-z0-9_]`. -/
def isNameUnit (c : CodeUnit) : Bool :=
  isNameStart c || (decide (0x30 ≤ c) && decide (c ≤ 0x39))

/-- `/^[A-Za-z_][A-Za-z0-9_]*$/`. -/
def isEnvName : Text → Bool
  | [] => false
  | c :: rest => isNameStart c && rest.all isNameUnit

/-- The value stands between two marks `q`. -/
def quotedBy (q : CodeUnit) (value : Text) : Bool :=
  value.startsWith [q] && value.endsWith [q] && decide (2 ≤ value.length)

/-- The value without one layer of quotes. -/
def unquote (value : Text) : Text :=
  if quotedBy 0x22 value || quotedBy 0x27 value then (value.drop 1).dropLast else value

/-- The variable a line sets. -/
def readLine? (raw : Text) : Option (Text × Text) :=
  let line := raw.trim
  if line = [] || line.startsWith (text "#") then none
  else
    match line.indexOf [0x3D] with
    | none => none
    | some eq =>
      if eq = 0 then none
      else
        let key := Text.trim (line.take eq)
        let value := Text.trim (line.drop (eq + 1))
        if isEnvName key then some (key, unquote value) else none

/-- `record[key] = value` for a string value: a string is no prototype, and is dropped. -/
def assignString (record : OrderedMap Text Text) (key value : Text) : OrderedMap Text Text :=
  if key = text "__proto__" then record else record.set key value

/-- One line of the file. -/
def readLine (out : OrderedMap Text Text) (raw : Text) : OrderedMap Text Text :=
  match readLine? raw with
  | none => out
  | some (key, value) => assignString out key value

/-- The variables of a text; the last line that sets one counts. -/
def parseDotEnv (t : Text) : OrderedMap Text Text :=
  t.splitLines.foldl readLine OrderedMap.empty

/-! ## Saving -/

/-- `v.replace(/"/g, '\\"')`. -/
def escapeQuotes (v : Text) : Text :=
  v.flatMap fun c => if c = 0x22 then [0x5C, 0x22] else [c]

/-- The line of a key. -/
def savedLine (entry : Text × Text) : Text :=
  entry.1 ++ 0x3D :: 0x22 :: escapeQuotes entry.2 ++ [0x22]

/-- The text appended to the file. -/
def savedText (added : OrderedMap Text Text) : Text :=
  lf :: (Text.join [lf] (added.entries.map savedLine) ++ [lf])

/-- The file after the keys were appended to it. -/
def saveKeysToEnv (file : List UInt8) (added : OrderedMap Text Text) : List UInt8 :=
  file ++ encodeUtf8 (savedText added)

/-- A value that is written as it is, on one line. -/
def Plain (v : Text) : Prop :=
  0x22 ∉ v ∧ lf ∉ v ∧ WellFormed v

/-! ## White space around a line -/

variable {c : CodeUnit} {t name value v : Text} {entry : Text × Text}

theorem mem_of_mem_trim (h : c ∈ t.trim) : c ∈ t := by
  rw [Text.trim, Text.trimEnd, List.mem_reverse] at h
  have hend := (List.dropWhile_suffix _).subset h
  rw [List.mem_reverse] at hend
  exact (List.dropWhile_suffix _).subset hend

theorem trim_eq_self {d : CodeUnit} {u : Text} (hc : isWhitespace c = false)
    (hd : isWhitespace d = false) (hstart : [c] <+: t) (hend : t = u ++ [d]) : t.trim = t := by
  have htrimStart : t.trimStart = t := by
    obtain ⟨rest, rfl⟩ := hstart
    rw [Text.trimStart, List.singleton_append, List.dropWhile_cons_of_neg (by simp [hc])]
  rw [Text.trim, htrimStart, Text.trimEnd, hend, List.reverse_append, List.reverse_singleton,
    List.singleton_append, List.dropWhile_cons_of_neg (by simp [hd]), List.reverse_cons,
    List.reverse_reverse]

theorem trim_append_singleton (hc : isWhitespace c = true) (t : Text) :
    Text.trim (t ++ [c]) = t.trim := by
  rw [Text.trim, Text.trim, Text.trimStart, Text.trimStart, List.dropWhile_append]
  split
  · rename_i hempty
    rw [List.isEmpty_iff.mp hempty, List.dropWhile_cons_of_pos hc]
    rfl
  · rw [Text.trimEnd, Text.trimEnd, List.reverse_append, List.reverse_singleton,
      List.singleton_append, List.dropWhile_cons_of_pos hc]

theorem trim_dropTrailingCr (line : Text) : (Text.dropTrailingCr line).trim = line.trim := by
  rw [Text.dropTrailingCr]
  split
  · rename_i hlast
    have hline : line.dropLast ++ [cr] = line := by
      rw [List.getLast?_eq_some_iff] at hlast
      obtain ⟨rest, rfl⟩ := hlast
      rw [List.dropLast_concat]
    exact (trim_append_singleton (by decide) _).symm.trans (congrArg Text.trim hline)
  · rfl

/-! ## Lines -/

theorem readLine_dropTrailingCr (out : OrderedMap Text Text) (line : Text) :
    readLine out (Text.dropTrailingCr line) = readLine out line := by
  have hread : readLine? (Text.dropTrailingCr line) = readLine? line := by
    rw [readLine?, trim_dropTrailingCr]
    rfl
  rw [readLine, hread]
  rfl

theorem parseDotEnv_eq (t : Text) :
    parseDotEnv t = (List.splitOn lf t).foldl readLine OrderedMap.empty := by
  rw [parseDotEnv, Text.splitLines, List.foldl_append, List.foldl_map]
  simp only [readLine_dropTrailingCr]
  rw [← List.foldl_append]
  congr 1
  rw [List.getLast?_eq_some_getLast (List.splitOn_ne_nil lf t)]
  exact List.dropLast_append_getLast (List.splitOn_ne_nil lf t)

theorem parseDotEnv_append (t u : Text) :
    parseDotEnv (t ++ lf :: u) = (List.splitOn lf u).foldl readLine (parseDotEnv t) := by
  rw [parseDotEnv_eq, List.splitOn_append_cons_self, List.foldl_append, ← parseDotEnv_eq]

theorem not_mem_of_mem_splitOn {sep : CodeUnit} {piece : Text} (h : piece ∈ List.splitOn sep t) :
    sep ∉ piece := by
  induction t generalizing piece with
  | nil =>
    rw [List.splitOn_nil, List.mem_singleton] at h
    rw [h]
    exact List.not_mem_nil
  | cons c t ih =>
    rw [List.splitOn_cons_eq_if_modifyHead] at h
    split at h
    · rcases List.mem_cons.mp h with rfl | h
      · exact List.not_mem_nil
      · exact ih h
    · rename_i hc
      cases hpieces : List.splitOn sep t with
      | nil => exact absurd hpieces (List.splitOn_ne_nil sep t)
      | cons first pieces =>
        rw [hpieces] at h
        rcases List.mem_cons.mp h with rfl | h
        · intro hmem
          rcases List.mem_cons.mp hmem with rfl | hmem
          · exact hc (beq_self_eq_true _)
          · exact ih (hpieces ▸ List.mem_cons_self) hmem
        · exact ih (hpieces ▸ List.mem_cons_of_mem _ h)

/-! ## A saved line -/

theorem notWhitespace_of_isNameUnit (h : isNameUnit c = true) :
    isWhitespace c = false ∧ c ≠ 0x23 ∧ c ≠ 0x3D ∧ c ≠ lf ∧ c < 0x80 := by
  simp only [isNameUnit, isNameStart, Bool.or_eq_true, Bool.and_eq_true, decide_eq_true_eq,
    beq_iff_eq] at h
  simp only [isWhitespace, Bool.or_eq_false_iff, Bool.and_eq_false_iff, decide_eq_false_iff_not,
    beq_eq_false_iff_ne, ne_eq, lf, ← UInt16.toNat_inj, UInt16.le_iff_toNat_le,
    UInt16.lt_iff_toNat_lt, UInt16.reduceToNat] at h ⊢
  omega

theorem isEnvName_iff :
    isEnvName name = true ↔ ∃ c rest, name = c :: rest ∧ isNameStart c = true
      ∧ ∀ d ∈ name, isNameUnit d = true := by
  cases name with
  | nil => simp [isEnvName]
  | cons c rest =>
    simp only [isEnvName, Bool.and_eq_true, List.all_eq_true, List.cons.injEq, List.mem_cons,
      forall_eq_or_imp]
    constructor
    · rintro ⟨hc, hrest⟩
      exact ⟨c, rest, ⟨rfl, rfl⟩, hc, by rw [isNameUnit, hc, Bool.true_or], hrest⟩
    · rintro ⟨d, tail, ⟨rfl, rfl⟩, hd, -, hrest⟩
      exact ⟨hd, hrest⟩

theorem isNameUnit_of_mem (h : isEnvName name = true) : ∀ d ∈ name, isNameUnit d = true := by
  obtain ⟨c, rest, -, -, hall⟩ := isEnvName_iff.mp h
  exact hall

theorem indexOf_mark (h : c ∉ t) (rest : Text) :
    Text.indexOf (t ++ c :: rest) [c] = some t.length := by
  induction t with
  | nil => simp [Text.indexOf]
  | cons d t ih =>
    obtain ⟨hd, ht⟩ := List.ne_and_not_mem_of_not_mem_cons h
    have hfirst : List.isPrefixOf [c] (d :: (t ++ c :: rest)) = false := by
      simp [List.isPrefixOf, hd]
    rw [List.cons_append, Text.indexOf, hfirst, ih ht]
    rfl

theorem unquote_quoted (body : Text) : unquote (0x22 :: body ++ [0x22]) = body := by
  have hquoted : quotedBy 0x22 (0x22 :: body ++ [0x22]) = true := by
    rw [quotedBy, Bool.and_eq_true, Bool.and_eq_true]
    refine ⟨⟨?_, ?_⟩, ?_⟩
    · exact Text.startsWith_iff.mpr ⟨body ++ [0x22], rfl⟩
    · exact Text.endsWith_iff.mpr ⟨0x22 :: body, rfl⟩
    · simp
  rw [unquote, hquoted, Bool.true_or, if_pos rfl, List.cons_append, List.drop_one, List.tail_cons,
    List.dropLast_concat]

/-- **A saved line** sets its name to what stands between the quotes. -/
theorem readLine?_quoted (h : isEnvName name = true) (body : Text) :
    readLine? (name ++ 0x3D :: 0x22 :: body ++ [0x22]) = some (name, body) := by
  obtain ⟨c, rest, rfl, -, hall⟩ := isEnvName_iff.mp h
  have hunit := fun d hd => notWhitespace_of_isNameUnit (hall d hd)
  have hc := hunit c List.mem_cons_self
  have hmark : (0x3D : CodeUnit) ∉ c :: rest := fun hmem => (hunit _ hmem).2.2.1 rfl
  have hquote : isWhitespace 0x22 = false := by decide
  have hline : Text.trim (c :: rest ++ 0x3D :: 0x22 :: body ++ [0x22])
      = c :: rest ++ 0x3D :: 0x22 :: body ++ [0x22] :=
    trim_eq_self hc.1 hquote ⟨_, rfl⟩ rfl
  have hvalue : Text.trim (0x22 :: body ++ [0x22]) = 0x22 :: body ++ [0x22] :=
    trim_eq_self hquote hquote ⟨_, rfl⟩ rfl
  have hname : Text.trim (c :: rest) = c :: rest := by
    have hlast := hunit ((c :: rest).getLast (by simp)) (List.getLast_mem _)
    exact trim_eq_self hc.1 hlast.1 ⟨rest, rfl⟩ (List.dropLast_append_getLast _).symm
  have hcomment : Text.startsWith (c :: rest ++ 0x3D :: 0x22 :: body ++ [0x22]) (text "#") = false := by
    rw [Bool.eq_false_iff, ne_eq, Text.startsWith_iff]
    rintro ⟨tail, htail⟩
    exact hc.2.1 (List.cons.inj htail).1.symm
  have hindex : Text.indexOf (c :: rest ++ 0x3D :: 0x22 :: body ++ [0x22]) [0x3D]
      = some (c :: rest).length := by
    rw [List.append_assoc]
    exact indexOf_mark hmark _
  rw [readLine?, hline, hcomment, hindex]
  dsimp only
  rw [if_neg (by simp), if_neg (by simp), List.append_assoc, List.take_left, hname, h, if_pos rfl,
    ← List.drop_drop, List.drop_left, List.cons_append, List.drop_one, List.tail_cons, hvalue,
    unquote_quoted]

/-! ## Values that are read -/

theorem mem_of_mem_unquote (h : c ∈ unquote value) : c ∈ value := by
  rw [unquote] at h
  split at h
  · exact List.mem_of_mem_drop (List.dropLast_subset _ h)
  · exact h

theorem mem_of_readLine? {raw key : Text} (h : readLine? raw = some (key, value)) :
    ∀ c ∈ value, c ∈ raw := by
  rw [readLine?] at h
  dsimp only at h
  split at h
  · cases h
  split at h
  · cases h
  split at h
  · cases h
  split at h
  · cases h
    intro c hc
    exact mem_of_mem_trim (List.mem_of_mem_drop (mem_of_mem_trim (mem_of_mem_unquote hc)))
  · cases h

theorem get?_assignString (record : OrderedMap Text Text) (key value k : Text) :
    (assignString record key value).get? k
      = if key = k ∧ key ≠ text "__proto__" then some value else record.get? k := by
  rw [assignString]
  split
  · rename_i hproto
    rw [if_neg fun h => h.2 hproto]
  · rename_i hproto
    rw [OrderedMap.get?_set]
    exact if_congr (iff_self_and.mpr fun _ => hproto) rfl rfl

/-- **No value spans lines**, since the text is split before quotes are looked at. -/
theorem lf_notMem_of_get? (h : (parseDotEnv t).get? name = some value) : lf ∉ value := by
  have hfold : ∀ (lines : List Text) (out : OrderedMap Text Text), (∀ line ∈ lines, lf ∉ line) →
      (∀ k v, out.get? k = some v → lf ∉ v) →
      ∀ k v, (lines.foldl readLine out).get? k = some v → lf ∉ v := by
    intro lines
    induction lines with
    | nil => exact fun out _ hout => hout
    | cons line lines ih =>
      intro out hlines hout
      obtain ⟨hline, hlines⟩ := List.forall_mem_cons.mp hlines
      refine ih _ hlines fun k v hget => ?_
      rw [readLine] at hget
      split at hget
      · exact hout k v hget
      · rename_i key read hread
        rw [get?_assignString] at hget
        split at hget
        · cases hget
          exact fun hmem => hline (mem_of_readLine? hread lf hmem)
        · exact hout k v hget
  rw [parseDotEnv_eq] at h
  exact hfold _ _ (fun _ => not_mem_of_mem_splitOn) (fun _ _ h => by cases h) name value h

/-! ## The lines of a save -/

theorem length_escapeQuotes (v : Text) : (escapeQuotes v).length = v.length + v.count 0x22 := by
  induction v with
  | nil => rfl
  | cons c v ih =>
    rw [escapeQuotes, List.flatMap_cons, List.length_append, ← escapeQuotes, ih, List.count_cons]
    by_cases hc : c = 0x22
    · rw [if_pos hc, if_pos (beq_iff_eq.mpr hc)]
      exact (by omega : 1 + 1 + (v.length + v.count 0x22) = v.length + 1 + (v.count 0x22 + 1))
    · rw [if_neg hc, if_neg fun h => hc (beq_iff_eq.mp h), List.length_cons, List.length_cons,
        List.length_nil]
      omega

theorem escapeQuotes_of_notMem (h : 0x22 ∉ v) : escapeQuotes v = v := by
  refine (List.flatMap_congr fun c hc => ?_).trans (List.flatMap_singleton' v)
  have hne : c ≠ 0x22 := fun heq => h (heq ▸ hc)
  exact if_neg hne

theorem mem_of_mem_escapeQuotes (h : c ∈ escapeQuotes v) : c ∈ v ∨ c = 0x5C := by
  obtain ⟨d, hd, hc⟩ := List.mem_flatMap.mp h
  split at hc
  · rename_i hquote
    rcases List.mem_cons.mp hc with rfl | hc
    · exact .inr rfl
    · exact .inl (List.mem_singleton.mp hc ▸ hquote ▸ hd)
  · exact .inl (List.mem_singleton.mp hc ▸ hd)

/-- **What is read of a saved value** is the value exactly when it has no quote, and no unpaired
surrogate. -/
theorem toWellFormed_escapeQuotes_eq_iff :
    toWellFormed (escapeQuotes v) = v ↔ 0x22 ∉ v ∧ WellFormed v := by
  constructor
  · intro h
    have hlength := congrArg List.length h
    rw [length_toWellFormed, length_escapeQuotes] at hlength
    have hquote : 0x22 ∉ v := List.count_eq_zero.mp (by omega)
    rw [escapeQuotes_of_notMem hquote] at h
    exact ⟨hquote, h ▸ wellFormed_toWellFormed v⟩
  · rintro ⟨hquote, hwell⟩
    rw [escapeQuotes_of_notMem hquote, hwell.toWellFormed_eq]

/-- The line of a key, as it is read from the file. -/
def storedLine (entry : Text × Text) : Text :=
  entry.1 ++ 0x3D :: 0x22 :: toWellFormed (escapeQuotes entry.2) ++ [0x22]

variable (h : isEnvName entry.1 = true)

include h

theorem toWellFormed_savedLine : toWellFormed (savedLine entry) = storedLine entry := by
  have hname : toWellFormed entry.1 = entry.1 := by
    refine WellFormed.toWellFormed_eq (wellFormed_of_ascii fun c hc => ?_)
    exact (notWhitespace_of_isNameUnit (isNameUnit_of_mem h c hc)).2.2.2.2
  rw [savedLine, storedLine, List.append_assoc, List.cons_append, List.cons_append,
    toWellFormed_append_cons (by decide) (by decide), hname, toWellFormed_cons (by decide) (by decide),
    toWellFormed_append_cons (by decide) (by decide)]
  simp only [List.append_assoc]
  rfl

theorem lf_notMem_storedLine (hlf : lf ∉ entry.2) : lf ∉ storedLine entry := by
  intro hmem
  rw [storedLine, List.mem_append, List.mem_append, List.mem_cons, List.mem_cons] at hmem
  rcases hmem with (hname | hmark | hquote | hvalue) | hquote
  · exact (notWhitespace_of_isNameUnit (isNameUnit_of_mem h lf hname)).2.2.2.1 rfl
  · exact absurd hmark (by decide)
  · exact absurd hquote (by decide)
  · rcases mem_toWellFormed _ _ hvalue with hvalue | hreplaced
    · rcases mem_of_mem_escapeQuotes hvalue with hvalue | hbackslash
      · exact hlf hvalue
      · exact absurd hbackslash (by decide)
    · exact absurd hreplaced (by decide)
  · exact absurd hquote (by decide)

/-- **One saved line**, as it is read. -/
theorem readLine_storedLine (out : OrderedMap Text Text) :
    readLine out (storedLine entry)
      = assignString out entry.1 (toWellFormed (escapeQuotes entry.2)) := by
  rw [readLine, storedLine, readLine?_quoted h]

omit h

theorem foldl_readLine_lines {lines : List Text} (h : ∀ line ∈ lines, lf ∉ line)
    (out : OrderedMap Text Text) :
    (List.splitOn lf (lines.flatMap (· ++ [lf]))).foldl readLine out = lines.foldl readLine out := by
  induction lines generalizing out with
  | nil => rfl
  | cons line lines ih =>
    obtain ⟨hline, hlines⟩ := List.forall_mem_cons.mp h
    rw [List.flatMap_cons, List.append_assoc, List.singleton_append,
      List.splitOn_append_cons_self_of_not_mem hline, List.foldl_cons, ih hlines, List.foldl_cons]

theorem join_append_lf {lines : List Text} (h : lines ≠ []) :
    Text.join [lf] lines ++ [lf] = lines.flatMap (· ++ [lf]) := by
  induction lines with
  | nil => exact absurd rfl h
  | cons line lines ih =>
    cases lines with
    | nil => simp [Text.join]
    | cons next lines =>
      rw [List.flatMap_cons, ← ih (List.cons_ne_nil next lines), Text.join, List.intercalate_cons_cons,
        List.append_assoc, List.append_assoc, List.append_assoc]
      rfl

theorem toWellFormed_lines (lines : List Text) :
    toWellFormed (lines.flatMap (· ++ [lf])) = (lines.map toWellFormed).flatMap (· ++ [lf]) := by
  induction lines with
  | nil => rfl
  | cons line lines ih =>
    rw [List.flatMap_cons, List.append_assoc, List.singleton_append,
      toWellFormed_append_cons (by decide) (by decide), ih, List.map_cons, List.flatMap_cons,
      List.append_assoc, List.singleton_append]

theorem get?_foldl_assignString (f : Text → Text) {entries : List (Text × Text)}
    (hnodup : (entries.map Prod.fst).Nodup) (hproto : text "__proto__" ∉ entries.map Prod.fst)
    (out : OrderedMap Text Text) (name : Text) :
    (entries.foldl (fun m e => assignString m e.1 (f e.2)) out).get? name
      = ((lookupEntry name entries).map f).or (out.get? name) := by
  induction entries generalizing out with
  | nil => rfl
  | cons e entries ih =>
    obtain ⟨key, value⟩ := e
    obtain ⟨hkey, hnodup⟩ := List.nodup_cons.mp hnodup
    obtain ⟨hne, hproto⟩ := List.ne_and_not_mem_of_not_mem_cons hproto
    rw [List.foldl_cons, ih hnodup hproto, get?_assignString, lookupEntry]
    by_cases heq : key = name
    · -- the later entries have other names
      subst heq
      rw [if_pos ⟨rfl, hne.symm⟩, if_pos rfl, lookupEntry_eq_none_iff.mpr hkey]
      rfl
    · rw [if_neg fun h => heq h.1, if_neg heq]

section Saved

variable (file : List UInt8) {added : OrderedMap Text Text}
  (hnames : ∀ e ∈ added.entries, isEnvName e.1 = true)
  (hproto : added.get? (text "__proto__") = none)

include hnames hproto

/-- **The variables after a save**: those of the keys, and those there were. -/
theorem get?_parseDotEnv_save (hlf : ∀ e ∈ added.entries, lf ∉ e.2) (name : Text) :
    (parseDotEnv (bytesToText (saveKeysToEnv file added))).get? name
      = ((added.get? name).map fun v => toWellFormed (escapeQuotes v)).or
          ((parseDotEnv (bytesToText file)).get? name) := by
  have hread : parseDotEnv (bytesToText (saveKeysToEnv file added))
      = (added.entries.map storedLine).foldl readLine (parseDotEnv (bytesToText file)) := by
    rw [saveKeysToEnv, savedText, bytesToText_append file (by decide), parseDotEnv_append]
    cases hentries : added.entries with
    | nil => rfl
    | cons e entries =>
      have hlines : (added.entries.map savedLine).map toWellFormed = added.entries.map storedLine := by
        rw [List.map_map]
        exact List.map_congr_left fun e he => toWellFormed_savedLine (hnames e he)
      rw [← hentries, join_append_lf (by simp [hentries]), toWellFormed_lines, hlines]
      refine foldl_readLine_lines (fun line hline => ?_) _
      obtain ⟨e, he, rfl⟩ := List.mem_map.mp hline
      exact lf_notMem_storedLine (hnames e he) (hlf e he)
  have hfold : (added.entries.map storedLine).foldl readLine (parseDotEnv (bytesToText file))
      = added.entries.foldl (fun m e => assignString m e.1 (toWellFormed (escapeQuotes e.2)))
          (parseDotEnv (bytesToText file)) := by
    rw [List.foldl_map]
    exact List.foldl_ext _ _ _ fun m e he => readLine_storedLine (hnames e he) m
  rw [hread, hfold]
  exact get?_foldl_assignString (fun v => toWellFormed (escapeQuotes v)) added.nodup
    (lookupEntry_eq_none_iff.mp hproto) _ name

/-- **Every variable reads as it was saved**, and the others as before, exactly when no value has a
quote, a line feed or an unpaired surrogate. -/
theorem reads_saved_iff :
    (∀ name, (parseDotEnv (bytesToText (saveKeysToEnv file added))).get? name
        = (added.get? name).or ((parseDotEnv (bytesToText file)).get? name))
      ↔ ∀ e ∈ added.entries, Plain e.2 := by
  constructor
  · intro hreads
    have hget : ∀ e ∈ added.entries, added.get? e.1 = some e.2 := fun e he =>
      added.mem_entries_iff.mp he
    have hlf : ∀ e ∈ added.entries, lf ∉ e.2 := by
      intro e he
      have hvalue := hreads e.1
      rw [hget e he] at hvalue
      exact lf_notMem_of_get? hvalue
    intro e he
    have hvalue := hreads e.1
    rw [get?_parseDotEnv_save file hnames hproto hlf, hget e he, Option.map_some] at hvalue
    obtain ⟨hquote, hwell⟩ := toWellFormed_escapeQuotes_eq_iff.mp (Option.some.inj hvalue)
    exact ⟨hquote, hlf e he, hwell⟩
  · intro hplain name
    rw [get?_parseDotEnv_save file hnames hproto fun e he => (hplain e he).2.1]
    cases hget : added.get? name with
    | none => rfl
    | some v =>
      have hv := hplain (name, v) (added.mem_entries_iff.mpr hget)
      rw [Option.map_some, toWellFormed_escapeQuotes_eq_iff.mpr ⟨hv.1, hv.2.2⟩]

end Saved

end LlmRelay.Onboarding
