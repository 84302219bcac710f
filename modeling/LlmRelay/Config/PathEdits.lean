import LlmRelay.Config.RoutingParser
import LlmRelay.Ecma.JsonText

/-!
# Editing a config document at a path

A path of dot-separated names addresses a value in the configuration document, and the editor
reads, writes or deletes there (`config-edit.ts`). A write creates the objects that are missing on
its way, and refuses an array index that is not there; deleting an element shortens its array.

## Main definitions

* `parseConfigPath`: the names of a path;
* `descend`, `descendForWrite`: one step of a read and of a write;
* `readConfigPath`, `writeConfigPath`, `deleteConfigPath`: the operations, a write and a deletion
  with the document after them.

## Main results

* `readParts_write`: what a write leaves to read at every path;
* `write_of_error`: a write that throws has changed nothing;
* `delete_spec`: a deletion removes one member of one container;
* `config_path_edits_exact`: the three together.
-/

namespace LlmRelay.Config

open Ecma

/-! ## Paths -/

/-- What the editor throws. -/
inductive ConfigPathError where
  | notNames (path : Text)
  | notAnIndex (path part : Text) (length : Nat)
  | outOfRange (path part : Text) (length : Nat)
  | nonObject (path part : Text)
  /-- An assignment to a property of a value that has none. -/
  | typeError
  deriving DecidableEq

/-- The message of an error; that of a `TypeError` is the engine's. -/
def ConfigPathError.message : ConfigPathError → Option Text
  | .notNames path =>
    some (text "config path must be dot-separated names (got \"" ++ path ++ text "\")")
  | .notAnIndex path part length =>
    some (text "config path \"" ++ path ++ text "\": \"" ++ part
      ++ text "\" is not an index (the value at that path is an array of length "
      ++ Number.natText length ++ text ")")
  | .outOfRange path part length =>
    some (text "config path \"" ++ path ++ text "\": index " ++ part
      ++ text " is out of range for an array of length " ++ Number.natText length)
  | .nonObject path part =>
    some (text "config path \"" ++ path
      ++ text "\": cannot write through the non-object value at \"" ++ part ++ text "\"")
  | .typeError => none

/-- `FORBIDDEN_PATH_PARTS`. -/
def forbiddenPathParts : List Text :=
  [text "__proto__", text "prototype", text "constructor"]

def dot : CodeUnit := 0x2E

def parseConfigPath (path : Text) : Except ConfigPathError (List Text) :=
  let parts := path.splitOn dot
  if parts.any fun part => part.isEmpty || forbiddenPathParts.contains part then
    .error (.notNames path)
  else .ok parts

/-- A segment that addresses an element of an array: digits without a leading zero. -/
def arrayIndexPart (part : Text) : Option Nat :=
  if part.all isDigit && part != [] && (part.head? != some 0x30 || part.length == 1) then
    some (ofDigits (part.map digitValue))
  else none

/-! ## Reading -/

/-- What a path leads to: a value of the document, or a method that objects inherit. -/
inductive Reached where
  | value (v : Json)
  | inherited (name : Text)
  deriving DecidableEq

/-- What a segment addresses, absent for `MISSING`. -/
def descend (current : Json) (part : Text) : Option Reached :=
  match current with
  | .arr items => ((arrayIndexPart part).bind (items[·]?)).map .value
  | .obj fields =>
    match lookupEntry part fields with
    | some v => some (.value v)
    | none => if inheritedNames.contains part then some (.inherited part) else none
  | _ => none

/-- Follows the segments of a path; a method has nothing to descend to. -/
def readParts (current : Json) : List Text → Option Reached
  | [] => some (.value current)
  | part :: rest =>
    match descend current part with
    | none => none
    | some (.inherited name) => if rest = [] then some (.inherited name) else none
    | some (.value v) => readParts v rest

def readConfigPath (document : Json) (path : Text) : Except ConfigPathError (Option Reached) :=
  (parseConfigPath path).map (readParts document)

/-! ## Writing -/

/-- The container that a write goes on in, and the present one with it: an object gets what it
does not have. -/
def descendForWrite (current : Json) (part path : Text) : Except ConfigPathError (Json × Json) :=
  match current with
  | .arr items =>
    match arrayIndexPart part with
    | none => .error (.notAnIndex path part items.length)
    | some index =>
      match items[index]? with
      | none => .error (.outOfRange path part items.length)
      | some item => .ok (current, item)
  | .obj fields =>
    match descend current part with
    | none => .ok (.obj (setProperty fields part (.obj [])), .obj [])
    | some (.inherited _) => .error (.nonObject path part)
    | some (.value existing) =>
      match existing with
      | .arr _ | .obj _ => .ok (current, existing)
      | _ => .error (.nonObject path part)
  | _ => .error (.nonObject path part)

/-- The container after what a segment addresses has changed to `v`. -/
def putBack (current : Json) (part : Text) (v : Json) : Json :=
  match current with
  | .arr items =>
    match arrayIndexPart part with
    | none => .arr items
    | some index => .arr (items.set index v)
  | .obj fields => .obj (setProperty fields part v)
  | other => other

/-- Writes the last segment. -/
def assignLast (current : Json) (last path : Text) (value : Json) : Json × Option ConfigPathError :=
  match current with
  | .arr items =>
    match arrayIndexPart last with
    | none => (current, some (.notAnIndex path last items.length))
    | some index =>
      if items.length ≤ index then (current, some (.outOfRange path last items.length))
      else (.arr (items.set index value), none)
  | .obj fields => (.obj (setProperty fields last value), none)
  | _ => (current, some .typeError)

/-- Writes along the segments before the last one. -/
def writeAlong (path last : Text) (value : Json) (current : Json) :
    List Text → Json × Option ConfigPathError
  | [] => assignLast current last path value
  | part :: rest =>
    match descendForWrite current part path with
    | .error e => (current, some e)
    | .ok (grown, child) =>
      let written := writeAlong path last value child rest
      (putBack grown part written.1, written.2)

/-- The document after a write, and what the write throws. -/
def writeConfigPath (document : Json) (path : Text) (value : Json) :
    Json × Option ConfigPathError :=
  match parseConfigPath path with
  | .error e => (document, some e)
  | .ok parts => writeAlong path (parts.getLastD []) value document parts.dropLast

/-! ## Deleting -/

/-- Deletes the last segment, and says whether there was something. -/
def deleteLast (current : Json) (last : Text) : Json × Bool :=
  match current with
  | .arr items =>
    match arrayIndexPart last with
    | none => (current, false)
    | some index =>
      if items.length ≤ index then (current, false) else (.arr (items.eraseIdx index), true)
  | .obj fields =>
    match descend current last with
    | none => (current, false)
    | some _ => (.obj (fields.filter fun e => e.1 ≠ last), true)
  | _ => (current, false)

/-- Deletes along the segments before the last one. -/
def deleteAlong (last : Text) (current : Json) : List Text → Json × Bool
  | [] => deleteLast current last
  | part :: rest =>
    match descend current part with
    | some (.value child) =>
      let deleted := deleteAlong last child rest
      (putBack current part deleted.1, deleted.2)
    | _ => (current, false)

/-- The document after a deletion, and its answer. -/
def deleteConfigPath (document : Json) (path : Text) : Except ConfigPathError (Json × Bool) :=
  (parseConfigPath path).map fun parts => deleteAlong (parts.getLastD []) document parts.dropLast

/-! ## Indices -/

variable {c : CodeUnit} {part path last : Text} {index : Nat} {current v value : Json}
  {init : List Text}

theorem isDigit_iff : isDigit c = true ↔ 0x30 ≤ c.toNat ∧ c.toNat ≤ 0x39 := by
  rw [isDigit, Bool.and_eq_true, decide_eq_true_eq, decide_eq_true_eq]
  rfl

theorem digitUnit_digitValue (h : isDigit c = true) : Number.digitUnit (digitValue c) = c := by
  obtain ⟨hlow, hhigh⟩ := isDigit_iff.mp h
  apply UInt16.toNat_inj.mp
  change (0x30 + (c.toNat - 0x30)) % 2 ^ 16 = c.toNat
  omega

theorem digitValue_lt (h : isDigit c = true) : digitValue c < 10 := by
  obtain ⟨hlow, hhigh⟩ := isDigit_iff.mp h
  unfold digitValue
  omega

theorem natText_of_arrayIndexPart (h : arrayIndexPart part = some index) :
    Number.natText index = part := by
  unfold arrayIndexPart at h
  split at h
  · rename_i hpart
    simp only [Bool.and_eq_true, List.all_eq_true, bne_iff_ne, Bool.or_eq_true, beq_iff_eq] at hpart
    obtain ⟨⟨hdigits, hne⟩, hzero⟩ := hpart
    obtain rfl := Option.some.inj h
    have hunits : Number.digitText (part.map digitValue) = part := by
      rw [Number.digitText, List.map_map]
      conv_rhs => rw [← List.map_id part]
      exact List.map_congr_left fun c hc => digitUnit_digitValue (hdigits c hc)
    by_cases hlead : part.head? = some 0x30
    · -- then the part is the digit zero
      obtain ⟨c, hc⟩ := List.length_eq_one_iff.mp (hzero.resolve_left (not_not_intro hlead))
      subst hc
      cases hlead
      rfl
    · have hdigitsOf : Nat.digits 10 (ofDigits (part.map digitValue))
          = (part.map digitValue).reverse := by
        rw [ofDigits_eq]
        refine Nat.digits_ofDigits 10 (by decide) _ (fun d hd => ?_) fun hrev => ?_
        · obtain ⟨c, hc, rfl⟩ := List.mem_map.mp (List.mem_reverse.mp hd)
          exact digitValue_lt (hdigits c hc)
        · obtain ⟨c, rest, rfl⟩ := List.exists_cons_of_ne_nil hne
          rw [List.getLast_reverse]
          have hc := isDigit_iff.mp (hdigits c List.mem_cons_self)
          have hfirst : c.toNat ≠ 0x30 := fun heq =>
            hlead (congrArg some (UInt16.toNat_inj.mp heq))
          change c.toNat - 0x30 ≠ 0
          omega
      have hpos : ofDigits (part.map digitValue) ≠ 0 := by
        intro hnone
        rw [hnone, Nat.digits_zero, eq_comm, List.reverse_eq_nil_iff, List.map_eq_nil_iff]
          at hdigitsOf
        exact hne hdigitsOf
      rw [Number.natText, if_neg hpos, digitsOf, hdigitsOf, List.reverse_reverse, hunits]
  · cases h

theorem arrayIndexPart_inj {part' : Text} (h : arrayIndexPart part = some index)
    (h' : arrayIndexPart part' = some index) : part = part' :=
  (natText_of_arrayIndexPart h).symm.trans (natText_of_arrayIndexPart h')

/-! ## One step -/

theorem descend_setProperty (fields : List (Text × Json)) (part p : Text) (v : Json) :
    descend (.obj (setProperty fields part v)) p
      = if part = p then some (.value v) else descend (.obj fields) p := by
  unfold descend
  dsimp only
  rw [lookupEntry_setProperty]
  by_cases hp : part = p
  · rw [if_pos hp, if_pos hp]
  · rw [if_neg hp, if_neg hp]

theorem descend_set {items : List Json} {item : Json} (hindex : arrayIndexPart part = some index)
    (hitem : items[index]? = some item) (p : Text) (v : Json) :
    descend (.arr (items.set index v)) p
      = if part = p then some (.value v) else descend (.arr items) p := by
  unfold descend
  dsimp only
  by_cases hp : part = p
  · subst hp
    obtain ⟨hlt, -⟩ := List.getElem?_eq_some_iff.mp hitem
    rw [if_pos rfl, hindex, Option.bind_some, List.getElem?_set_self hlt]
    rfl
  · rw [if_neg hp]
    cases hother : arrayIndexPart p with
    | none => rfl
    | some other =>
      have hne : index ≠ other := by
        rintro rfl
        exact hp (arrayIndexPart_inj hindex hother)
      rw [Option.bind_some, Option.bind_some, List.getElem?_set_ne hne]

theorem descend_putBack {w : Json} (h : descend current part = some (.value w)) (v : Json)
    (p : Text) :
    descend (putBack current part v) p
      = if part = p then some (.value v) else descend current p := by
  cases current with
  | arr items =>
    obtain ⟨item, hitem, -⟩ := Option.map_eq_some_iff.mp h
    obtain ⟨index, hindex, hitem⟩ := Option.bind_eq_some_iff.mp hitem
    unfold putBack
    rw [hindex]
    exact descend_set hindex hitem p v
  | obj fields => exact descend_setProperty fields part p v
  | null | bool | num | str => cases h

theorem setProperty_of_lookupEntry {fields : List (Text × Json)} {key : Text}
    (h : lookupEntry key fields = some v) : setProperty fields key v = fields := by
  rw [setProperty, h, if_pos Option.isSome_some, setEntry_of_lookupEntry h]

theorem putBack_same {w : Json} (h : descend current part = some (.value w)) :
    putBack current part w = current := by
  cases current with
  | arr items =>
    obtain ⟨item, hitem, hvalue⟩ := Option.map_eq_some_iff.mp h
    obtain ⟨index, hindex, hitem⟩ := Option.bind_eq_some_iff.mp hitem
    cases hvalue
    obtain ⟨hlt, hget⟩ := List.getElem?_eq_some_iff.mp hitem
    unfold putBack
    rw [hindex, ← hget]
    exact congrArg Json.arr (List.set_getElem_self hlt)
  | obj fields =>
    unfold descend at h
    dsimp only at h
    unfold putBack
    dsimp only
    split at h
    · rename_i v hv
      cases h
      rw [setProperty_of_lookupEntry hv]
    · split at h <;> cases h
  | null | bool | num | str => cases h

theorem descendForWrite_spec {grown child : Json}
    (h : descendForWrite current part path = .ok (grown, child)) :
    descend grown part = some (.value child) ∧
      (∀ p, part ≠ p → descend grown p = descend current p) ∧
      ((grown = current ∧ descend current part = some (.value child)) ∨
        (child = .obj [] ∧ descend current part = none)) := by
  cases current with
  | arr items =>
    simp only [descendForWrite] at h
    split at h
    · cases h
    · rename_i index hindex
      split at h
      · cases h
      · rename_i item hitem
        cases h
        have hfound : descend (.arr items) part = some (.value child) := by
          unfold descend
          dsimp only
          rw [hindex, Option.bind_some, hitem]
          rfl
        exact ⟨hfound, fun _ _ => rfl, .inl ⟨rfl, hfound⟩⟩
  | obj fields =>
    simp only [descendForWrite] at h
    split at h
    · rename_i hmissing
      cases h
      refine ⟨by rw [descend_setProperty, if_pos rfl], fun p hp => ?_, .inr ⟨rfl, hmissing⟩⟩
      rw [descend_setProperty, if_neg hp]
    · cases h
    · rename_i existing hfound
      split at h
      · cases h
        exact ⟨hfound, fun _ _ => rfl, .inl ⟨rfl, hfound⟩⟩
      · cases h
        exact ⟨hfound, fun _ _ => rfl, .inl ⟨rfl, hfound⟩⟩
      · cases h
  | null | bool | num | str => cases h

theorem assignLast_spec (h : (assignLast current last path value).2 = none) (p : Text) :
    descend (assignLast current last path value).1 p
      = if last = p then some (.value value) else descend current p := by
  cases current with
  | arr items =>
    simp only [assignLast] at h ⊢
    split at h
    · cases h
    · rename_i index hindex
      split at h
      · cases h
      · rename_i hlt
        rw [if_neg hlt]
        exact descend_set hindex (List.getElem?_eq_getElem (Nat.lt_of_not_le hlt)) p value
  | obj fields => exact descend_setProperty fields last p value
  | null | bool | num | str => cases h

theorem assignLast_of_error {e : ConfigPathError}
    (h : (assignLast current last path value).2 = some e) :
    (assignLast current last path value).1 = current := by
  cases current with
  | arr items =>
    simp only [assignLast] at h ⊢
    split
    · rfl
    · rename_i index hindex
      rw [hindex] at h
      dsimp only at h
      split at h
      · rw [if_pos ‹_›]
      · cases h
  | obj fields => cases h
  | null | bool | num | str => rfl

/-! ## Reads after a write -/

theorem readParts_cons_value {rest : List Text} (h : descend current part = some (.value v)) :
    readParts current (part :: rest) = readParts v rest := by
  rw [readParts, h]

theorem readParts_cons_congr {current' : Json} (h : descend current part = descend current' part)
    (rest : List Text) : readParts current (part :: rest) = readParts current' (part :: rest) := by
  rw [readParts, readParts, h]

theorem readParts_empty (h : part ∉ inheritedNames) (rest : List Text) :
    readParts (.obj []) (part :: rest) = none := by
  rw [readParts, descend]
  simp [lookupEntry, h]

/-- Neither path leads through the other. -/
def PathsApart (p q : List Text) : Prop :=
  ¬ p <+: q ∧ ¬ q <+: p

theorem pathsApart_cons {p q : List Text} :
    PathsApart (part :: p) (part :: q) ↔ PathsApart p q := by
  simp [PathsApart]

theorem PathsApart.ne_nil {p q : List Text} (h : PathsApart p q) : q ≠ [] := by
  rintro rfl
  exact h.2 (List.nil_prefix)

/-- **After a write** its path reads the value, and every path apart from it reads as before, up to
the methods that the new objects on the way inherit. -/
theorem readParts_write (h : (writeAlong path last value current init).2 = none) :
    readParts (writeAlong path last value current init).1 (init ++ [last]) = some (.value value) ∧
      ∀ q, (∀ part ∈ q, part ∉ inheritedNames) → PathsApart (init ++ [last]) q →
        readParts (writeAlong path last value current init).1 q = readParts current q := by
  induction init generalizing current with
  | nil =>
    have hstep := assignLast_spec h
    refine ⟨?_, fun q _ hapart => ?_⟩
    · exact readParts_cons_value (by rw [writeAlong, hstep, if_pos rfl])
    · obtain ⟨part, rest, rfl⟩ := List.exists_cons_of_ne_nil hapart.ne_nil
      refine readParts_cons_congr ((hstep part).trans (if_neg ?_)) rest
      rintro rfl
      exact hapart.1 (by simp)
  | cons first init ih =>
    simp only [writeAlong] at h ⊢
    cases hgrown : descendForWrite current first path with
    | error e =>
      rw [hgrown] at h
      cases h
    | ok grown =>
      obtain ⟨grown, child⟩ := grown
      rw [hgrown] at h
      obtain ⟨hthere, hothers, hchild⟩ := descendForWrite_spec hgrown
      obtain ⟨hvalue, hrest⟩ := ih h
      have hstep := descend_putBack hthere (writeAlong path last value child init).1
      refine ⟨?_, fun q hplain hapart => ?_⟩
      · rw [List.cons_append, readParts_cons_value (by rw [hstep, if_pos rfl])]
        exact hvalue
      · obtain ⟨part, rest, rfl⟩ := List.exists_cons_of_ne_nil hapart.ne_nil
        by_cases hpart : first = part
        · subst hpart
          rw [List.cons_append, pathsApart_cons] at hapart
          rw [readParts_cons_value (by rw [hstep, if_pos rfl]),
            hrest rest (fun p hp => hplain p (List.mem_cons_of_mem _ hp)) hapart]
          rcases hchild with ⟨-, hwas⟩ | ⟨rfl, hmissing⟩
          · rw [readParts_cons_value hwas]
          · -- nothing was there, and the new object holds nothing yet
            obtain ⟨next, more, rfl⟩ := List.exists_cons_of_ne_nil hapart.ne_nil
            rw [readParts_empty (hplain next (by simp)), readParts, hmissing]
        · exact readParts_cons_congr (by rw [hstep, if_neg hpart, hothers part hpart]) rest

theorem writeAlong_empty (hplain : ∀ part ∈ init, part ∉ inheritedNames) :
    (writeAlong path last value (.obj []) init).2 = none := by
  induction init with
  | nil => rfl
  | cons first init ih =>
    have hmissing : descend (.obj []) first = none := by
      simp [descend, lookupEntry, hplain first List.mem_cons_self]
    simp only [writeAlong, descendForWrite, hmissing]
    exact ih fun part hpart => hplain part (List.mem_cons_of_mem _ hpart)

/-- **A write that throws** has changed nothing. -/
theorem write_of_error {e : ConfigPathError} (hplain : ∀ part ∈ init, part ∉ inheritedNames)
    (h : (writeAlong path last value current init).2 = some e) :
    (writeAlong path last value current init).1 = current := by
  induction init generalizing current with
  | nil => exact assignLast_of_error h
  | cons first init ih =>
    have hrest := fun part hpart => hplain part (List.mem_cons_of_mem first hpart)
    simp only [writeAlong] at h ⊢
    cases hgrown : descendForWrite current first path with
    | error e => rfl
    | ok grown =>
      obtain ⟨grown, child⟩ := grown
      rw [hgrown] at h
      dsimp only at h ⊢
      rcases (descendForWrite_spec hgrown).2.2 with ⟨rfl, hwas⟩ | ⟨rfl, -⟩
      · rw [ih hrest h, putBack_same hwas]
      · rw [writeAlong_empty hrest] at h
        cases h

/-! ## Reads after a deletion -/

theorem readParts_append (h : readParts current init = some (.value v)) (rest : List Text) :
    readParts current (init ++ rest) = readParts v rest := by
  induction init generalizing current with
  | nil =>
    cases h
    rfl
  | cons part init ih =>
    rw [readParts] at h
    split at h
    · cases h
    · split at h <;> cases h
    · rename_i child hchild
      rw [List.cons_append, readParts_cons_value hchild]
      exact ih h

/-- What a deletion leaves of the container of the last segment, and of the other paths. -/
structure DeletedIn (document after : Json) (init : List Text) (last : Text) (container : Json) :
    Prop where
  was : readParts document init = some (.value container)
  now : readParts after init = some (.value (deleteLast container last).1)
  found : (deleteLast container last).2 = true
  others : ∀ q, PathsApart init q → readParts after q = readParts document q

theorem deleteLast_of_false (h : (deleteLast current last).2 = false) :
    (deleteLast current last).1 = current ∧ descend current last = none := by
  cases current with
  | arr items =>
    simp only [deleteLast] at h ⊢
    cases hindex : arrayIndexPart last with
    | none => simp [descend, hindex]
    | some index =>
      rw [hindex] at h
      dsimp only at h ⊢
      split at h
      · rename_i hout
        rw [if_pos hout]
        refine ⟨rfl, ?_⟩
        rw [descend, hindex, Option.bind_some, List.getElem?_eq_none hout]
        rfl
      · cases h
  | obj fields =>
    simp only [deleteLast] at h ⊢
    split at h
    · rename_i hmissing
      rw [hmissing]
      exact ⟨rfl, rfl⟩
    · cases h
  | null | bool | num | str => exact ⟨rfl, rfl⟩

/-- **A deletion** that answers `false` has found nothing and changed nothing; one that answers
`true` has deleted a member of the container it reached. -/
theorem delete_spec (last : Text) (init : List Text) (current : Json) :
    ((deleteAlong last current init).2 = false →
        (deleteAlong last current init).1 = current ∧ readParts current (init ++ [last]) = none) ∧
      ((deleteAlong last current init).2 = true →
        ∃ container, DeletedIn current (deleteAlong last current init).1 init last container) := by
  induction init generalizing current with
  | nil =>
    refine ⟨fun h => ?_, fun h => ⟨current, rfl, rfl, h, fun q hapart => ?_⟩⟩
    · obtain ⟨hsame, hmissing⟩ := deleteLast_of_false h
      exact ⟨hsame, by rw [List.nil_append, readParts, hmissing]⟩
    · exact absurd List.nil_prefix hapart.1
  | cons first init ih =>
    simp only [deleteAlong]
    split
    · rename_i child hchild
      have hstep := descend_putBack hchild (deleteAlong last child init).1
      refine ⟨fun h => ?_, fun h => ?_⟩
      · obtain ⟨hsame, hmissing⟩ := (ih child).1 h
        rw [hsame, putBack_same hchild, List.cons_append, readParts_cons_value hchild]
        exact ⟨rfl, hmissing⟩
      · obtain ⟨container, hwas, hnow, hfound, hothers⟩ := (ih child).2 h
        refine ⟨container, ?_, ?_, hfound, fun q hapart => ?_⟩
        · rw [readParts_cons_value hchild, hwas]
        · rw [readParts_cons_value (by rw [hstep, if_pos rfl]), hnow]
        · obtain ⟨part, rest, rfl⟩ := List.exists_cons_of_ne_nil hapart.ne_nil
          by_cases hpart : first = part
          · subst hpart
            rw [readParts_cons_value (by rw [hstep, if_pos rfl]), readParts_cons_value hchild,
              hothers rest (pathsApart_cons.mp hapart)]
          · exact readParts_cons_congr (by rw [hstep, if_neg hpart]) rest
    · rename_i hnot
      refine ⟨fun _ => ⟨rfl, ?_⟩, fun h => (nomatch h)⟩
      rw [List.cons_append, readParts]
      split
      · rfl
      · simp
      · rename_i v hv
        exact absurd hv (hnot v)

/-- Exactly one path is gone: the member of an object and nothing else, or an element of an array,
with the later elements moved down by one. -/
inductive Removed (document after : Json) (init : List Text) (last : Text) : Prop
  | member (fields : List (Text × Json))
      (hcontainer : readParts document init = some (.value (.obj fields)))
      (hgone : readParts after (init ++ [last]) = none)
      (hothers : ∀ q, PathsApart (init ++ [last]) q → readParts after q = readParts document q)
  | element (items : List Json) (index : Nat)
      (hcontainer : readParts document init = some (.value (.arr items)))
      (hindex : arrayIndexPart last = some index) (hlt : index < items.length)
      (hnow : readParts after init = some (.value (.arr (items.eraseIdx index))))
      (hothers : ∀ q, PathsApart init q → readParts after q = readParts document q)

theorem descend_filter (fields : List (Text × Json)) (last p : Text) (h : last ≠ p) :
    descend (.obj (fields.filter fun e => e.1 ≠ last)) p = descend (.obj fields) p := by
  unfold descend
  dsimp only
  rw [lookupEntry_filter_ne, if_neg h]

theorem DeletedIn.removed {document after container : Json}
    (h : DeletedIn document after init last container) (hplain : last ∉ inheritedNames) :
    Removed document after init last := by
  obtain ⟨hwas, hnow, hfound, hothers⟩ := h
  cases container with
  | arr items =>
    simp only [deleteLast] at hnow hfound
    split at hfound
    · cases hfound
    · rename_i index hindex
      split at hfound
      · cases hfound
      · rename_i hlt
        rw [hindex] at hnow
        dsimp only at hnow
        rw [if_neg hlt] at hnow
        exact .element items index hwas hindex (Nat.lt_of_not_le hlt) hnow hothers
  | obj fields =>
    have hafter : readParts after init
        = some (.value (.obj (fields.filter fun e => e.1 ≠ last))) := by
      rw [hnow]
      simp only [deleteLast] at hfound ⊢
      split at hfound
      · cases hfound
      · rfl
    refine .member fields hwas ?_ fun q hapart => ?_
    · rw [readParts_append hafter, readParts]
      have hgone : descend (.obj (fields.filter fun e => e.1 ≠ last)) last = none := by
        unfold descend
        dsimp only
        rw [lookupEntry_filter_ne]
        simp [hplain]
      rw [hgone]
    · by_cases hinit : init <+: q
      · obtain ⟨rest, rfl⟩ := hinit
        cases rest with
        | nil => exact absurd (by simp) hapart.2
        | cons part rest =>
          rw [readParts_append hafter, readParts_append hwas]
          refine readParts_cons_congr (descend_filter fields last part ?_) rest
          rintro rfl
          exact hapart.1 ⟨rest, by simp⟩
      · exact hothers q ⟨hinit, fun hq => hapart.2 (hq.trans (List.prefix_append init [last]))⟩
  | null | bool | num | str => cases hfound

/-! ## The editor -/

theorem parseConfigPath_ne_nil {parts : List Text} (h : parseConfigPath path = .ok parts) :
    parts ≠ [] := by
  unfold parseConfigPath at h
  dsimp only at h
  split at h
  · cases h
  · cases h
    exact List.splitOn_ne_nil dot path

theorem eq_init_append_last {parts : List Text} (h : parts ≠ []) :
    parts = parts.dropLast ++ [parts.getLastD []] := by
  rw [List.getLastD_eq_getLast?, List.getLast?_eq_some_getLast h, Option.getD_some,
    List.dropLast_append_getLast h]

/-- **The editor is exact.** After a write its path reads the value, and the paths apart from it
read as before; a write that throws has changed nothing; a deletion that answers `true` has removed
exactly its path, an array closing the gap, and one that answers `false` has changed nothing. -/
theorem config_path_edits_exact (document : Json) :
    (∀ path parts value after, parseConfigPath path = .ok parts →
      writeConfigPath document path value = (after, none) →
      readConfigPath after path = .ok (some (.value value)) ∧
        ∀ other q, parseConfigPath other = .ok q → (∀ part ∈ q, part ∉ inheritedNames) →
          PathsApart parts q → readConfigPath after other = readConfigPath document other) ∧
    (∀ path value after e,
      (∀ parts, parseConfigPath path = .ok parts → ∀ part ∈ parts, part ∉ inheritedNames) →
      writeConfigPath document path value = (after, some e) → after = document) ∧
    ∀ path parts after removed, parseConfigPath path = .ok parts →
      (∀ part ∈ parts, part ∉ inheritedNames) →
      deleteConfigPath document path = .ok (after, removed) →
      (removed = false → after = document ∧ readConfigPath document path = .ok none) ∧
        (removed = true → Removed document after parts.dropLast (parts.getLastD [])) := by
  refine ⟨fun path parts value after hparts hwrite => ?_,
    fun path value after e hplain hwrite => ?_,
    fun path parts after removed hparts hplain hdelete => ?_⟩
  · rw [writeConfigPath, hparts] at hwrite
    have hspec := readParts_write (congrArg Prod.snd hwrite)
    rw [← eq_init_append_last (parseConfigPath_ne_nil hparts), congrArg Prod.fst hwrite] at hspec
    refine ⟨?_, fun other q hq hplain hapart => ?_⟩
    · rw [readConfigPath, hparts, Except.map, hspec.1]
    · rw [readConfigPath, readConfigPath, hq, Except.map, Except.map, hspec.2 q hplain hapart]
  · unfold writeConfigPath at hwrite
    split at hwrite
    · cases hwrite
      rfl
    · rename_i parts hparts
      have hinit : ∀ part ∈ parts.dropLast, part ∉ inheritedNames := fun part hpart =>
        hplain parts hparts part (List.mem_of_mem_dropLast hpart)
      have hsame := write_of_error hinit (congrArg Prod.snd hwrite)
      rw [hwrite] at hsame
      exact hsame
  · rw [deleteConfigPath, hparts] at hdelete
    have hafter : deleteAlong (parts.getLastD []) document parts.dropLast = (after, removed) :=
      Except.ok.inj hdelete
    obtain ⟨hfalse, htrue⟩ := delete_spec (parts.getLastD []) parts.dropLast document
    rw [hafter, ← eq_init_append_last (parseConfigPath_ne_nil hparts)] at hfalse
    rw [hafter] at htrue
    refine ⟨fun hremoved => ?_, fun hremoved => ?_⟩
    · rw [readConfigPath, hparts, Except.map, (hfalse hremoved).2]
      exact ⟨(hfalse hremoved).1, rfl⟩
    · obtain ⟨container, hdeleted⟩ := htrue hremoved
      refine hdeleted.removed (hplain _ ?_)
      rw [List.getLastD_eq_getLast?,
        List.getLast?_eq_some_getLast (parseConfigPath_ne_nil hparts), Option.getD_some]
      exact List.getLast_mem _

/-- Deleting an element moves the later ones: their paths read something else. -/
theorem deleted_element_moves_others :
    let document := Json.obj [(text "arr", .arr [.str (text "a"), .str (text "b")])]
    let after := Json.obj [(text "arr", .arr [.str (text "b")])]
    deleteConfigPath document (text "arr.0") = .ok (after, true) ∧
      readConfigPath document (text "arr.1") = .ok (some (.value (.str (text "b")))) ∧
      readConfigPath after (text "arr.1") = .ok none ∧
      readConfigPath after (text "arr.0") = .ok (some (.value (.str (text "b")))) := by
  decide +kernel

end LlmRelay.Config
