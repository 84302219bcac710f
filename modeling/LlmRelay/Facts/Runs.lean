import LlmRelay.Facts.Persistence

/-!
# Runs of the fact store

The store of a process starts from its file, takes records, clears and writes in any
order, and starts again from the last file that was written. It is compared with a map by
kind and scope that takes the same operations.

## Main definitions

* `World`, `World.operate`: a store with its file, and the operations on both;
* `SpecWorld`, `SpecWorld.operate`: the map by kind and scope, and its last written copy;
* `LegacyRow`, `CanonicalRow`: the rows of a file for one kind and scope.

## Main results

* `store_keyed_iff`: in every state of a run the store is the map by kind and scope exactly
  when no fact is recorded over a confusable one;
* `facts_survive_reload`: the answers survive a reload; of two rows for one kind and scope
  the canonical one is loaded exactly when it stands first or both state one fact.
-/

namespace LlmRelay.Facts

open Ecma Transition

/-! ## Operations -/

/-- A store with the last file that was written. -/
structure World where
  store : FactStore
  file : Option Json

/-- The store of a process that finds the file. -/
def World.start (file : Option Json) : World :=
  ⟨load file, file⟩

inductive Operation where
  | recordFact (kind : FactKind) (scope : FactScope) (opts : RecordOptions)
  | clearFacts (provider : Text) (credentialId model : Option Text) (costClass : Option CostClass)
  | clearActive (mode : ClearMode) (selector : CooldownFactClearSelector) (now : Number)
  | persist (now : Number) (written : Bool)
  | restart

/-- What an operation reports. -/
inductive Answer where
  | done
  | kinds (cleared : List FactKind)
  | facts (cleared : List ClearedCooldownFact)

/-- One operation. A write that fails leaves the file as it was. -/
def World.operate (w : World) : Operation → World × Answer
  | .recordFact kind scope opts => ({ w with store := Facts.recordFact w.store kind scope opts }, .done)
  | .clearFacts provider credentialId model costClass =>
    let (cleared, store) := Facts.clearFacts w.store provider credentialId model costClass
    ({ w with store }, .kinds cleared)
  | .clearActive mode selector now =>
    let (cleared, store) := mode.clear w.store selector now
    ({ w with store }, .facts cleared)
  | .persist now written =>
    let store := prune w.store now
    (⟨store, if written then some (save store) else w.file⟩, .done)
  | .restart => (World.start w.file, .done)

/-- The facts by kind and scope, and the copy that was written last. -/
structure SpecWorld where
  facts : FactMap
  saved : FactMap

/-- The map of the file. -/
def SpecWorld.start (file : Option Json) : SpecWorld :=
  ⟨(load file).index, (load file).index⟩

/-- One operation on the map. -/
def SpecWorld.operate (w : SpecWorld) : Operation → SpecWorld × Unit
  | .recordFact kind scope opts =>
    ({ w with facts := FactMap.recordFact w.facts kind scope opts }, ())
  | .clearFacts provider credentialId model costClass =>
    ({ w with facts := w.facts.removeWhere (disproved provider credentialId model costClass) }, ())
  | .clearActive mode selector now =>
    ({ w with facts := w.facts.removeWhere (retracted selector now mode.wanted) }, ())
  | .persist now written =>
    let facts := w.facts.removeWhere (expired now)
    (⟨facts, if written then facts else w.saved⟩, ())
  | .restart => (⟨w.saved, w.saved⟩, ())

/-! ## Soundness -/

/-- **Every store of a run is sound.** -/
theorem World.sound (file : Option Json) (ops : List Operation) :
    Sound (finalState World.operate (World.start file) ops).store := by
  refine finalState_invariant World.operate (I := fun w => Sound w.store) (sound_load file) ?_ ops
  intro w op h
  cases op with
  | recordFact kind scope opts => exact h.recordFact kind scope opts
  | clearFacts provider credentialId model costClass => exact h.removeWhere _
  | clearActive mode selector now =>
    change Sound (mode.clear w.store selector now).2
    rw [ClearMode.clear_eq]
    exact h.removeWhere _
  | persist now written => exact h.removeWhere _
  | restart => exact sound_load w.file

/-! ## The map by kind and scope -/

/-- The store and its file are the map and its copy. -/
structure Keyed (w : World) (spec : SpecWorld) : Prop where
  store : w.store.index = spec.facts
  file : (load w.file).index = spec.saved

/-- The condition under which a step keeps the store a map by kind and scope. -/
def Operation.Separate (store : FactStore) : Operation → Prop
  | .recordFact kind scope opts => recordable scope opts = true → Facts.Separate store kind scope
  | _ => True

/-- **One step of both worlds.** -/
theorem Keyed.operate {w : World} {spec : SpecWorld} (h : Keyed w spec) (hsound : Sound w.store)
    {op : Operation} (hop : op.Separate w.store) : Keyed (w.operate op).1 (spec.operate op).1 := by
  cases op with
  | recordFact kind scope opts =>
    refine ⟨?_, h.file⟩
    change (Facts.recordFact w.store kind scope opts).index = _
    rw [(index_recordFact_iff hsound kind scope opts).mpr hop, h.store]
    rfl
  | clearFacts provider credentialId model costClass =>
    refine ⟨?_, h.file⟩
    change (w.store.removeWhere _).index = _
    rw [Table.index_removeWhere, h.store]
    rfl
  | clearActive mode selector now =>
    refine ⟨?_, h.file⟩
    change (mode.clear w.store selector now).2.index = _
    rw [ClearMode.clear_eq]
    change (w.store.removeWhere _).index = _
    rw [Table.index_removeWhere, h.store]
    rfl
  | persist now written =>
    have hpruned : (prune w.store now).index = spec.facts.removeWhere (expired now) := by
      rw [prune, Table.index_removeWhere, h.store]
    refine ⟨hpruned, ?_⟩
    cases written with
    | false => exact h.file
    | true =>
      change (load (some (save (prune w.store now)))).index = _
      rw [load_save (hsound.prune now)]
      exact hpruned
  | restart => exact ⟨h.file, h.file⟩

/-- **The store is the map by kind and scope** in every state of a run exactly when every record
of the run is separate: no fact of its kind in the store has a scope confusable with its own. -/
theorem store_keyed_iff (file : Option Json) (ops : List Operation) :
    (∀ n, (finalState World.operate (World.start file) (ops.take n)).store.index
        = (finalState SpecWorld.operate (SpecWorld.start file) (ops.take n)).facts) ↔
      ∀ n (op : Operation), ops[n]? = some op →
        op.Separate (finalState World.operate (World.start file) (ops.take n)).store := by
  have htake : ∀ {n} {op : Operation}, ops[n]? = some op → ops.take (n + 1) = ops.take n ++ [op] := by
    intro n op hop
    rw [List.take_add_one, hop]
    rfl
  constructor
  · intro h n op hop
    cases op with
    | recordFact kind scope opts =>
      have hnow := h n
      have hnext := h (n + 1)
      rw [htake hop, finalState_snoc, finalState_snoc] at hnext
      refine (index_recordFact_iff (World.sound file (ops.take n)) kind scope opts).mp ?_
      rw [hnow]
      exact hnext
    | _ => trivial
  · intro h
    have hkeyed : ∀ n, Keyed (finalState World.operate (World.start file) (ops.take n))
        (finalState SpecWorld.operate (SpecWorld.start file) (ops.take n)) := by
      intro n
      induction n with
      | zero => exact ⟨rfl, rfl⟩
      | succ n ih =>
        cases hop : ops[n]? with
        | none =>
          rw [List.take_add_one, hop, Option.toList_none, List.append_nil]
          exact ih
        | some op =>
          rw [htake hop, finalState_snoc, finalState_snoc]
          exact ih.operate (World.sound file (ops.take n)) (h n op hop)
    exact fun n => (hkeyed n).store

/-! ## Reloading -/

theorem factsFor_prune (store : FactStore) {now t : Number} (h : now.le t = true)
    (provider : Text) (credentialId model : Option Text) (costClass : Option CostClass) :
    factsFor (prune store now).rows.values provider credentialId model t costClass
      = factsFor store.rows.values provider credentialId model t costClass := by
  have hfilter : ∀ facts : List StoredFact,
      (facts.filter fun fact => !expired now fact).filter (fun fact =>
          t.lt (expiryOf fact) && covers fact provider credentialId model
            && costFilterAdmits fact costClass)
        = facts.filter fun fact => t.lt (expiryOf fact) && covers fact provider credentialId model
            && costFilterAdmits fact costClass := by
    intro facts
    rw [List.filter_filter]
    refine List.filter_congr fun fact _ => ?_
    cases hlt : t.lt (expiryOf fact) with
    | false => simp
    | true =>
      have hlive : expired now fact = false := by
        rw [Bool.eq_false_iff]
        exact fun hle => Number.not_le_of_lt hlt (Number.le_trans hle h)
      simp [hlive]
  unfold factsFor
  rw [prune, Table.values_removeWhere, hfilter]

/-- The row of an earlier version about a kind and a scope. -/
def LegacyRow (file : Option Json) (kind : FactKind) (scope : FactScope) (fact : StoredFact) :
    Prop :=
  (lookupEntry (keyOfScope scope) (fileRows file)).bind (fun v => readRow (keyOfScope scope, v))
      = some fact ∧ fact.subject = (kind, scope)

/-- The row of this version about a kind and a scope. -/
def CanonicalRow (file : Option Json) (kind : FactKind) (scope : FactScope) (fact : StoredFact) :
    Prop :=
  (lookupEntry (keyOf kind scope) (fileRows file)).bind (fun v => readRow (keyOf kind scope, v))
      = some fact ∧ fact.subject = (kind, scope)

/-- The canonical row about a kind and a scope stands before the legacy one. -/
def CanonicalFirst (file : Option Json) (kind : FactKind) (scope : FactScope) : Prop :=
  entryPosition (keyOf kind scope) (fileRows file) < entryPosition (keyOfScope scope) (fileRows file)

instance (file : Option Json) (kind : FactKind) (scope : FactScope) :
    Decidable (CanonicalFirst file kind scope) :=
  inferInstanceAs (Decidable (entryPosition _ _ < entryPosition _ _))

theorem keyOf_ne_keyOfScope (kind : FactKind) (scope : FactScope) :
    keyOf kind scope ≠ keyOfScope scope := by
  intro h
  have hlength := congrArg List.length h
  rw [keyOf, List.length_append, List.length_cons] at hlength
  omega

/-- **Of two rows about a kind and a scope the first is loaded.** -/
theorem get?_index_load {file : Option Json} {kind : FactKind} {scope : FactScope}
    {old new : StoredFact} (hold : LegacyRow file kind scope old)
    (hnew : CanonicalRow file kind scope new) :
    (load file).index.get? (kind, scope)
      = some (if CanonicalFirst file kind scope then new else old) := by
  obtain ⟨hold, holdSubject⟩ := hold
  obtain ⟨hnew, hnewSubject⟩ := hnew
  obtain ⟨v, hv, hold⟩ := Option.bind_eq_some_iff.mp hold
  obtain ⟨w, hw, hnew⟩ := Option.bind_eq_some_iff.mp hnew
  -- the rows filed under the canonical key stand under it or under the key of the scope
  have honly : ∀ row fact, readRow row = some fact →
      decide (keyOf fact.subject.1 fact.subject.2 = keyOf kind scope) = true →
        row.1 = keyOf kind scope ∨ row.1 = keyOfScope scope := by
    intro row fact hread hkey
    have hcode : keyOf fact.kind fact.scope = keyOf kind scope := of_decide_eq_true hkey
    rcases key_of_readRow hread with h | h
    · exact .inl (h.trans hcode)
    · exact .inr (h.trans (keyOf_eq_iff.mp hcode).2)
  have hfound := find?_filterMap_of_two (keyOf_ne_keyOfScope kind scope) honly hw hnew
    (by rw [hnewSubject]; exact decide_eq_true rfl) hv hold
    (by rw [holdSubject]; exact decide_eq_true rfl)
  have hload : (load file).rows.get? (keyOf kind scope)
      = some (if CanonicalFirst file kind scope then new else old) := by
    rw [load, Table.get?_foldl_putNew]
    change (none : Option StoredFact).or _ = _
    exact hfound
  rw [Table.get?_index_iff]
  refine ⟨OrderedMap.mem_values_of_get? hload, ?_⟩
  split
  · exact hnewSubject
  · exact holdSubject

/-- **Learned facts survive a reload.** Whatever a run has done, the store that is loaded from
the file of a write has the answers of the store that was written, about every target and at
every time from then on. Of a legacy and a canonical row about one kind and scope the canonical
one is loaded exactly when it stands first or both state one fact. -/
theorem facts_survive_reload (file : Option Json) (ops : List Operation) :
    let store := (finalState World.operate (World.start file) ops).store
    (∀ now, load (some (save (prune store now))) = prune store now ∧
      ∀ provider credentialId model t costClass, now.le t = true →
        factsFor (load (some (save (prune store now)))).rows.values provider credentialId model t
            costClass
          = factsFor store.rows.values provider credentialId model t costClass) ∧
      ∀ kind scope old new, LegacyRow file kind scope old → CanonicalRow file kind scope new →
        ((load file).index.get? (kind, scope) = some new ↔
          CanonicalFirst file kind scope ∨ old = new) := by
  intro store
  have hload : ∀ now, load (some (save (prune store now))) = prune store now := fun now =>
    load_save ((World.sound file ops).prune now)
  refine ⟨fun now => ⟨hload now, ?_⟩, ?_⟩
  · intro provider credentialId model t costClass ht
    rw [hload now]
    exact factsFor_prune store ht provider credentialId model costClass
  · intro kind scope old new hold hnew
    rw [get?_index_load hold hnew, Option.some.injEq]
    split
    · rename_i hfirst
      exact iff_of_true rfl (.inl hfirst)
    · rename_i hlate
      exact (or_iff_right hlate).symm

/-! ## Rows that take the place of others -/

/-- A minute of rate limiting, learned at a time. -/
def limitedFor (now : Number) (ms : Number) : RecordOptions :=
  ⟨now, some ms, some .retryAfter, none, none⟩

/-- Are both scopes valid and different, and is the fact about the first one gone after a fact of
its kind about the second? -/
def overwrites (first second : FactScope) : Bool :=
  let before := recordFact Table.empty .rateLimited first (limitedFor 0 60000)
  let after := recordFact before .rateLimited second (limitedFor 1000 60000)
  isValidScope first.toJson && isValidScope second.toJson
    && normalizeScope first ≠ normalizeScope second
    && (before.index.get? (.rateLimited, normalizeScope first)).isSome
    && (after.index.get? (.rateLimited, normalizeScope first)).isNone

/-- A fact about the model `eu/gpt-4o` of `azure` is gone once one is recorded about the model
`gpt-4o` of `azure/eu`, and a fact about a group with the member `a,b` once one is recorded about
a group with the members `a` and `b`: each pair stands under one key. -/
theorem confusable_fact_is_overwritten :
    overwrites (.deployment (text "azure") (text "eu/gpt-4o"))
        (.deployment (text "azure/eu") (text "gpt-4o")) = true ∧
      overwrites (.group (text "groq") none [text "a,b"])
        (.group (text "groq") none [text "a", text "b"]) = true := by
  decide +kernel

/-- A row about the provider `groq`, learned at a time. -/
def providerRow (at_ : Number) : Json :=
  StoredFact.toJson ⟨.rateLimited, .provider (text "groq"), at_, some 90000, none, none, none⟩

/-- A file with the legacy row before the canonical one loads the legacy row. -/
theorem legacy_row_is_kept :
    let scope := FactScope.provider (text "groq")
    let file (rows : List (Text × Json)) : Option Json :=
      some (.ofProperties [("version", some (.ofNat 2)), ("facts", some (.obj rows))])
    let legacy := (keyOfScope scope, providerRow 1000)
    let canonical := (keyOf .rateLimited scope, providerRow 2000)
    let loaded (rows : List (Text × Json)) :=
      ((load (file rows)).index.get? (.rateLimited, scope)).map StoredFact.at_
    loaded [canonical, legacy] = some 2000 ∧ loaded [legacy, canonical] = some 1000 := by
  decide +kernel

end LlmRelay.Facts
