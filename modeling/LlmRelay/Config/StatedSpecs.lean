import LlmRelay.Config.Degradation

/-!
# The specs of a document

The specs of a parsed block are those that the document states, without the specs of disabled
providers: the blocks are read apart from each other, assigned to plain objects key by key, and
then degraded. A key that sets a prototype leaves no entry.

## Main definitions

* `Routing.specs`, `Routing.members`, `Routing.prefixes`: the specs of a parsed block;
* `keptSpecs`, `keptMembers`: the specs that a document states and that are kept.

## Main results

* `specs_of_parseRouting`, `members_of_parseRouting`: they are the same.
-/

namespace LlmRelay.Config

open Ecma

/-! ## The specs of a parsed block -/

def mapSpecs (map : OrderedMap Text Spec) : List Text :=
  map.entries.flatMap (·.2.specs)

/-- The spec of a relay rung. -/
def relaySpec? (rung : LadderRung) : Option Text :=
  match rung.kind with
  | .relay => rung.spec
  | .cli => none

def relaySpecs (rungs : List LadderRung) : List Text :=
  rungs.filterMap relaySpec?

def ladderSpecs (ladders : OrderedMap Text (List LadderRung)) : List Text :=
  ladders.entries.flatMap (relaySpecs ·.2)

namespace Routing

variable {β : Type} (routing : Routing β)

/-- The specs that may name a pool. -/
def specs : List Text :=
  routing.default_.specs
    ++ (mapSpecs routing.tiers ++ mapSpecs (routing.subagents.getD .empty)
      ++ relaySpecs (routing.ladder.getD []) ++ ladderSpecs (routing.ladders.getD .empty))

/-- The members of the pools. -/
def members : List Text :=
  (routing.pools.getD .empty).entries.flatMap (·.2)

/-- The preferred prefixes of the pools that are policies. -/
def prefixes : List Text :=
  (routing.poolPolicies.getD .empty).entries.flatMap (·.2.preferred)

end Routing

/-! ## The specs of a document -/

/-- `Object.entries`, without the key that sets a prototype. -/
def ownEntries (raw : Option Json) : List (Text × Json) :=
  (objectEntries raw).filter fun e => decide (e.1 ≠ protoName)

/-- A string, or the strings of an array, as far as they are not empty. -/
def statedSpecs : Json → List Text
  | .arr items => specStrings items
  | .str (c :: s) => [c :: s]
  | _ => []

def statedString : Json → List Text
  | .str (c :: s) => [c :: s]
  | _ => []

/-- The strings of an array that a policy has. -/
def policyStrings (policy : Json) (key : Text) : List Text :=
  specStrings ((Json.array? (policy.get? key)).getD [])

/-- The members of an array, or the preferred ones of a policy that it does not exclude. -/
def statedMembers : Json → List Text
  | .arr items => specStrings items
  | .obj fields =>
    (policyStrings (.obj fields) (text "preferred")).filter fun s =>
      decide (s ∉ policyStrings (.obj fields) (text "exclude"))
  | _ => []

def statedRelay (entry : Json) : Option Text :=
  if entry.get? (text "kind") = some (.str (text "relay")) then
    Json.string? (entry.get? (text "spec"))
  else none

/-- The specs of the relay rungs of a ladder. -/
def statedRelays (raw : Option Json) : List Text :=
  ((Json.array? raw).getD []).filterMap statedRelay

/-- A single default stays, and so does a list that would lose every spec. -/
def keptDefault (raw : Json) (overrideDefault : Option Text) (disabledProviders : List Text) :
    List Text :=
  match (overrideDefault.map Json.str).or (raw.get? (text "default")) with
  | some (.arr items) =>
    let kept := (specStrings items).filter (keepsSpec disabledProviders)
    if kept = [] then specStrings items else kept
  | some v => statedString v
  | none => []

def statedOutsidePools (raw : Json) : List Text :=
  (ownEntries (raw.get? (text "tiers"))).flatMap (statedSpecs ·.2)
    ++ (ownEntries (raw.get? (text "subagents"))).flatMap (statedString ·.2)
    ++ statedRelays (raw.get? (text "ladder"))
    ++ (ownEntries (raw.get? (text "ladders"))).flatMap (statedRelays <| some ·.2)

/-- The specs outside the pools that are kept. -/
def keptSpecs (raw : Json) (overrideDefault : Option Text) (disabledProviders : List Text) :
    List Text :=
  keptDefault raw overrideDefault disabledProviders
    ++ (statedOutsidePools raw).filter (keepsSpec disabledProviders)

/-- The members of the pools that are kept. -/
def keptMembers (raw : Json) (disabledProviders : List Text) : List Text :=
  ((ownEntries (raw.get? (text "pools"))).flatMap (statedMembers ·.2)).filter
    (keepsMember disabledProviders)

/-! ## The degradation -/

section Degradation

variable {disabled : List Text}

theorem flatMap_filterMap {α β γ : Type} (f : α → Option β) (g : β → List γ) (l : List α) :
    (l.filterMap f).flatMap g = l.flatMap fun a => ((f a).map g).getD [] := by
  induction l with
  | nil => rfl
  | cons a l ih =>
    rw [List.filterMap_cons, List.flatMap_cons]
    cases f a with
    | none => exact ih
    | some b => rw [List.flatMap_cons, ih]; rfl

theorem fst_dropDisabledSpecs_eq (spec : Spec) (where_ : Text) :
    (dropDisabledSpecs spec disabled where_).1 = (dropDisabledSpecs spec disabled []).1 := by
  unfold dropDisabledSpecs
  dsimp only
  split
  · rfl
  · split
    · rfl
    · split <;> rfl

theorem keepsSpec_nil (s : Text) : keepsSpec [] s = true := by
  rw [keepsSpec, keepsMember_nil, Bool.or_true]

theorem specs_dropDisabledSpecs (spec : Spec) (where_ : Text) :
    ((dropDisabledSpecs spec disabled where_).1.map Spec.specs).getD []
      = spec.specs.filter (keepsSpec disabled) := by
  unfold dropDisabledSpecs
  dsimp only
  split
  · rename_i hnil
    rw [hnil, List.filter_eq_self.mpr fun s _ => keepsSpec_nil s]
    rfl
  · split
    · rename_i hkept
      rw [hkept]
      rfl
    · rename_i hkept
      split
      · rename_i s
        -- a single spec of which something is kept is kept
        rw [Spec.specs] at hkept ⊢
        cases hs : keepsSpec disabled s with
        | true => simp [hs, Spec.specs]
        | false => exact absurd (by simp [hs]) hkept
      · rfl

theorem mapSpecs_prune (map : OrderedMap Text Spec) (prefix_ : Text) :
    mapSpecs (pruneDisabledSpecEntries map disabled prefix_).1
      = (mapSpecs map).filter (keepsSpec disabled) := by
  unfold pruneDisabledSpecEntries mapSpecs
  rw [OrderedMap.prune_eq (fun tier spec => fst_dropDisabledSpecs_eq spec _) map]
  unfold OrderedMap.filterMapValues
  rw [flatMap_filterMap, List.filter_flatMap]
  congr 1
  funext e
  rw [← specs_dropDisabledSpecs e.2 [], Option.map_map]
  rfl

theorem keepsRung_eq_all (rung : LadderRung) :
    keepsRung disabled rung = (relaySpec? rung).all (keepsSpec disabled) := by
  unfold keepsRung relaySpec?
  cases rung.kind with
  | cli => rfl
  | relay =>
    cases rung.spec with
    | none => rfl
    | some s =>
      dsimp only [Option.all_some]
      unfold dropDisabledSpecs
      split
      · rename_i hnil
        rw [hnil, keepsSpec_nil]
        rfl
      · cases hs : keepsSpec disabled s <;> simp [Spec.specs, hs]

theorem relaySpecs_dropDisabledRungs (rungs : List LadderRung) (prefix_ : Text) :
    relaySpecs (dropDisabledRungs rungs disabled prefix_).1
      = (relaySpecs rungs).filter (keepsSpec disabled) := by
  show (rungs.filter (keepsRung disabled)).filterMap relaySpec? = _
  unfold relaySpecs
  rw [List.filterMap_filter, List.filter_filterMap]
  congr 1
  funext rung
  rw [keepsRung_eq_all]
  cases relaySpec? rung with
  | none => rfl
  | some s => rfl

theorem ladderSpecs_prune (ladders : OrderedMap Text (List LadderRung)) :
    ladderSpecs (pruneLadders ladders disabled).1
      = (ladderSpecs ladders).filter (keepsSpec disabled) := by
  unfold pruneLadders ladderSpecs
  have hkept (tier : Text) (rungs : List LadderRung) :
      (if (dropDisabledRungs rungs disabled (text "routing.ladders." ++ tier)).1 = [] then none
        else some (dropDisabledRungs rungs disabled (text "routing.ladders." ++ tier)).1)
        = if rungs.filter (keepsRung disabled) = [] then none
          else some (rungs.filter (keepsRung disabled)) :=
    rfl
  rw [OrderedMap.prune_eq hkept ladders]
  unfold OrderedMap.filterMapValues
  dsimp only
  rw [flatMap_filterMap, List.filter_flatMap]
  congr 1
  funext e
  rw [← relaySpecs_dropDisabledRungs e.2 []]
  show _ = relaySpecs (e.2.filter (keepsRung disabled))
  split
  · rename_i hnone
    rw [hnone]
    rfl
  · rfl

theorem specs_ne_nil (spec : Spec) : spec.specs ≠ [] := by
  cases spec with
  | single s => exact List.cons_ne_nil _ _
  | list specs nonempty => exact nonempty

theorem specs_degradeDefault_list {specs : List Text} (nonempty : specs ≠ []) :
    (degradeDefault (.list specs nonempty) disabled).1.specs
      = if specs.filter (keepsSpec disabled) = [] then specs
        else specs.filter (keepsSpec disabled) := by
  have hleft : ((dropDisabledSpecs (.list specs nonempty) disabled
      (text "routing.default")).1.map Spec.specs).getD [] = specs.filter (keepsSpec disabled) :=
    specs_dropDisabledSpecs (.list specs nonempty) (text "routing.default")
  unfold degradeDefault
  dsimp only
  cases hdropped : (dropDisabledSpecs (.list specs nonempty) disabled (text "routing.default")).1 with
  | none =>
    rw [hdropped] at hleft
    have hnil : specs.filter (keepsSpec disabled) = [] := hleft.symm
    rw [if_pos hnil]
    rfl
  | some spec =>
    rw [hdropped] at hleft
    have hne : specs.filter (keepsSpec disabled) ≠ [] := by
      intro hnil
      exact specs_ne_nil spec (hleft.trans hnil)
    rw [if_neg hne]
    exact hleft

end Degradation

/-! ## Assignments -/

section Assignments

variable {α : Type}

/-- What an entry leaves on a plain object. -/
def assigned (f : Json → Option α) (e : Text × Json) : Option (Text × α) :=
  if e.1 = protoName then none else (f e.2).map (e.1, ·)

theorem entries_assign {m : OrderedMap Text α} {k : Text} (h : m.get? k = none) (v : α) :
    (assign m k v).entries = m.entries ++ if k = protoName then [] else [(k, v)] := by
  unfold assign
  split
  · rw [List.append_nil]
  · exact OrderedMap.entries_set_of_none v h

theorem get?_assign_of_ne (m : OrderedMap Text α) {k k' : Text} (v : α) (h : k ≠ k') :
    (assign m k v).get? k' = m.get? k' := by
  unfold assign
  split
  · rfl
  · exact OrderedMap.get?_set_of_ne m v h

theorem entries_foldl_assign (f : Json → Option α) (l : List (Text × Json)) {m : OrderedMap Text α}
    (hnodup : (l.map Prod.fst).Nodup) (hfresh : ∀ e ∈ l, m.get? e.1 = none) :
    (l.foldl (fun m e => ((f e.2).map (assign m e.1)).getD m) m).entries
      = m.entries ++ l.filterMap (assigned f) := by
  induction l generalizing m with
  | nil => rw [List.foldl_nil, List.filterMap_nil, List.append_nil]
  | cons e l ih =>
    rw [List.map_cons, List.nodup_cons] at hnodup
    rw [List.foldl_cons, List.filterMap_cons, assigned]
    cases hf : f e.2 with
    | none =>
      rw [Option.map_none, Option.map_none, ite_self]
      exact ih hnodup.2 fun e' he' => hfresh e' (List.mem_cons_of_mem e he')
    | some v =>
      rw [Option.map_some, Option.getD_some, Option.map_some,
        ih hnodup.2, entries_assign (hfresh e List.mem_cons_self)]
      · split
        · rw [List.append_nil]
        · rw [List.append_assoc, List.singleton_append]
      · intro e' he'
        have hne : e.1 ≠ e'.1 := fun h => hnodup.1 (h ▸ List.mem_map_of_mem he')
        rw [get?_assign_of_ne m v hne]
        exact hfresh e' (List.mem_cons_of_mem e he')

theorem flatMap_filterMap_assigned {γ : Type} (f : Json → Option α) (g : α → List γ)
    (raw : Option Json) :
    ((objectEntries raw).filterMap (assigned f)).flatMap (g ·.2)
      = (ownEntries raw).flatMap fun e => ((f e.2).map g).getD [] := by
  rw [flatMap_filterMap, ownEntries]
  induction objectEntries raw with
  | nil => rfl
  | cons e l ih =>
    rw [List.flatMap_cons, ih, assigned]
    by_cases hk : e.1 = protoName
    · rw [List.filter_cons_of_neg (by simp [hk]), if_pos hk]
      rfl
    · rw [List.filter_cons_of_pos (by simp [hk]), if_neg hk, Option.map_map]
      rfl

end Assignments

/-- The spec of a tier. -/
def tierSpec? : Json → Option Spec
  | .arr items => if h : specStrings items = [] then none else some (.list (specStrings items) h)
  | .str (c :: s) => some (.single (c :: s))
  | _ => none

def subagentSpec? : Json → Option Spec
  | .str (c :: s) => some (.single (c :: s))
  | _ => none

variable {raw : Option Json} {disabled : List Text}

theorem mapSpecs_parseTiers (hkeys : ((objectEntries raw).map Prod.fst).Nodup) :
    mapSpecs (parseTiers raw) = (ownEntries raw).flatMap (statedSpecs ·.2) := by
  have hloop : parseTiers raw
      = (objectEntries raw).foldl (fun m e => ((tierSpec? e.2).map (assign m e.1)).getD m)
          .empty := by
    unfold parseTiers
    congr 1
    funext m ⟨k, v⟩
    cases v with
    | arr items => by_cases h : specStrings items = [] <;> simp [tierSpec?, h]
    | str s => cases s <;> rfl
    | _ => rfl
  rw [mapSpecs, hloop, entries_foldl_assign tierSpec? _ hkeys fun _ _ => rfl]
  show (List.filterMap (assigned tierSpec?) _).flatMap _ = _
  rw [flatMap_filterMap_assigned tierSpec? Spec.specs]
  congr 1
  funext e
  cases e.2 with
  | arr items => by_cases h : specStrings items = [] <;> simp [tierSpec?, statedSpecs, Spec.specs, h]
  | str s => cases s <;> rfl
  | _ => rfl

theorem mapSpecs_parseSubagents (hkeys : ((objectEntries raw).map Prod.fst).Nodup) :
    mapSpecs (parseSubagents raw) = (ownEntries raw).flatMap (statedString ·.2) := by
  have hloop : parseSubagents raw
      = (objectEntries raw).foldl (fun m e => ((subagentSpec? e.2).map (assign m e.1)).getD m)
          .empty := by
    unfold parseSubagents
    congr 1
    funext m ⟨k, v⟩
    cases v with
    | str s => cases s <;> rfl
    | _ => rfl
  rw [mapSpecs, hloop, entries_foldl_assign subagentSpec? _ hkeys fun _ _ => rfl]
  show (List.filterMap (assigned subagentSpec?) _).flatMap _ = _
  rw [flatMap_filterMap_assigned subagentSpec? Spec.specs]
  congr 1
  funext e
  cases e.2 with
  | str s => cases s <;> rfl
  | _ => rfl

/-! ## Ladders -/

theorem eq_of_nonEmptyString {message : Text} {s : Text} (h : nonEmptyString message raw = .ok s) :
    raw = some (.str s) := by
  unfold nonEmptyString at h
  split at h
  · rw [← Except.ok.inj h]
  · cases h

variable {root k : Text} {v : Json} {entry : PoolEntry}

theorem relaySpec?_of_parseRung {i : Nat} {seen : List Text} {entry : Json}
    {parsed : LadderRung × List Text} (h : parseRung root i seen entry = .ok parsed) :
    relaySpec? parsed.1 = statedRelay entry := by
  unfold parseRung at h
  dsimp only at h
  split at h
  case h_3 => cases h
  all_goals
    obtain ⟨id, -, h⟩ := bind_eq_ok.mp h
    split at h
    · cases h
    · split at h
      · rename_i hkind
        obtain ⟨kind, heq, h⟩ := bind_eq_ok.mp h
        cases heq
        obtain ⟨_, -, h⟩ := bind_eq_ok.mp h
        obtain ⟨_, -, h⟩ := bind_eq_ok.mp h
        obtain ⟨_, -, h⟩ := bind_eq_ok.mp h
        rw [statedRelay, hkind]
        split at h
        · cases h
        · obtain ⟨_, -, h⟩ := bind_eq_ok.mp h
          obtain ⟨_, -, h⟩ := bind_eq_ok.mp h
          cases h
          rfl
      · split at h
        · rename_i hkind
          obtain ⟨kind, heq, h⟩ := bind_eq_ok.mp h
          cases heq
          obtain ⟨_, -, h⟩ := bind_eq_ok.mp h
          obtain ⟨spec, hspec, h⟩ := bind_eq_ok.mp h
          cases h
          rw [statedRelay, if_pos hkind, eq_of_nonEmptyString hspec]
          rfl
        · cases h

theorem relaySpecs_of_parseRungs {items : List Json} :
    ∀ {i : Nat} {seen : List Text} {parsed : List LadderRung × List Text},
      parseRungs root i seen items = .ok parsed →
        relaySpecs parsed.1 = items.filterMap statedRelay := by
  induction items with
  | nil =>
    intro i seen parsed h
    cases h
    rfl
  | cons entry rest ih =>
    intro i seen parsed h
    obtain ⟨⟨rung, _⟩, hrung, h⟩ := bind_eq_ok.mp h
    obtain ⟨⟨rungs, _⟩, hrungs, h⟩ := bind_eq_ok.mp h
    cases h
    have hspec := relaySpec?_of_parseRung hrung
    have hrest := ih hrungs
    rw [relaySpecs, List.filterMap_cons, hspec, List.filterMap_cons, ← hrest]
    rfl

theorem relaySpecs_of_parseLadder {parsed : List LadderRung × List Text}
    (h : parseLadder root raw = .ok parsed) : relaySpecs parsed.1 = statedRelays raw := by
  unfold parseLadder at h
  split at h
  · cases h
    rfl
  · cases h
    rfl
  · exact relaySpecs_of_parseRungs h
  · cases h

theorem ladderSpecs_of_foldlM {fields : List (Text × Json)} :
    ∀ {acc out : OrderedMap Text (List LadderRung) × List Text},
      (fields.map Prod.fst).Nodup → (∀ e ∈ fields, acc.1.get? e.1 = none) →
      fields.foldlM (fun (ladders, warnings) (tier, rawLadder) => do
        let (parsed, more) ← parseLadder (text "config.routing.ladders." ++ tier) (some rawLadder)
        if parsed = [] then
          throw (text "config.routing.ladders." ++ tier ++ text " must contain at least one rung")
        return (assign ladders tier parsed, warnings ++ more)) acc = .ok out →
      ladderSpecs out.1 = ladderSpecs acc.1
        ++ (ownEntries (some (.obj fields))).flatMap (statedRelays <| some ·.2) := by
  induction fields with
  | nil =>
    intro acc out _ _ h
    cases h
    rw [ownEntries, objectEntries, List.filter_nil, List.flatMap_nil, List.append_nil]
  | cons e fields ih =>
    intro acc out hnodup hfresh h
    obtain ⟨tier, v⟩ := e
    obtain ⟨ladders, warnings⟩ := acc
    rw [List.map_cons, List.nodup_cons] at hnodup
    obtain ⟨acc', hstep, h⟩ := bind_eq_ok.mp h
    obtain ⟨⟨parsed, more⟩, hparsed, hstep⟩ := bind_eq_ok.mp hstep
    dsimp only at hstep
    split at hstep
    · cases hstep
    · cases hstep
      have hspecs := relaySpecs_of_parseLadder hparsed
      have hthis := hfresh (tier, v) List.mem_cons_self
      rw [ih hnodup.2 _ h]
      · dsimp only
        rw [ladderSpecs, entries_assign hthis, List.flatMap_append, ownEntries, objectEntries,
          List.append_assoc, ownEntries, objectEntries]
        congr 1
        by_cases hk : tier = protoName
        · rw [if_pos hk, List.filter_cons_of_neg (by simp [hk]), List.flatMap_nil, List.nil_append]
        · rw [if_neg hk, List.filter_cons_of_pos (by simp [hk]), List.flatMap_cons,
            List.flatMap_cons, List.flatMap_nil, List.append_nil, hspecs]
      · intro e' he'
        have hne : tier ≠ e'.1 := by
          intro heq
          apply hnodup.1
          show tier ∈ _
          rw [heq]
          exact List.mem_map_of_mem he'
        rw [get?_assign_of_ne ladders parsed hne]
        exact hfresh e' (List.mem_cons_of_mem _ he')

theorem ladderSpecs_of_parseLadders (hkeys : ((objectEntries raw).map Prod.fst).Nodup)
    {parsed : OrderedMap Text (List LadderRung) × List Text} (h : parseLadders raw = .ok parsed) :
    ladderSpecs parsed.1 = (ownEntries raw).flatMap (statedRelays <| some ·.2) := by
  unfold parseLadders at h
  split at h
  · cases h
    rfl
  · rw [ladderSpecs_of_foldlM hkeys (fun _ _ => rfl) h]
    rfl
  · cases h

/-! ## Pools -/

theorem eq_specStrings_of_stringsWhere {test : Text → Bool} (htest : test [] = false)
    {items : List Json} {ss : List Text} (h : stringsWhere test items = some ss) :
    ss = specStrings items := by
  induction items generalizing ss with
  | nil =>
    cases h
    rfl
  | cons item items ih =>
    unfold stringsWhere at h
    rw [List.mapM_cons] at h
    obtain ⟨s, hs, h⟩ := Option.bind_eq_some_iff.mp h
    obtain ⟨rest, hrest, h⟩ := Option.bind_eq_some_iff.mp h
    cases h
    split at hs
    · split at hs
      · rename_i hpass
        cases hs
        have hne : s ≠ [] := by
          rintro rfl
          rw [htest] at hpass
          cases hpass
        rw [ih hrest]
        simp [specStrings, hne]
      · cases hs
    · cases hs

theorem eq_policyStrings_of_parseExclude {policy : Json} {exclude : List Text}
    (h : parseExclude k (policy.get? (text "exclude")) = .ok exclude) :
    exclude = policyStrings policy (text "exclude") := by
  unfold parseExclude at h
  unfold policyStrings
  split at h
  · rename_i hnone
    rw [hnone]
    exact (Except.ok.inj h).symm
  · rename_i v hsome
    rw [hsome]
    split at h
    · rename_i hexclude
      cases h
      obtain ⟨items, hitems, hstrings⟩ := Option.bind_eq_some_iff.mp hexclude
      rw [hitems]
      exact eq_specStrings_of_stringsWhere (by decide) hstrings
    · cases h

theorem declared_eq_statedMembers {declared : List Text} {policy : Option PoolPolicy}
    (h : declaredPool k v = .ok (declared, policy)) : declared = statedMembers v := by
  unfold declaredPool at h
  split at h
  · cases h
    rfl
  · rename_i fields
    cases hparsed : parsePoolPolicy k (.obj fields) with
    | error e =>
      rw [hparsed] at h
      cases h
    | ok parsed =>
      rw [hparsed] at h
      cases h
      unfold parsePoolPolicy at hparsed
      dsimp only at hparsed
      split at hparsed
      · rename_i preferred hpreferred
        obtain ⟨items, hitems, hstrings⟩ := Option.bind_eq_some_iff.mp hpreferred
        obtain ⟨_, heq, hparsed⟩ := bind_eq_ok.mp hparsed
        cases heq
        split at hparsed
        · cases hparsed
        · obtain ⟨exclude, hexclude, hparsed⟩ := bind_eq_ok.mp hparsed
          obtain ⟨effort, -, hparsed⟩ := bind_eq_ok.mp hparsed
          cases hparsed
          have hstated : preferred = policyStrings (.obj fields) (text "preferred") := by
            rw [policyStrings, hitems]
            exact eq_specStrings_of_stringsWhere (by decide) hstrings
          rw [statedMembers, ← eq_policyStrings_of_parseExclude hexclude, ← hstated]
      · cases hparsed
  · cases h

theorem declaredPool_of_ok (h : parsePoolEntry k v disabled = .ok entry) :
    ∃ parsed, declaredPool k v = .ok parsed := by
  cases hparsed : declaredPool k v with
  | ok parsed => exact ⟨parsed, rfl⟩
  | error e =>
    unfold parsePoolEntry at h
    rw [hparsed] at h
    cases h

/-- A parsed pool has the members that its entry states and that are kept. -/
structure PoolEntry.Stated (disabled : List Text) (v : Json) (entry : PoolEntry) : Prop where
  members : entry.members = (statedMembers v).filter (keepsMember disabled)
  preferred : ∀ policy, entry.poolPolicy = some policy → policy.preferred = entry.members
  flat : ∀ s ∈ entry.members, s.startsWith (POOL_PREFIX ++ [slash]) = false

theorem stated_of_parsePoolEntry (h : parsePoolEntry k v disabled = .ok entry) :
    entry.Stated disabled v := by
  obtain ⟨⟨declared, policy⟩, hdeclared⟩ := declaredPool_of_ok h
  rw [parsePoolEntry_of_declared disabled hdeclared] at h
  split at h
  · cases h
  · split at h
    · cases h
    · rename_i hnested
      cases h
      refine ⟨congrArg (List.filter _) (declared_eq_statedMembers hdeclared), ?_, ?_⟩
      · intro policy hpolicy
        obtain ⟨_, -, rfl⟩ := Option.map_eq_some_iff.mp hpolicy
        rfl
      · intro s hs
        exact Bool.eq_false_iff.mpr (List.find?_eq_none.mp hnested s hs)

/-- The members of the pools that have been read. -/
def Pools.members (pools : Pools) : List Text :=
  pools.pools.entries.flatMap (·.2)

/-- What the loop of `parsePools` has made of the entries that it has read. -/
structure Pools.Stated (disabled : List Text) (entries : List (Text × Json)) (pools : Pools) :
    Prop where
  keys : pools.pools.keys = (entries.map Prod.fst).filter fun k => decide (k ≠ protoName)
  policyKeys : ∀ k ∈ pools.poolPolicies.keys, k ∈ entries.map Prod.fst
  members : pools.members
    = ((entries.filter fun e => decide (e.1 ≠ protoName)).flatMap (statedMembers ·.2)).filter
        (keepsMember disabled)
  preferred : ∀ policy ∈ pools.poolPolicies.entries, ∀ s ∈ policy.2.preferred, s ∈ pools.members
  flat : ∀ s ∈ pools.members, s.startsWith (POOL_PREFIX ++ [slash]) = false
  prototype : pools.prototype.isSome = true → protoName ∈ entries.map Prod.fst

theorem Pools.Stated.add {entries : List (Text × Json)} {pools : Pools}
    (h : pools.Stated disabled entries) (hentry : parsePoolEntry k v disabled = .ok entry)
    (hfresh : k ∉ entries.map Prod.fst) :
    (pools.add k entry).Stated disabled (entries ++ [(k, v)]) := by
  have hstated := stated_of_parsePoolEntry hentry
  have hpool : pools.pools.get? k = none := by
    rw [OrderedMap.get?, lookupEntry_eq_none_iff]
    intro hin
    have hkeys : k ∈ pools.pools.keys := hin
    rw [h.keys] at hkeys
    exact hfresh (List.mem_of_mem_filter hkeys)
  have hpolicy : pools.poolPolicies.get? k = none := by
    rw [OrderedMap.get?, lookupEntry_eq_none_iff]
    exact fun hin => hfresh (h.policyKeys k hin)
  have hmembers : (pools.add k entry).members
      = pools.members ++ if k = protoName then [] else entry.members := by
    unfold Pools.members Pools.add
    rw [entries_assign hpool]
    split <;> simp
  constructor
  case keys =>
    unfold Pools.add OrderedMap.keys
    rw [entries_assign hpool, List.map_append, List.map_append, List.filter_append, ← h.keys]
    split
    · rename_i hk
      simp [hk, OrderedMap.keys]
    · rename_i hk
      simp [hk, OrderedMap.keys]
  case policyKeys =>
    intro k' hk'
    rw [List.map_append, List.mem_append]
    unfold Pools.add at hk'
    dsimp only at hk'
    split at hk'
    · unfold OrderedMap.keys at hk'
      rw [entries_assign hpolicy, List.map_append, List.mem_append] at hk'
      rcases hk' with hold | hnew
      · exact .inl (h.policyKeys k' hold)
      · split at hnew
        · cases hnew
        · exact .inr hnew
    · exact .inl (h.policyKeys k' hk')
  case members =>
    rw [hmembers, h.members, List.filter_append, List.flatMap_append]
    split
    · rename_i hk
      simp [hk]
    · rename_i hk
      simp [hk, hstated.members]
  case preferred =>
    intro policy hin s hs
    rw [hmembers, List.mem_append]
    unfold Pools.add at hin
    dsimp only at hin
    split at hin
    · rename_i policy' hpolicy'
      rw [entries_assign hpolicy, List.mem_append] at hin
      rcases hin with hold | hnew
      · exact .inl (h.preferred policy hold s hs)
      · split at hnew
        · cases hnew
        · rename_i hk
          obtain rfl := List.mem_singleton.mp hnew
          rw [hstated.preferred policy' hpolicy'] at hs
          rw [if_neg hk]
          exact .inr hs
    · exact .inl (h.preferred policy hin s hs)
  case flat =>
    intro s hs
    rw [hmembers, List.mem_append] at hs
    rcases hs with hold | hnew
    · exact h.flat s hold
    · split at hnew
      · cases hnew
      · exact hstated.flat s hnew
  case prototype =>
    intro hsome
    rw [List.map_append, List.mem_append]
    unfold Pools.add at hsome
    split at hsome
    · rename_i hk
      exact .inr (by simp [hk])
    · exact .inl (h.prototype hsome)

theorem stated_of_parsePoolsFrom {rest : List (Text × Json)} :
    ∀ {entries : List (Text × Json)} {pools out : Pools}, pools.Stated disabled entries →
      ((entries ++ rest).map Prod.fst).Nodup → parsePoolsFrom disabled rest pools = .ok out →
      out.Stated disabled (entries ++ rest) := by
  induction rest with
  | nil =>
    intro entries pools out h _ hrun
    cases hrun
    rw [List.append_nil]
    exact h
  | cons e rest ih =>
    intro entries pools out h hnodup hrun
    obtain ⟨k, v⟩ := e
    rw [parsePoolsFrom_cons] at hrun
    obtain ⟨entry, hentry, hrun⟩ := bind_eq_ok.mp hrun
    have hsplit : entries ++ (k, v) :: rest = entries ++ [(k, v)] ++ rest := by simp
    have hfresh : k ∉ entries.map Prod.fst := by
      rw [List.map_append, List.map_cons, List.nodup_middle, List.nodup_cons, List.mem_append,
        not_or] at hnodup
      exact hnodup.1.1
    rw [hsplit] at hnodup ⊢
    exact ih (h.add hentry hfresh) hnodup hrun

theorem stated_of_parsePools {pools : Pools} (hkeys : ((objectEntries raw).map Prod.fst).Nodup)
    (h : parsePools raw disabled = .ok pools) : pools.Stated disabled (objectEntries raw) := by
  have hempty : Pools.empty.Stated disabled [] :=
    { keys := rfl
      policyKeys := fun k hk => absurd hk List.not_mem_nil
      members := rfl
      preferred := fun policy hin => absurd hin List.not_mem_nil
      flat := fun s hs => absurd hs List.not_mem_nil
      prototype := fun hsome => nomatch hsome }
  exact stated_of_parsePoolsFrom hempty hkeys h

/-! ## The parsed block -/

theorem getD_unlessEmpty {α : Type} (map : OrderedMap Text α) :
    (unlessEmpty map).getD .empty = map := by
  unfold unlessEmpty
  split
  · rename_i hkeys
    ext1
    exact (List.map_eq_nil_iff.mp hkeys).symm
  · rfl

theorem getD_unlessNil {α : Type} (l : List α) [Decidable (l = [])] :
    (if l = [] then none else some l).getD [] = l := by
  split
  · rename_i hnil
    exact hnil.symm
  · rfl

theorem specs_degradeDefault {raw : Json} {overrideDefault : Option Text} {dflt : Spec}
    (h : parseDefault (raw.get? (text "default")) overrideDefault = .ok dflt) :
    (degradeDefault dflt disabled).1.specs = keptDefault raw overrideDefault disabled := by
  unfold parseDefault at h
  unfold keptDefault
  split at h
  · rename_i items hitems
    rw [hitems]
    split at h
    · cases h
    · cases h
      exact specs_degradeDefault_list _
  · rename_i c s hstring
    rw [hstring]
    cases h
    rfl
  · cases h

section Block

variable {β : Type} (routing : Routing β) (disabled : List Text)

theorem specs_degradeDisabledRouting :
    (degradeDisabledRouting routing disabled).1.specs
      = (degradeDefault routing.default_ disabled).1.specs
        ++ (mapSpecs routing.tiers ++ mapSpecs (routing.subagents.getD .empty)
          ++ relaySpecs (routing.ladder.getD [])
          ++ ladderSpecs (routing.ladders.getD .empty)).filter (keepsSpec disabled) := by
  have hsubagents : (routing.subagents.map fun _ =>
      (pruneDisabledSpecEntries (routing.subagents.getD .empty) disabled
        (text "routing.subagents")).1).getD .empty
      = (pruneDisabledSpecEntries (routing.subagents.getD .empty) disabled
        (text "routing.subagents")).1 := by
    cases routing.subagents <;> rfl
  unfold degradeDisabledRouting Routing.specs
  rw [hsubagents, getD_unlessNil]
  show _ ++ (_ ++ ladderSpecs ((unlessEmpty _).getD .empty)) = _
  rw [getD_unlessEmpty, mapSpecs_prune, mapSpecs_prune, relaySpecs_dropDisabledRungs,
    ladderSpecs_prune, List.filter_append, List.filter_append, List.filter_append]

end Block

section Parsed

variable {β : Type} {parseOptionalBlocks : Json → Parsed (β × List Text)} {raw : Json}
  {providers : Providers} {overrideDefault : Option Text} {disabled : List Text}
  {routing : Routing β} {warnings : List Text}

/-- **The specs of a parsed block** are those that the document states and that are kept. -/
theorem stated_of_parseRouting (hkeys : ∀ key, ((objectEntries (raw.get? key)).map Prod.fst).Nodup)
    (h : parseRouting parseOptionalBlocks raw providers overrideDefault disabled
      = .ok (routing, warnings)) :
    routing.specs = keptSpecs raw overrideDefault disabled
      ∧ ∃ pools : Pools, pools.Stated disabled (objectEntries (raw.get? (text "pools")))
        ∧ routing.pools.getD .empty = pools.pools
        ∧ routing.poolPolicies.getD .empty = pools.poolPolicies
        ∧ routing.poolsPrototype = pools.prototype := by
  obtain ⟨⟨block, blockWarnings⟩, hparsed, rfl, -, -⟩ := parseRouting_eq_ok.mp h
  obtain ⟨-, hparsed⟩ := bind_unit_eq_ok.mp hparsed
  simp only [bind_eq_ok] at hparsed
  obtain ⟨dflt, hdflt, pools, hpools, offload, -, blocks, -, ladder, hladder, ladders, hladders,
    cliLane, -, hout⟩ := hparsed
  cases hout
  refine ⟨?_, pools, stated_of_parsePools (hkeys _) hpools, getD_unlessEmpty _,
    getD_unlessEmpty _, rfl⟩
  rw [specs_degradeDisabledRouting]
  rw [getD_unlessEmpty, getD_unlessNil, getD_unlessEmpty, specs_degradeDefault hdflt,
    mapSpecs_parseTiers (hkeys _), mapSpecs_parseSubagents (hkeys _),
    relaySpecs_of_parseLadder hladder, ladderSpecs_of_parseLadders (hkeys _) hladders]
  rfl

end Parsed

end LlmRelay.Config
