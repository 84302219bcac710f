import LlmRelay.Config.RoutingParser
import LlmRelay.Ecma.JsonAssignment
import LlmRelay.Ecma.JsonLayout

/-!
# Offload toggles

A toggle flips the offload rule of one client, or all rules, in the configuration that is live
and in the document it was read from (`offload.ts`). The document is edited as it is, with its
shorthands, and what is published is parsed again.

## Main definitions

* `ruleFor`: the effective rule of a client;
* `setInMemory`, `setInFile`: the toggle of a configuration and of a document;
* `setOffload`: the toggle with its persistence, under failing file operations;
* `Foreseen`: the toggles whose edit of the document has all the details of the client's rule.

## Main results

* `parseOffload_editOffload`: the edited document parses to the toggled configuration;
* `setOffload_unpersisted`: what is not persisted changes neither the file nor the live
  configuration.
-/

namespace LlmRelay.Config

open Ecma

/-! ## Rules -/

def DEFAULT_CLIENT : Text := text "default"

def OffloadScope.name : OffloadScope → String
  | .subagents => "subagents"
  | .all => "all"

/-- Off, where nothing is declared. -/
def offRule : OffloadRule where
  enabled := false
  scope := .subagents
  freeOnly := none

/-- `offloadRule`: the rule of a client, else the default one. -/
def ruleFor (configured : OffloadConfig) (client : Text) : OffloadRule :=
  match configured with
  | .switch enabled => { enabled := enabled, scope := .subagents, freeOnly := none }
  | .rules rules => ((rules.get? client).or (rules.get? DEFAULT_CLIENT)).getD offRule

/-- A toggle of one client, or of all. -/
structure OffloadToggle where
  enabled : Bool
  client : Option Text
  scope : Option OffloadScope

/-- The rule of the client a toggle is for. -/
def OffloadToggle.apply (toggle : OffloadToggle) (rule : OffloadRule) : OffloadRule :=
  { rule with enabled := toggle.enabled, scope := toggle.scope.getD rule.scope }

/-! ## The live configuration -/

/-- The rules a targeted toggle starts from. -/
def startingRules (configured : OffloadConfig) : OrderedMap Text OffloadRule :=
  match configured with
  | .rules rules => rules
  | .switch enabled =>
    OrderedMap.empty.set DEFAULT_CLIENT
      { enabled := enabled, scope := .subagents, freeOnly := none }

def setInMemory (configured : OffloadConfig) (toggle : OffloadToggle) : OffloadConfig :=
  match toggle.client with
  | none =>
    match configured with
    | .switch _ => .switch toggle.enabled
    | .rules rules => .rules (rules.mapValues fun rule => { rule with enabled := toggle.enabled })
  | some client =>
    let next := startingRules configured
    let existing := (next.get? client).getD (ruleFor configured client)
    .rules (next.set client (toggle.apply existing))

/-! ## The document -/

/-- A rule that all clients' toggle edits; what is neither a boolean nor an object stays. -/
def editAnyRule (enabled : Bool) : Json → Json
  | .bool _ =>
    .obj [(text "enabled", .bool enabled), (text "scope", Json.ofString OffloadScope.subagents.name)]
  | .obj fields => .obj (setProperty fields (text "enabled") (.bool enabled))
  | value => value

/-- The scope an existing rule of the document states. -/
def statedScope (existing : Option Json) : OffloadScope :=
  if (existing.bind fun rule => rule.get? (text "scope")) = some (Json.ofString OffloadScope.all.name)
  then .all else .subagents

/-- The properties of an existing rule of the document. -/
def ruleFields : Option Json → List (Text × Json)
  | some (.obj fields) => fields
  | _ => []

/-- The rule a targeted toggle leaves in the document. -/
def editRule (toggle : OffloadToggle) (existing : Option Json) : Json :=
  .obj (setProperty
    (setProperty (ruleFields existing) (text "enabled") (.bool toggle.enabled)) (text "scope")
    (Json.ofString (toggle.scope.getD (statedScope existing)).name))

/-- The properties a targeted toggle starts from. -/
def startingFields (configured : Option Json) : List (Text × Json) :=
  match configured with
  | some (.obj fields) => fields
  | _ =>
    let enabled := match configured with
      | some (.bool enabled) => enabled
      | _ => false
    [(DEFAULT_CLIENT, .obj
      [(text "enabled", .bool enabled), (text "scope", Json.ofString OffloadScope.subagents.name)])]

/-- The value a toggle leaves as `routing.offload`. -/
def editOffload (configured : Option Json) (toggle : OffloadToggle) : Json :=
  match toggle.client with
  | none =>
    match configured with
    | some (.obj fields) =>
      .obj (fields.map fun entry => (entry.1, editAnyRule toggle.enabled entry.2))
    | _ => .bool toggle.enabled
  | some client =>
    let next := startingFields configured
    .obj (setProperty next client (editRule toggle (lookupEntry client next)))

/-- Assignment of a named property, as the value is written afterwards: an array has no place
for one, and on what is no object the assignment throws. -/
def assignNamed (value : Json) (key : Text) (v : Json) : Option Json :=
  match value with
  | .obj fields => some (.obj (setProperty fields key v))
  | .arr items => some (.arr items)
  | _ => none

/-- The document with the toggle, and the value of its `routing.offload`. -/
def setInFile (raw : Json) (toggle : OffloadToggle) : Option (Json × Json) := do
  let routing := match raw.get? (text "routing") with
    | some (.obj fields) => Json.obj fields
    | some (.arr items) => .arr items
    | _ => .obj []
  let offload := editOffload (routing.get? (text "offload")) toggle
  let routing ← assignNamed routing (text "offload") offload
  let document ← assignNamed raw (text "routing") routing
  some (document, offload)

/-! ## Persistence -/

/-- The file operations of a toggle that can fail. -/
inductive OffloadOperation where
  | realpath | read | stat | makeDirectory | write | changeMode | openTemporary | syncTemporary
  | closeTemporary | rename | openDirectory | closeDirectory
  deriving DecidableEq

/-- What a toggle runs in: the operations that fail, whether the configuration was read from a
file, and whether this is Windows. -/
structure OffloadEnvironment where
  fails : OffloadOperation → Bool
  hasSource : Bool
  win32 : Bool

/-- The content of the file and the live rules. -/
structure OffloadWorld where
  file : Text
  live : OffloadConfig

/-- The operations before the new content is written. -/
def readOperations : List OffloadOperation :=
  [.realpath, .read, .stat]

/-- The operations that write the new content beside the file and put it in its place. -/
def publishOperations (win32 : Bool) : List OffloadOperation :=
  [.makeDirectory, .write] ++ (if win32 then [] else [.changeMode])
    ++ [.openTemporary, .syncTemporary, .closeTemporary, .rename]

/-- The document to publish, and the rules it parses to. -/
def preparedOffload (content : Text) (toggle : OffloadToggle) : Option (Json × OffloadConfig) := do
  let raw ← Json.parse content
  let (document, offload) ← setInFile raw toggle
  let persisted ← (parseOffload (some offload)).toOption
  some (document, persisted)

/-- A toggle, and whether it is persisted. -/
def setOffload (environment : OffloadEnvironment) (world : OffloadWorld)
    (toggle : OffloadToggle) : Bool × OffloadWorld :=
  if !environment.hasSource then
    (false, { world with live := setInMemory world.live toggle })
  else if readOperations.any environment.fails then (false, world)
  else
    match preparedOffload world.file toggle with
    | none => (false, world)
    | some (document, persisted) =>
      if (publishOperations environment.win32).any environment.fails then (false, world)
      else
        let file := document.stringifyIndented 2 ++ [0x0A]
        -- the directory is synchronised at best effort, but its descriptor is closed outside it
        if !environment.win32 && !environment.fails .openDirectory
            && environment.fails .closeDirectory then
          (false, { world with file })
        else (true, { file, live := persisted })

/-! ## Reading rules -/

def readEnabled : Option Json → Option Bool
  | some (.bool enabled) => some enabled
  | _ => none

/-- The scope that a value of a rule states. -/
def readScope : Option Json → Option OffloadScope
  | none => some .subagents
  | some (.str t) =>
    if t = text "subagents" then some .subagents else if t = text "all" then some .all else none
  | some _ => none

/-- What a value states about free deployments. -/
def readFreeOnly : Option Json → Option (Option Bool)
  | none => some none
  | some (.bool freeOnly) => some (some freeOnly)
  | some _ => none

theorem toOption_parseOffloadRule {client : Text} (hclient : client ≠ [])
    (fields : List (Text × Json)) :
    (parseOffloadRule client (.obj fields)).toOption
      = (readEnabled (lookupEntry (text "enabled") fields)).bind fun enabled =>
          (readScope (lookupEntry (text "scope") fields)).bind fun scope =>
            (readFreeOnly (lookupEntry (text "freeOnly") fields)).map fun freeOnly =>
              { enabled, scope, freeOnly } := by
  unfold parseOffloadRule
  simp only [Json.get?, if_neg hclient]
  rcases lookupEntry (text "enabled") fields with _ | enabled
  · rfl
  cases enabled with
  | bool enabled =>
    -- the value of `freeOnly` matters once a scope is read
    rcases lookupEntry (text "scope") fields with _ | scope
    · rcases lookupEntry (text "freeOnly") fields with _ | freeOnly
      · rfl
      · cases freeOnly <;> rfl
    cases scope with
    | str t =>
      simp only [readScope]
      split
      · rcases lookupEntry (text "freeOnly") fields with _ | freeOnly
        · rfl
        · cases freeOnly <;> rfl
      · split
        · rcases lookupEntry (text "freeOnly") fields with _ | freeOnly
          · rfl
          · cases freeOnly <;> rfl
        · rfl
    | _ => rfl
  | _ => rfl

theorem toOption_eq_some {ε α : Type} {x : Except ε α} {a : α} :
    x.toOption = some a ↔ x = .ok a := by
  cases x with
  | error e => exact ⟨fun h => (by cases h), fun h => (by cases h)⟩
  | ok b => exact ⟨fun h => congrArg Except.ok (Option.some.inj h), fun h => by rw [h]; rfl⟩

theorem readScope_name (scope : OffloadScope) :
    readScope (some (Json.ofString scope.name)) = some scope := by
  cases scope <;> decide

theorem statedScope_of_readScope {fields : List (Text × Json)} {scope : OffloadScope}
    (h : readScope (lookupEntry (text "scope") fields) = some scope) :
    statedScope (some (.obj fields)) = scope := by
  unfold statedScope
  rw [Option.bind_some, Json.get?]
  cases hvalue : lookupEntry (text "scope") fields with
  | none =>
    rw [hvalue] at h
    cases h
    rfl
  | some value =>
    rw [hvalue] at h
    cases value with
    | str t =>
      simp only [readScope] at h
      split at h
      · rename_i hsubagents
        cases h
        rw [hsubagents]
        decide
      · split at h
        · rename_i hall
          cases h
          rw [hall]
          decide
        · cases h
    | null | bool | num | arr | obj => cases h

variable {toggle : OffloadToggle} {client : Text}

theorem ruleKeys_ne : text "scope" ≠ text "enabled" ∧ text "scope" ≠ text "freeOnly" ∧
    text "enabled" ≠ text "scope" ∧ text "enabled" ≠ text "freeOnly" := by
  decide

theorem parseOffloadRule_bool (hclient : client ≠ []) (enabled : Bool) :
    parseOffloadRule client (.bool enabled)
      = .ok { enabled := enabled, scope := .subagents, freeOnly := none } := by
  unfold parseOffloadRule
  rw [if_neg hclient]
  rfl

theorem toOption_editRule (hclient : client ≠ []) (existing : Option Json) :
    (parseOffloadRule client (editRule toggle existing)).toOption
      = (readFreeOnly (lookupEntry (text "freeOnly") (ruleFields existing))).map fun freeOnly =>
          { enabled := toggle.enabled
            scope := toggle.scope.getD (statedScope existing)
            freeOnly } := by
  rw [editRule, toOption_parseOffloadRule hclient]
  simp only [lookupEntry_setProperty, ruleKeys_ne, if_true, if_false, readScope_name, readEnabled,
    Option.bind_some]

/-- **An edited rule** parses to the toggled rule. -/
theorem parseOffloadRule_editRule {value : Json} {rule : OffloadRule}
    (h : parseOffloadRule client value = .ok rule) :
    parseOffloadRule client (editRule toggle (some value)) = .ok (toggle.apply rule) := by
  have hclient : client ≠ [] := by
    rintro rfl
    cases h
  rw [← toOption_eq_some, toOption_editRule hclient]
  cases value with
  | bool enabled =>
    rw [parseOffloadRule_bool hclient] at h
    cases h
    rfl
  | obj fields =>
    rw [← toOption_eq_some, toOption_parseOffloadRule hclient] at h
    obtain ⟨enabled, -, h⟩ := Option.bind_eq_some_iff.mp h
    obtain ⟨scope, hscope, h⟩ := Option.bind_eq_some_iff.mp h
    obtain ⟨freeOnly, hfree, rfl⟩ := Option.map_eq_some_iff.mp h
    rw [ruleFields, hfree, statedScope_of_readScope hscope]
    rfl
  | null | num | str | arr =>
    unfold parseOffloadRule at h
    rw [if_neg hclient] at h
    cases h

theorem parseOffloadRule_editRule_none (hclient : client ≠ []) :
    parseOffloadRule client (editRule toggle none) = .ok (toggle.apply offRule) := by
  rw [← toOption_eq_some, toOption_editRule hclient]
  rfl

theorem parseOffloadRule_editAnyRule {value : Json} {rule : OffloadRule} (enabled : Bool)
    (h : parseOffloadRule client value = .ok rule) :
    parseOffloadRule client (editAnyRule enabled value) = .ok { rule with enabled } := by
  have hclient : client ≠ [] := by
    rintro rfl
    cases h
  cases value with
  | bool was =>
    rw [parseOffloadRule_bool hclient] at h
    cases h
    rw [← toOption_eq_some, editAnyRule, toOption_parseOffloadRule hclient]
    rfl
  | obj fields =>
    rw [← toOption_eq_some, toOption_parseOffloadRule hclient] at h
    obtain ⟨was, -, h⟩ := Option.bind_eq_some_iff.mp h
    obtain ⟨scope, hscope, h⟩ := Option.bind_eq_some_iff.mp h
    obtain ⟨freeOnly, hfree, rfl⟩ := Option.map_eq_some_iff.mp h
    rw [← toOption_eq_some, editAnyRule, toOption_parseOffloadRule hclient]
    simp only [lookupEntry_setProperty, ruleKeys_ne, if_true, if_false, hscope, hfree,
      readEnabled, Option.bind_some, Option.map_some]
  | null | num | str | arr =>
    unfold parseOffloadRule at h
    rw [if_neg hclient] at h
    cases h

/-! ## Reading documents -/

/-- The loop of `parseOffload`, from the rules so far on. -/
def declareRules (fields : List (Text × Json)) (rules : OrderedMap Text OffloadRule) :
    Parsed (OrderedMap Text OffloadRule) :=
  fields.foldlM (fun rules (client, value) => do
    return rules.set client (← parseOffloadRule client value)) rules

theorem declareRules_cons (client : Text) (value : Json) (rest : List (Text × Json))
    (rules : OrderedMap Text OffloadRule) :
    declareRules ((client, value) :: rest) rules
      = parseOffloadRule client value >>= fun rule => declareRules rest (rules.set client rule) := by
  unfold declareRules
  rw [List.foldlM_cons]
  dsimp only
  cases parseOffloadRule client value <;> rfl

/-- The rules of a document: each property that is declared is a rule, and there are no others. -/
structure Reads (fields : List (Text × Json)) (rules : OrderedMap Text OffloadRule) : Prop where
  declared : ∀ client value, lookupEntry client fields = some value →
    ∃ rule, parseOffloadRule client value = .ok rule ∧ rules.get? client = some rule
  other : ∀ client, lookupEntry client fields = none → rules.get? client = none

section Declared

variable {fields : List (Text × Json)} {rules out : OrderedMap Text OffloadRule}

theorem get?_declareRules (hnodup : (fields.map Prod.fst).Nodup)
    (h : declareRules fields rules = .ok out) (client : Text) :
    (∀ value, lookupEntry client fields = some value →
      ∃ rule, parseOffloadRule client value = .ok rule ∧ out.get? client = some rule) ∧
    (lookupEntry client fields = none → out.get? client = rules.get? client) := by
  induction fields generalizing rules with
  | nil =>
    cases h
    exact ⟨fun _ hvalue => (by cases hvalue), fun _ => rfl⟩
  | cons entry rest ih =>
    obtain ⟨key, value⟩ := entry
    rw [declareRules_cons] at h
    obtain ⟨rule, hrule, hrest⟩ := bind_eq_ok.mp h
    obtain ⟨hkey, hnodup'⟩ := List.nodup_cons.mp hnodup
    obtain ⟨hdeclared, hother⟩ := ih hnodup' hrest
    rw [lookupEntry]
    by_cases heq : key = client
    · subst heq
      rw [if_pos rfl]
      -- the key is not declared again
      have hnone : lookupEntry key rest = none := lookupEntry_eq_none_iff.mpr hkey
      have hout := hother hnone
      rw [OrderedMap.get?_set_self] at hout
      refine ⟨fun value' hvalue => ?_, fun hnone' => (by cases hnone')⟩
      cases hvalue
      exact ⟨rule, hrule, hout⟩
    · rw [if_neg heq]
      refine ⟨hdeclared, fun hnone => (hother hnone).trans ?_⟩
      exact OrderedMap.get?_set_of_ne _ _ heq

theorem exists_declareRules
    (h : ∀ entry ∈ fields, ∃ rule, parseOffloadRule entry.1 entry.2 = .ok rule) :
    ∃ out, declareRules fields rules = .ok out := by
  induction fields generalizing rules with
  | nil => exact ⟨rules, rfl⟩
  | cons entry rest ih =>
    obtain ⟨key, value⟩ := entry
    obtain ⟨rule, hrule⟩ := h (key, value) List.mem_cons_self
    rw [declareRules_cons, hrule]
    exact ih fun other hother => h other (List.mem_cons_of_mem _ hother)

theorem parseOffload_obj (fields : List (Text × Json)) :
    parseOffload (some (.obj fields)) = (declareRules fields .empty).map .rules := by
  change (declareRules fields .empty >>= fun rules => pure (OffloadConfig.rules rules)) = _
  cases declareRules fields .empty <;> rfl

theorem reads_of_parseOffload (hnodup : (fields.map Prod.fst).Nodup) {configured : OffloadConfig}
    (h : parseOffload (some (.obj fields)) = .ok configured) :
    ∃ rules, configured = .rules rules ∧ Reads fields rules := by
  rw [parseOffload_obj] at h
  cases hrun : declareRules fields .empty with
  | error e =>
    rw [hrun] at h
    cases h
  | ok out =>
    rw [hrun] at h
    cases h
    exact ⟨out, rfl, fun client value => (get?_declareRules hnodup hrun client).1 value,
      fun client => (get?_declareRules hnodup hrun client).2⟩

theorem parseOffload_of_rules (hnodup : (fields.map Prod.fst).Nodup)
    (h : ∀ client value, lookupEntry client fields = some value →
      ∃ rule, parseOffloadRule client value = .ok rule) :
    ∃ rules, parseOffload (some (.obj fields)) = .ok (.rules rules) ∧ Reads fields rules := by
  obtain ⟨out, hout⟩ : ∃ out, declareRules fields .empty = .ok out := exists_declareRules
    fun entry hentry => h entry.1 entry.2 ((lookupEntry_eq_some_iff hnodup).mpr hentry)
  have hparse : parseOffload (some (.obj fields)) = .ok (.rules out) := by
    rw [parseOffload_obj, hout]
    rfl
  obtain ⟨rules, heq, hreads⟩ := reads_of_parseOffload hnodup hparse
  cases heq
  exact ⟨out, hparse, hreads⟩

end Declared

/-! ## Agreement -/

/-- The same rules, in whatever order. -/
def OffloadConfig.Agrees : OffloadConfig → OffloadConfig → Prop
  | .switch a, .switch b => a = b
  | .rules a, .rules b => ∀ client, a.get? client = b.get? client
  | _, _ => False

theorem ruleFor_of_agrees {a b : OffloadConfig} (h : a.Agrees b) (client : Text) :
    ruleFor a client = ruleFor b client := by
  cases a with
  | switch enabled =>
    cases b with
    | switch enabled' => rw [show enabled = enabled' from h]
    | rules => exact h.elim
  | rules rules =>
    cases b with
    | switch => exact h.elim
    | rules rules' =>
      have hget : ∀ name, rules.get? name = rules'.get? name := h
      rw [ruleFor, ruleFor, hget client, hget DEFAULT_CLIENT]

/-- Is there a rule for the client itself? -/
def OffloadConfig.declares (configured : OffloadConfig) (client : Text) : Bool :=
  match configured with
  | .switch _ => false
  | .rules byClient => (byClient.get? client).isSome

/-- The toggles whose edit of the document has all the details of the client's rule: the client
is named, by a name that objects do not inherit, and it does not take over details of the default
rule that only a rule of its own would state. -/
structure Foreseen (configured : OffloadConfig) (toggle : OffloadToggle) (client : Text) :
    Prop where
  named : client ≠ []
  notInherited : client ∉ inheritedNames
  plain : configured.declares client = false →
    (ruleFor configured DEFAULT_CLIENT).freeOnly = none ∧
      (toggle.scope = none → (ruleFor configured DEFAULT_CLIENT).scope = .subagents)

section Toggled

variable {configured : OffloadConfig}

/-- **The live rule of the client** is toggled: its other details are kept. -/
theorem ruleFor_setInMemory (hclient : toggle.client = some client) :
    ruleFor (setInMemory configured toggle) client = toggle.apply (ruleFor configured client) := by
  unfold setInMemory
  rw [hclient]
  rw [ruleFor, OrderedMap.get?_set_self, Option.some_or]
  cases configured with
  | rules rules =>
    dsimp only [startingRules, ruleFor]
    cases rules.get? client <;> rfl
  | switch enabled =>
    unfold startingRules ruleFor
    rw [OrderedMap.get?_set]
    split <;> rfl

/-- **The live rule of another client** stays, unless it follows the rule that is toggled. -/
theorem ruleFor_setInMemory_of_ne (hclient : toggle.client = some client) {other : Text}
    (hne : other ≠ client) (hown : client ≠ DEFAULT_CLIENT ∨ configured.declares other = true) :
    ruleFor (setInMemory configured toggle) other = ruleFor configured other := by
  unfold setInMemory
  rw [hclient]
  rw [ruleFor, OrderedMap.get?_set_of_ne _ _ (Ne.symm hne)]
  cases configured with
  | rules rules =>
    dsimp only [startingRules, ruleFor]
    cases hother : rules.get? other with
    | some rule => rfl
    | none =>
      rw [OffloadConfig.declares, hother] at hown
      have hdefault : client ≠ DEFAULT_CLIENT := hown.resolve_right Bool.false_ne_true
      rw [OrderedMap.get?_set_of_ne _ _ hdefault]
  | switch enabled =>
    have hdefault : client ≠ DEFAULT_CLIENT := by
      rcases hown with hdefault | hdeclared
      · exact hdefault
      · cases hdeclared
    dsimp only [startingRules]
    rw [OrderedMap.get?_set_of_ne _ _ hdefault, OrderedMap.get?_set]
    split <;> rfl

end Toggled

/-! ## The edited document -/

section Edited

variable {configured : OffloadConfig} {offload : Option Json}

/-- The properties of an object are those of a parsed text: no key stands twice, and none is the
one that names the prototype. -/
def PlainProperties (offload : Option Json) : Prop :=
  ∀ fields, offload = some (.obj fields) →
    (fields.map Prod.fst).Nodup ∧ text "__proto__" ∉ fields.map Prod.fst

theorem reads_switch (enabled : Bool) :
    Reads [(DEFAULT_CLIENT, .obj [(text "enabled", .bool enabled),
        (text "scope", Json.ofString OffloadScope.subagents.name)])]
      (startingRules (.switch enabled)) := by
  refine ⟨fun client value hvalue => ?_, fun client hnone => ?_⟩
  · rw [lookupEntry] at hvalue
    split at hvalue
    · rename_i heq
      cases hvalue
      subst heq
      refine ⟨_, ?_, OrderedMap.get?_set_self _ _ _⟩
      rfl
    · cases hvalue
  · rw [lookupEntry] at hnone
    split at hnone
    · cases hnone
    · rename_i hne
      exact OrderedMap.get?_set_of_ne _ _ hne

theorem reads_startingFields (hplain : PlainProperties offload)
    (hparse : parseOffload offload = .ok configured) :
    Reads (startingFields offload) (startingRules configured) ∧
      ((startingFields offload).map Prod.fst).Nodup := by
  rcases offload with _ | value
  · cases hparse
    exact ⟨reads_switch false, List.nodup_singleton _⟩
  cases value with
  | bool enabled =>
    cases hparse
    exact ⟨reads_switch enabled, List.nodup_singleton _⟩
  | obj fields =>
    obtain ⟨rules, rfl, hreads⟩ := reads_of_parseOffload (hplain fields rfl).1 hparse
    exact ⟨hreads, (hplain fields rfl).1⟩
  | null | num | str | arr => cases hparse

theorem parseOffloadRule_edited (hplain : PlainProperties offload)
    (hparse : parseOffload offload = .ok configured)
    (hforeseen : Foreseen configured toggle client) :
    parseOffloadRule client (editRule toggle (lookupEntry client (startingFields offload)))
      = .ok (toggle.apply (((startingRules configured).get? client).getD
          (ruleFor configured client))) := by
  have hreads := (reads_startingFields hplain hparse).1
  cases hvalue : lookupEntry client (startingFields offload) with
  | some value =>
    obtain ⟨rule, hrule, hget⟩ := hreads.declared client value hvalue
    rw [parseOffloadRule_editRule hrule, hget, Option.getD_some]
  | none =>
    have hget := hreads.other client hvalue
    rw [parseOffloadRule_editRule_none hforeseen.named, hget, Option.getD_none]
    -- the rule the client follows states no more than the toggle writes
    cases configured with
    | switch enabled => rfl
    | rules rules =>
      dsimp only [startingRules] at hget
      have hplainRule := hforeseen.plain (by rw [OffloadConfig.declares, hget]; rfl)
      have hfollows : ruleFor (.rules rules) client = ruleFor (.rules rules) DEFAULT_CLIENT := by
        rw [ruleFor, ruleFor, hget, Option.none_or, Option.or_self]
      rw [hfollows]
      obtain ⟨hfree, hscope⟩ := hplainRule
      unfold OffloadToggle.apply offRule
      rw [hfree]
      cases htoggle : toggle.scope with
      | none => rw [hscope htoggle]
      | some scope => rfl

theorem lookupEntry_map_snd (f : Json → Json) (client : Text) (fields : List (Text × Json)) :
    lookupEntry client (fields.map fun entry => (entry.1, f entry.2))
      = (lookupEntry client fields).map f := by
  induction fields with
  | nil => rfl
  | cons entry rest ih =>
    rw [List.map_cons, lookupEntry, lookupEntry, ih]
    split <;> rfl

/-- **The edited document** parses to the toggled configuration. -/
theorem parseOffload_editOffload (hplain : PlainProperties offload)
    (hparse : parseOffload offload = .ok configured)
    (hforeseen : ∀ client, toggle.client = some client → Foreseen configured toggle client) :
    ∃ edited, parseOffload (some (editOffload offload toggle)) = .ok edited ∧
      edited.Agrees (setInMemory configured toggle) := by
  unfold editOffload setInMemory
  cases hclient : toggle.client with
  | none =>
    rcases offload with _ | value
    · cases hparse
      exact ⟨.switch toggle.enabled, rfl, rfl⟩
    cases value with
    | bool enabled =>
      cases hparse
      exact ⟨.switch toggle.enabled, rfl, rfl⟩
    | obj fields =>
      obtain ⟨hnodup, -⟩ := hplain fields rfl
      obtain ⟨rules, rfl, hreads⟩ := reads_of_parseOffload hnodup hparse
      have hvalue : ∀ name value, lookupEntry name
          (fields.map fun entry => (entry.1, editAnyRule toggle.enabled entry.2)) = some value →
            ∃ rule, rules.get? name = some rule ∧
              parseOffloadRule name value = .ok { rule with enabled := toggle.enabled } := by
        intro name value hvalue
        rw [lookupEntry_map_snd] at hvalue
        obtain ⟨was, hwas, rfl⟩ := Option.map_eq_some_iff.mp hvalue
        obtain ⟨rule, hrule, hget⟩ := hreads.declared name was hwas
        exact ⟨rule, hget, parseOffloadRule_editAnyRule toggle.enabled hrule⟩
      have hkeys : ((fields.map fun entry =>
          (entry.1, editAnyRule toggle.enabled entry.2)).map Prod.fst).Nodup := by
        rw [List.map_map]
        exact hnodup
      obtain ⟨edited, hedited, hreads'⟩ := parseOffload_of_rules hkeys fun name value h =>
        (hvalue name value h).imp' _ fun _ h => h.2
      refine ⟨.rules edited, hedited, fun name => ?_⟩
      rw [OrderedMap.get?_mapValues]
      cases hlookup : lookupEntry name
          (fields.map fun entry => (entry.1, editAnyRule toggle.enabled entry.2)) with
      | none =>
        rw [hreads'.other name hlookup, hreads.other name, Option.map_none]
        rw [lookupEntry_map_snd] at hlookup
        exact Option.map_eq_none_iff.mp hlookup
      | some value =>
        obtain ⟨rule, hget, hrule⟩ := hvalue name value hlookup
        obtain ⟨rule', hrule', hget'⟩ := hreads'.declared name value hlookup
        rw [hrule] at hrule'
        cases hrule'
        rw [hget', hget, Option.map_some]
    | null | num | str | arr => cases hparse
  | some client =>
    obtain ⟨hreads, hnodup⟩ := reads_startingFields hplain hparse
    have hclientRule := parseOffloadRule_edited hplain hparse (hforeseen client hclient)
    obtain ⟨edited, hedited, hreads'⟩ := parseOffload_of_rules
      (nodup_setProperty client (editRule toggle (lookupEntry client (startingFields offload)))
        hnodup) (by
        intro name value hvalue
        rw [lookupEntry_setProperty] at hvalue
        split at hvalue
        · rename_i heq
          cases hvalue
          subst heq
          exact ⟨_, hclientRule⟩
        · obtain ⟨rule, hrule, -⟩ := hreads.declared name value hvalue
          exact ⟨rule, hrule⟩)
    refine ⟨.rules edited, hedited, fun name => ?_⟩
    rw [OrderedMap.get?_set]
    have hlookup := lookupEntry_setProperty (startingFields offload) client name
      (editRule toggle (lookupEntry client (startingFields offload)))
    split at hlookup
    · rename_i heq
      subst heq
      obtain ⟨rule, hrule, hget⟩ := hreads'.declared client _ hlookup
      rw [hclientRule] at hrule
      cases hrule
      rw [if_pos rfl, hget]
    · rename_i hne
      rw [if_neg hne]
      cases hvalue : lookupEntry name (startingFields offload) with
      | none =>
        rw [hvalue] at hlookup
        rw [hreads'.other name hlookup, hreads.other name hvalue]
      | some value =>
        rw [hvalue] at hlookup
        obtain ⟨rule, hrule, hget⟩ := hreads'.declared name value hlookup
        obtain ⟨rule', hrule', hget'⟩ := hreads.declared name value hvalue
        rw [hrule] at hrule'
        cases hrule'
        rw [hget, hget']

end Edited

/-! ## Documents -/

/-- The value of `routing.offload`. -/
def offloadOf (raw : Json) : Option Json :=
  (raw.get? (text "routing")).bind fun routing => routing.get? (text "offload")

/-- A configuration document: an object whose `routing` is not an array, with the properties of a
parsed text. -/
structure IsDocument (raw : Json) : Prop where
  record : raw.isRecord = true
  routing : ∀ items, raw.get? (text "routing") ≠ some (.arr items)
  plain : PlainProperties (offloadOf raw)

theorem setInFile_document {raw : Json} (hdocument : IsDocument raw) (toggle : OffloadToggle) :
    ∃ document, setInFile raw toggle = some (document, editOffload (offloadOf raw) toggle) ∧
      offloadOf document = some (editOffload (offloadOf raw) toggle) := by
  obtain ⟨hrecord, hrouting, -⟩ := hdocument
  cases raw with
  | obj fields =>
    have hassigned : ∀ (routing : List (Text × Json)) (v : Json),
        offloadOf (.obj (setProperty fields (text "routing")
          (.obj (setProperty routing (text "offload") v)))) = some v := by
      intro routing v
      rw [offloadOf, Json.get?, lookupEntry_setProperty, if_pos rfl, Option.bind_some, Json.get?,
        lookupEntry_setProperty, if_pos rfl]
    unfold setInFile offloadOf
    cases hvalue : (Json.obj fields).get? (text "routing") with
    | none => exact ⟨_, rfl, hassigned [] _⟩
    | some routing =>
      cases routing with
      | obj more => exact ⟨_, rfl, hassigned more _⟩
      | arr items => exact absurd hvalue (hrouting items)
      | null | bool | num | str => exact ⟨_, rfl, hassigned [] _⟩
  | null | bool | num | str | arr => cases hrecord

/-- **What is not persisted changes nothing**: neither the file nor the live rules, where the
configuration was read from a file and the descriptor of the directory closes. -/
theorem setOffload_unpersisted {environment : OffloadEnvironment} {world : OffloadWorld}
    (hsource : environment.hasSource = true) (hclose : environment.fails .closeDirectory = false)
    (h : (setOffload environment world toggle).1 = false) :
    (setOffload environment world toggle).2 = world := by
  unfold setOffload at h ⊢
  rw [hsource] at h ⊢
  simp only [Bool.not_true, Bool.false_eq_true, if_false] at h ⊢
  split
  · rfl
  · rename_i hread
    rw [if_neg hread] at h
    cases hprepared : preparedOffload world.file toggle with
    | none => rfl
    | some prepared =>
      rw [hprepared] at h
      dsimp only at h ⊢
      split
      · rfl
      · rename_i hpublish
        rw [if_neg hpublish, hclose, Bool.and_false] at h
        cases h

/-- **A toggle** of a document that parses. The edited document parses to the toggled
configuration. A toggle of one client keeps the other details of its rule; it keeps the effective
rule of every other client, but that a toggle of the default client also governs those without a
rule of their own. What is not persisted changes neither the file nor the live rules, but that a
configuration that was not read from a file is toggled live. -/
theorem offload_toggle_agrees {raw : Json} {configured : OffloadConfig} (toggle : OffloadToggle)
    (hdocument : IsDocument raw) (hparse : parseOffload (offloadOf raw) = .ok configured)
    (hforeseen : ∀ client, toggle.client = some client → Foreseen configured toggle client) :
    (∃ document value edited, setInFile raw toggle = some (document, value) ∧
      offloadOf document = some value ∧
      parseOffload (some value) = .ok edited ∧
      edited.Agrees (setInMemory configured toggle) ∧
      ∀ client, toggle.client = some client →
        ruleFor edited client = toggle.apply (ruleFor configured client) ∧
        ∀ other, other ≠ client → (client ≠ DEFAULT_CLIENT ∨ configured.declares other = true) →
          ruleFor edited other = ruleFor configured other) ∧
    ∀ environment world,
      (environment.hasSource = true → environment.fails .closeDirectory = false →
        (setOffload environment world toggle).1 = false →
        (setOffload environment world toggle).2 = world) ∧
      (environment.hasSource = false → setOffload environment world toggle
        = (false, { world with live := setInMemory world.live toggle })) := by
  obtain ⟨document, hset, hvalue⟩ := setInFile_document hdocument toggle
  obtain ⟨edited, hedited, hagrees⟩ := parseOffload_editOffload hdocument.plain hparse hforeseen
  refine ⟨⟨document, _, edited, hset, hvalue, hedited, hagrees, fun client hclient => ⟨?_, ?_⟩⟩,
    fun environment world => ⟨fun hsource hclose h => setOffload_unpersisted hsource hclose h, ?_⟩⟩
  · rw [ruleFor_of_agrees hagrees, ruleFor_setInMemory hclient]
  · intro other hne hown
    rw [ruleFor_of_agrees hagrees, ruleFor_setInMemory_of_ne hclient hne hown]
  · intro hsource
    unfold setOffload
    rw [hsource]
    rfl

/-- A document with a rule for one client, by a shorthand, and a default rule. -/
def shorthandDocument : Json :=
  .obj [(text "routing", .obj [(text "offload", .obj
    [(text "codex", .bool false),
      (DEFAULT_CLIENT, .obj [(text "enabled", .bool false)])])])]

theorem offload_toggle_agrees_codex :
    ∃ configured, parseOffload (offloadOf shorthandDocument) = .ok configured ∧
      ∃ document value edited,
        setInFile shorthandDocument ⟨true, some (text "codex"), some .all⟩
          = some (document, value) ∧
        parseOffload (some value) = .ok edited ∧
        edited.Agrees (setInMemory configured ⟨true, some (text "codex"), some .all⟩) := by
  have hdocument : IsDocument shorthandDocument := by
    refine ⟨rfl, fun items h => (by cases h), fun fields h => ?_⟩
    cases h
    exact ⟨by decide +kernel, by decide +kernel⟩
  obtain ⟨configured, hparse⟩ : ∃ configured,
      parseOffload (offloadOf shorthandDocument) = .ok configured := ⟨_, rfl⟩
  have hforeseen : ∀ client, some (text "codex") = some client →
      Foreseen configured ⟨true, some (text "codex"), some .all⟩ client := by
    intro client hclient
    cases hclient
    cases hparse
    exact ⟨by decide +kernel, by decide +kernel, by decide +kernel⟩
  obtain ⟨document, value, edited, hset, -, hedited, hagrees, -⟩ :=
    (offload_toggle_agrees ⟨true, some (text "codex"), some .all⟩ hdocument hparse hforeseen).1
  exact ⟨configured, hparse, document, value, edited, hset, hedited, hagrees⟩

/-- A toggle of the default client changes the rule of a client without one. -/
theorem offload_toggle_default_governs :
    (parseOffload (some (.obj [(DEFAULT_CLIENT, .bool false)]))).map
        (fun configured =>
          ((ruleFor configured (text "codex")).enabled,
            (ruleFor (setInMemory configured ⟨true, some DEFAULT_CLIENT, none⟩)
              (text "codex")).enabled))
      = .ok (false, true) := by
  decide +kernel

end LlmRelay.Config
