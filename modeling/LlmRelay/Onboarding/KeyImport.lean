import LlmRelay.Ecma.LowerCase
import LlmRelay.Onboarding.DotEnv

/-!
# Importing keys

A file of keys, in one of two formats, is matched against the names of the providers, and what is
taken from it is appended to the file of environment variables.

## Main definitions

* `parseFreeLlmApiExportJson`, `parseCredentialImport`: the entries of the imported file;
* `importEntry`, `importKeysFromFile`: what is taken from them, and the file of variables after it;
* `variablesOf file`: the variables of a file that may be missing.

## Main results

* `Pending.Sound`, `Sound.run`: the names and the values that are saved;
* `saved_keys_read_back_iff`: when the saved keys are read back, and nothing else has changed;
* `import_report_hides_keys`: no key is printed.
-/

namespace LlmRelay.Onboarding

open Ecma

/-! ## The imported file -/

structure CredentialImportEntry where
  name : Text
  value : Text
  deriving DecidableEq

inductive ImportFormat where
  | dotenv
  | freellmapiJson
  deriving DecidableEq, Repr

structure ParsedCredentialImport where
  format : ImportFormat
  entries : List CredentialImportEntry
  deriving DecidableEq

/-- Why a file is not imported. -/
inductive ImportError where
  | unrecognized
  | otherJson
  deriving DecidableEq, Repr

def ImportError.message : ImportError → String
  | unrecognized => "import file is neither dotenv nor a FreeLLMAPI v1 export JSON file"
  | otherJson => "JSON import must be a FreeLLMAPI v1 export"

/-- `[A-Za-z0-9_.-]`. -/
def isPlatformUnit (c : CodeUnit) : Bool :=
  isNameUnit c || c == 0x2E || c == 0x2D

/-- An element of `keys`; what is no identifier is named by its place. -/
def exportRow (entry : Json) (index : Nat) : CredentialImportEntry :=
  let place := text "entry " ++ Number.natText (index + 1)
  if entry.isRecord then
    let rawName := ((Json.string? (entry.get? (text "platform"))).map Text.trim).getD []
    { name := if rawName ≠ [] && rawName.all isPlatformUnit then rawName else place,
      value := (Json.string? (entry.get? (text "key"))).getD [] }
  else { name := place, value := [] }

/-- The entries of an export of version 1. -/
def parseFreeLlmApiExportJson (t : Text) : Option (List CredentialImportEntry) := do
  let obj ← Json.record? (Json.parse t)
  guard (Json.number? (obj.get? (text "version")) = some (.fin 1))
  guard (Json.string? (obj.get? (text "source")) = some (text "freellmapi"))
  let keys ← Json.array? (obj.get? (text "keys"))
  return keys.zipIdx.map fun p => exportRow p.1 p.2

def parseCredentialImport (t : Text) : Except ImportError ParsedCredentialImport :=
  match parseFreeLlmApiExportJson t with
  | some entries => .ok { format := .freellmapiJson, entries }
  | none =>
    -- other JSON is not read as variables, whatever its strings hold
    if (Json.parse t).isSome then .error .otherJson
    else
      let entries := (parseDotEnv t).entries.map fun e => { name := e.1, value := e.2 }
      if entries = [] then .error .unrecognized else .ok { format := .dotenv, entries }

/-! ## What is taken from it -/

/-- A provider, the variable of its key, and the names that stand for it. -/
structure CredentialImportTarget where
  provider : Text
  envName : Text
  aliases : List Text
  deriving DecidableEq

/-- What became of an entry; `reason` is absent when it was imported. -/
structure CredentialImportOutcome where
  name : Text
  target : Option CredentialImportTarget
  reason : Option String
  deriving DecidableEq

/-- The keys taken so far. -/
structure Pending where
  addedKeys : OrderedMap Text Text
  pendingProviders : List Text
  outcomes : List CredentialImportOutcome
  deriving DecidableEq

def Pending.skip (p : Pending) (name : Text) (target : Option CredentialImportTarget)
    (reason : String) : Pending :=
  { p with outcomes := p.outcomes ++ [{ name, target, reason := some reason }] }

def Pending.take (p : Pending) (entry : CredentialImportEntry) (target : CredentialImportTarget) :
    Pending where
  addedKeys := assignString p.addedKeys target.envName entry.value
  pendingProviders := p.pendingProviders ++ [target.provider]
  outcomes := p.outcomes ++ [{ name := entry.name, target := some target, reason := none }]

section Import

variable (lc : LowerCasing) (providers : List CredentialImportTarget) (force : Bool)

def normalizeName (name : Text) : Text :=
  lc.toLowerCase name.trim

/-- One entry. -/
def importEntry (existingNames : List Text) (p : Pending) (entry : CredentialImportEntry) : Pending :=
  match providers.find? fun target => target.aliases.contains (normalizeName lc entry.name) with
  | none => p.skip entry.name none "unknown name (not in the closed provider alias list)"
  | some target =>
    if entry.value.trim = [] then p.skip entry.name (some target) "empty value"
    else if p.pendingProviders.contains target.provider then
      p.skip entry.name (some target) "another alias for this provider was already imported"
    else if (target.aliases.any fun name => existingNames.contains name) && !force then
      p.skip entry.name (some target)
        "already set in the destination .env (use --force to replace)"
    else p.take entry target

/-- The variables of the file, if there is one. -/
def variablesOf (file : Option (List UInt8)) : OrderedMap Text Text :=
  match file with
  | none => OrderedMap.empty
  | some bytes => parseDotEnv (bytesToText bytes)

/-- What an import answers, the keys it saved, and the file of variables it leaves. -/
structure ImportRun where
  format : ImportFormat
  outcomes : List CredentialImportOutcome
  addedKeys : OrderedMap Text Text
  file : Option (List UInt8)
  deriving DecidableEq

/-- `importKeysFromFile`, for the file of variables and the imported file. -/
def importKeysFromFile (file : Option (List UInt8)) (imported : List UInt8) :
    Except ImportError ImportRun := do
  let parsed ← parseCredentialImport (bytesToText imported)
  let existingNames := (variablesOf file).keys.map (normalizeName lc)
  let pending := parsed.entries.foldl (importEntry lc providers force existingNames)
    { addedKeys := OrderedMap.empty, pendingProviders := [], outcomes := [] }
  return {
    format := parsed.format
    outcomes := pending.outcomes
    addedKeys := pending.addedKeys
    file :=
      if pending.addedKeys.entries = [] then file
      else some (saveKeysToEnv (file.getD []) pending.addedKeys)
  }

/-- The lines printed after an import. -/
def reportLines (outcomes : List CredentialImportOutcome) : List Text :=
  let imported := (outcomes.filter fun outcome => outcome.reason.isNone).length
  (outcomes.map fun outcome =>
    match outcome.reason with
    | none =>
      text "Imported " ++ outcome.name ++ text " -> "
        ++ (outcome.target.map CredentialImportTarget.provider).getD (text "undefined") ++ text " as $"
        ++ (outcome.target.map CredentialImportTarget.envName).getD (text "undefined")
    | some reason =>
      text "Skipped " ++ outcome.name
        ++ (outcome.target.map fun target => text " -> " ++ target.provider).getD [] ++ text ": "
        ++ text reason)
    ++ [text "Import complete: " ++ Number.natText imported ++ text " imported, "
        ++ Number.natText (outcomes.length - imported) ++ text " skipped."]

/-! ## The keys that are saved -/

/-- Every saved name is the variable of a provider, and no saved value is blank. -/
structure Pending.Sound (p : Pending) : Prop where
  name : ∀ e ∈ p.addedKeys.entries, ∃ target ∈ providers, target.envName = e.1
  value : ∀ e ∈ p.addedKeys.entries, e.2.trim ≠ []
  proto : p.addedKeys.get? (text "__proto__") = none

variable {providers} {p : Pending}

theorem Pending.Sound.skip (h : p.Sound providers) (name : Text)
    (target : Option CredentialImportTarget) (reason : String) :
    (p.skip name target reason).Sound providers :=
  ⟨h.name, h.value, h.proto⟩

theorem mem_entries_assignString {record : OrderedMap Text Text} {key value : Text}
    {e : Text × Text} (h : e ∈ (assignString record key value).entries) :
    e = (key, value) ∨ e ∈ record.entries := by
  rw [OrderedMap.mem_entries_iff, get?_assignString] at h
  split at h
  · rename_i hkey
    exact .inl (Prod.ext hkey.1.symm (Option.some.inj h).symm)
  · exact .inr (record.mem_entries_iff.mpr h)

variable (h : p.Sound providers)

include h

theorem Pending.Sound.take {entry : CredentialImportEntry}
    {target : CredentialImportTarget} (htarget : target ∈ providers) (hvalue : entry.value.trim ≠ []) :
    (p.take entry target).Sound providers where
  name := by
    intro e he
    rcases mem_entries_assignString he with rfl | he
    · exact ⟨target, htarget, rfl⟩
    · exact h.name e he
  value := by
    intro e he
    rcases mem_entries_assignString he with rfl | he
    · exact hvalue
    · exact h.value e he
  proto := by
    rw [Pending.take, get?_assignString, if_neg fun hkey => hkey.2 hkey.1]
    exact h.proto

/-- **One entry** keeps the saved keys sound. -/
theorem Pending.Sound.importEntry (existingNames : List Text) (entry : CredentialImportEntry) :
    (importEntry lc providers force existingNames p entry).Sound providers := by
  rw [Onboarding.importEntry]
  split
  · exact h.skip ..
  · rename_i target hfind
    split
    · exact h.skip ..
    · rename_i hvalue
      split
      · exact h.skip ..
      split
      · exact h.skip ..
      · exact h.take (List.mem_of_find?_eq_some hfind) hvalue

theorem Pending.Sound.run (existingNames : List Text) (entries : List CredentialImportEntry) :
    (entries.foldl (Onboarding.importEntry lc providers force existingNames) p).Sound providers := by
  induction entries generalizing p with
  | nil => exact h
  | cons entry entries ih =>
    exact ih (h.importEntry lc force existingNames entry)

omit h

theorem importKeysFromFile_spec {file : Option (List UInt8)} {imported : List UInt8} {run : ImportRun}
    (h : importKeysFromFile lc providers force file imported = .ok run) :
    ∃ p : Pending, p.Sound providers ∧ run.addedKeys = p.addedKeys ∧ run.file
      = if p.addedKeys.entries = [] then file else some (saveKeysToEnv (file.getD []) p.addedKeys) := by
  rw [importKeysFromFile] at h
  cases hparsed : parseCredentialImport (bytesToText imported) with
  | error e =>
    rw [hparsed] at h
    cases h
  | ok parsed =>
    rw [hparsed] at h
    have hempty : Pending.Sound providers
        { addedKeys := OrderedMap.empty, pendingProviders := [], outcomes := [] } :=
      ⟨fun _ he => (by cases he), fun _ he => (by cases he), rfl⟩
    have hsound := hempty.run lc force ((variablesOf file).keys.map (normalizeName lc)) parsed.entries
    cases h
    exact ⟨_, hsound, rfl, rfl⟩

/-- Two entries that differ at most in a key that neither leaves blank. -/
def SameButKey (a b : CredentialImportEntry) : Prop :=
  a.name = b.name ∧ (a.value.trim = [] ↔ b.value.trim = [])

/-- Agree in all that the report depends on. -/
def Pending.Agree (p q : Pending) : Prop :=
  p.pendingProviders = q.pendingProviders ∧ p.outcomes = q.outcomes

theorem Pending.Agree.importEntry {q : Pending} (h : p.Agree q) (names : List Text)
    {a b : CredentialImportEntry} (hab : SameButKey a b) :
    (importEntry lc providers force names p a).Agree (importEntry lc providers force names q b) := by
  have hskip : ∀ name target reason,
      (p.skip name target reason).Agree (q.skip name target reason) :=
    fun _ _ _ => ⟨h.1, by rw [Pending.skip, Pending.skip, h.2]⟩
  simp only [Onboarding.importEntry, hab.1, hab.2, h.1]
  split
  · exact hskip ..
  split
  · exact hskip ..
  split
  · exact hskip ..
  split
  · exact hskip ..
  · exact ⟨by rw [Pending.take, Pending.take, h.1], by rw [Pending.take, Pending.take, h.2, hab.1]⟩

end Import

/-- **Saved keys are read back**, and the other variables are what they were, exactly when no saved
value has a quote, a line feed or an unpaired surrogate: for every import whose providers name their
variables by names of environment variables. -/
theorem saved_keys_read_back_iff (lc : LowerCasing) (providers : List CredentialImportTarget)
    (force : Bool) (file : Option (List UInt8)) (imported : List UInt8) {run : ImportRun}
    (h : importKeysFromFile lc providers force file imported = .ok run)
    (hnames : ∀ target ∈ providers, isEnvName target.envName = true) :
    (∀ name, (variablesOf run.file).get? name
        = (run.addedKeys.get? name).or ((variablesOf file).get? name))
      ↔ ∀ e ∈ run.addedKeys.entries, Plain e.2 := by
  obtain ⟨p, hsound, hadded, hfile⟩ := importKeysFromFile_spec lc force h
  rw [hadded, hfile]
  split
  · rename_i hnone
    -- nothing is saved, and the file is left as it is
    rw [hnone]
    refine ⟨fun _ _ he => (by cases he), fun _ name => ?_⟩
    have hget : p.addedKeys.get? name = none := by
      rw [OrderedMap.get?.eq_def, hnone]
      rfl
    rw [hget, Option.none_or]
  · have hread : variablesOf file = parseDotEnv (bytesToText (file.getD [])) := by
      cases file <;> rfl
    rw [hread]
    refine reads_saved_iff _ (fun e he => ?_) hsound.proto
    obtain ⟨target, htarget, hname⟩ := hsound.name e he
    exact hname ▸ hnames target htarget

/-- **The report of an import** tells no key: it is the same for files whose entries differ in
their keys only. -/
theorem import_report_hides_keys (lc : LowerCasing) (providers : List CredentialImportTarget)
    (force : Bool) (file : Option (List UInt8)) {imported imported' : List UInt8}
    {parsed parsed' : ParsedCredentialImport}
    (hparsed : parseCredentialImport (bytesToText imported) = .ok parsed)
    (hparsed' : parseCredentialImport (bytesToText imported') = .ok parsed')
    (hsame : List.Forall₂ SameButKey parsed.entries parsed'.entries) :
    (importKeysFromFile lc providers force file imported).map (reportLines ·.outcomes)
      = (importKeysFromFile lc providers force file imported').map (reportLines ·.outcomes) := by
  have hagree : ∀ names p,
      (parsed.entries.foldl (importEntry lc providers force names) p).Agree
        (parsed'.entries.foldl (importEntry lc providers force names) p) := fun names _ =>
    List.rel_foldl (fun _ _ h _ _ hab => h.importEntry lc force names hab) ⟨rfl, rfl⟩ hsame
  simp only [importKeysFromFile, hparsed, hparsed', bind, Except.bind, pure, Except.pure, Except.map]
  rw [(hagree _ _).2]

/-- A provider whose key is `GROQ_API_KEY`. -/
def groqTarget : CredentialImportTarget where
  provider := text "groq"
  envName := text "GROQ_API_KEY"
  aliases := [text "groq_api_key", text "groq"]

/-- An import of a key without anything to escape. -/
def plainImport : ImportRun where
  format := .dotenv
  outcomes := [{ name := text "GROQ", target := some groqTarget, reason := none }]
  addedKeys := OrderedMap.empty.set (text "GROQ_API_KEY") (text "gsk 1")
  file := some (encodeUtf8 (text "\nGROQ_API_KEY=\"gsk 1\"\n"))

theorem importKeysFromFile_plain :
    importKeysFromFile .basic [groqTarget] false none (encodeUtf8 (text "GROQ='gsk 1'"))
      = .ok plainImport := by
  decide +kernel

theorem saved_keys_read_back_plain :
    (∀ name, (variablesOf plainImport.file).get? name
        = (plainImport.addedKeys.get? name).or ((variablesOf none).get? name))
      ↔ ∀ e ∈ plainImport.addedKeys.entries, Plain e.2 :=
  saved_keys_read_back_iff .basic [groqTarget] false none (encodeUtf8 (text "GROQ='gsk 1'"))
    importKeysFromFile_plain (List.forall_mem_singleton.mpr rfl)

theorem import_report_hides_keys_plain :
    (importKeysFromFile .basic [groqTarget] false none (encodeUtf8 (text "GROQ='gsk 1'"))).map
        (reportLines ·.outcomes)
      = (importKeysFromFile .basic [groqTarget] false none (encodeUtf8 (text "GROQ=2"))).map
        (reportLines ·.outcomes) := by
  have hparsed : parseCredentialImport (bytesToText (encodeUtf8 (text "GROQ='gsk 1'")))
      = .ok ⟨.dotenv, [⟨text "GROQ", text "gsk 1"⟩]⟩ := by decide +kernel
  have hparsed' : parseCredentialImport (bytesToText (encodeUtf8 (text "GROQ=2")))
      = .ok ⟨.dotenv, [⟨text "GROQ", text "2"⟩]⟩ := by decide +kernel
  exact import_report_hides_keys _ _ _ _ hparsed hparsed' (.cons ⟨rfl, by decide +kernel⟩ .nil)

/-- An export whose key spans two lines, the second of which sets a variable. -/
def injectedExport : List UInt8 :=
  encodeUtf8 (text ("\x7b\"version\":1,\"source\":\"freellmapi\",\"keys\":"
    ++ "[\x7b\"platform\":\"groq\",\"key\":\"x\\nA=y\"\x7d]\x7d"))

def injectedImport : ImportRun where
  format := .freellmapiJson
  outcomes := [{ name := text "groq", target := some groqTarget, reason := none }]
  addedKeys := OrderedMap.empty.set (text "GROQ_API_KEY") (text "x\nA=y")
  file := some (encodeUtf8 (text "\nGROQ_API_KEY=\"x\nA=y\"\n"))

/-- The value of one key sets another variable, and its own is cut off. -/
theorem saved_value_sets_another_variable :
    importKeysFromFile .basic [groqTarget] false none injectedExport = .ok injectedImport
      ∧ injectedImport.addedKeys.get? (text "A") = none
      ∧ (variablesOf injectedImport.file).get? (text "A") = some (text "y\"")
      ∧ (variablesOf injectedImport.file).get? (text "GROQ_API_KEY") = some (text "\"x") := by
  decide +kernel

end LlmRelay.Onboarding
