import LlmRelay.Keystore.Identity
import Mathlib.Logic.Relation

/-!
# Encrypted exports

All rows of a store, opened and sealed once more under a passphrase, and restored from there into
another store (`keystore.ts`).

## Main definitions

* `createEncryptedKeystoreExport`, `decryptEncryptedKeystoreExport`: the export, and what is in it;
* `restoreEntryFromExport`, `restoreAll`: the rows of an export added to a store;
* `Write`, `Reachable`: the writes, and the files that runs of them leave.

## Main results

* `holds_of_reachable`: what every run of writes leaves;
* `decrypt_create`, `lookup_restoreAll`: what an export holds, and what restored rows answer;
* `export_round_trip`: an export holds every row with its value, restored rows answer as the
  original ones do, and a row that is moved under another identity does not open.
-/

namespace LlmRelay.Keystore

open Ecma Cipher Facts
open Config (bind_eq_ok)

/-! ## Exported rows -/

structure KeystoreExportEntry extends KeystoreEntryDescriptor where
  value : Text
  deriving DecidableEq

def KeystoreExportEntry.toJson (entry : KeystoreExportEntry) : Json :=
  .ofProperties [("id", some (.str entry.id)), ("provider", some (.str entry.provider)),
    ("envName", some (.str entry.envName)), ("fingerprint", some (.str entry.fingerprint)),
    ("addedAt", some (.num entry.addedAt)), ("rotatedAt", some (nullableJson entry.rotatedAt)),
    ("expiresAt", some (nullableJson entry.expiresAt)),
    ("revokedAt", some (nullableJson entry.revokedAt)), ("disabled", some (.bool entry.disabled)),
    ("value", some (.str entry.value))]

def EXPORT_ENTRY_KEYS : List String :=
  ["id", "provider", "envName", "fingerprint", "addedAt", "rotatedAt", "expiresAt", "revokedAt",
    "disabled", "value"]

/-- What `validExportEntry` checks of a row whose properties have their types. -/
def KeystoreExportEntry.validRow (entry : KeystoreExportEntry) : Bool :=
  entry.toKeystoreEntryDescriptor.valid && keyIsPresent entry.value

/-- The exported row, where the value is one. -/
def validExportEntry (value : Json) : Option KeystoreExportEntry := do
  guard (hasExactKeysWithOptional value EXPORT_ENTRY_KEYS)
  let d ← descriptor? value
  let secret ← Json.string? (value.get? (text "value"))
  let entry : KeystoreExportEntry := { d with value := secret }
  guard entry.validRow
  return entry

/-- The rows, where all of them are valid and no two share an id or a name. -/
def exportedRows? (kept : List KeystoreExportEntry) : List Json → Option (List KeystoreExportEntry)
  | [] => some kept
  | candidate :: rest =>
    match validExportEntry candidate with
    | none => none
    | some entry =>
      if kept.any fun other => other.id = entry.id || other.envName = entry.envName then none
      else exportedRows? (kept ++ [entry]) rest

def payloadJson (entries : List KeystoreExportEntry) : Json :=
  .ofProperties [("version", some (.ofNat 1)),
    ("entries", some (.arr (entries.map KeystoreExportEntry.toJson)))]

def parseExportPayload (value : Json) : Option (List KeystoreExportEntry) := do
  guard (hasExactKeysWithOptional value ["version", "entries"]
    && value.get? (text "version") = some (.ofNat 1))
  let candidates ← Json.array? (value.get? (text "entries"))
  exportedRows? [] candidates

/-! ## The envelope -/

def EXPORT_AAD : Bytes := encodeUtf8 (text "llm-relay-keystore-export-v1")

def EXPORT_SOURCE : String := "llm-relay-keystore"

structure KeystoreExportEnvelope where
  kdf : FixedBytes 32
  iv : Bytes
  tag : Bytes
  ciphertext : Bytes

def KeystoreExportEnvelope.toJson (envelope : KeystoreExportEnvelope) : Json :=
  .ofProperties [("version", some (.ofNat 1)), ("source", some (.ofString EXPORT_SOURCE)),
    ("kdf", some (kdfJson envelope.kdf)), ("cipher", some (.ofString "aes-256-gcm")),
    ("iv", some (.str (toBase64 envelope.iv))), ("tag", some (.str (toBase64 envelope.tag))),
    ("ciphertext", some (.str (toBase64 envelope.ciphertext)))]

/-- The envelope, where the text is one. -/
def parseExportEnvelope (t : Text) : Option KeystoreExportEnvelope := do
  let parsed ← Json.parse t
  guard (hasExactKeysWithOptional parsed
      ["version", "source", "kdf", "cipher", "iv", "tag", "ciphertext"]
    && parsed.get? (text "version") = some (.ofNat 1)
    && parsed.get? (text "source") = some (.ofString EXPORT_SOURCE)
    && parsed.get? (text "cipher") = some (.ofString "aes-256-gcm"))
  let kdf ← validKdf (parsed.get? (text "kdf"))
  let iv ← (Json.string? (parsed.get? (text "iv"))).bind fun iv =>
    decodeBase64 iv (some GCM_IV_LENGTH)
  let tag ← (Json.string? (parsed.get? (text "tag"))).bind fun tag =>
    decodeBase64 tag (some GCM_TAG_LENGTH)
  let ciphertext ← (Json.string? (parsed.get? (text "ciphertext"))).bind fun ciphertext =>
    decodeBase64 ciphertext none
  guard (ciphertext != [])
  return { kdf, iv, tag, ciphertext }

variable (crypto : Crypto)

/-- The rows with their values, where all of them open. -/
def openRows (store : StoredKeystore) (kek : FixedBytes 32) : Option (List KeystoreExportEntry) :=
  store.entries.mapM fun entry =>
    (decryptEntryValue crypto entry kek store.fpSalt).map fun value =>
      { descriptorOf entry with value }

/-- The text of the export; `salt` and `iv` are drawn. -/
def createEncryptedKeystoreExport (exportPassphrase : Bytes) (unwrapped : Option Bytes)
    (salt : FixedBytes 32) (iv : FixedBytes GCM_IV_LENGTH) (file : Option Text) :
    Except KeystoreError Text :=
  match loadStore file with
  | .fresh => .error .read
  | .unreadable => .error .read
  | .loaded store droppedCount =>
    if 0 < droppedCount then .error (.degraded droppedCount)
    else if exportPassphrase = [] then .error .passphraseRequired
    else
      match recoverVerifiedStoreKek crypto unwrapped store with
      | none => .error .unlock
      | some kek =>
        match openRows crypto store kek with
        | none => .error (.degraded 1)
        | some entries =>
          let plaintext := encodeUtf8 (payloadJson entries).stringify
          let key := crypto.scrypt exportPassphrase salt.1
          let box := crypto.encrypt key.1 iv.1 EXPORT_AAD plaintext
          let envelope : KeystoreExportEnvelope :=
            { kdf := salt, iv := iv.1, tag := box.2, ciphertext := box.1 }
          .ok (envelope.toJson.stringifyIndented 2 ++ [lf])

/-- Everything that goes wrong is one error. -/
def decryptEncryptedKeystoreExport (t : Text) (passphrase : Bytes) :
    Except KeystoreError (List KeystoreExportEntry) :=
  match parseExportEnvelope t with
  | none => .error .export
  | some envelope =>
    if passphrase = [] then .error .export
    else
      let key := crypto.scrypt passphrase envelope.kdf.1
      let entries := do
        let plaintext ← crypto.decrypt key.1 envelope.iv EXPORT_AAD envelope.ciphertext envelope.tag
        let payload ← Json.parse (bytesToText plaintext)
        parseExportPayload payload
      match entries with
      | none => .error .export
      | some entries => .ok entries

/-- The row keeps its data, and is sealed anew. -/
def restoreEntryFromExport (custody : Custody) (file : Option Text) (input : KeystoreExportEntry) :
    Except KeystoreError Text :=
  if input.validRow then do
    let (store, kek) ← openStoreForNewEntry crypto custody file input.id input.envName
    let entry := sealEntry crypto input.toKeystoreEntryDescriptor input.value kek store.fpSalt
      custody.iv
    return persistStore { store with entries := store.entries ++ [entry] }
  else .error .export

/-- The rows of an export, each with the vector that is drawn for it, restored one after another
where the key of the store is `kek`. -/
def restoreAll (created : NewCustody) (kek : FixedBytes 32) :
    List (FixedBytes GCM_IV_LENGTH × KeystoreExportEntry) → Option Text →
      Except KeystoreError (Option Text)
  | [], file => .ok file
  | (iv, row) :: rest, file => do
    let file ← restoreEntryFromExport crypto ⟨some kek.1, created, iv⟩ file row
    restoreAll created kek rest (some file)

/-! ## Runs of writes -/

/-- A write that succeeds, whatever the key ring gives; times are numbers of the language. -/
inductive Write : Option Text → Option Text → Prop where
  | add {custody now file id provider envName value expiresAt file'} (hnow : IsJsNumber now)
    (hexpires : ∀ x ∈ expiresAt, IsJsNumber x)
    (h : addEntry crypto custody now file id provider envName value expiresAt = .ok file') :
    Write file (some file')
  | rotate {custody now file entryId value expiresAt file'} (hnow : IsJsNumber now)
    (hexpires : ∀ x ∈ expiresAt.getD none, IsJsNumber x)
    (h : rotateEntry crypto custody now file entryId value expiresAt = .ok file') :
    Write file (some file')
  | revoke {custody now file entryId file'} (hnow : IsJsNumber now)
    (h : revokeEntry crypto custody now file entryId = .ok file') : Write file (some file')
  | remove {custody file entryId file'}
    (h : removeEntry crypto custody file entryId = .ok file') : Write file (some file')
  | setDisabled {custody file entryId disabled file'}
    (h : setDisabled crypto custody file entryId disabled = .ok file') : Write file (some file')
  | restore {custody file input file'} (htimes : ∀ x ∈ input.times, IsJsNumber x)
    (h : restoreEntryFromExport crypto custody file input = .ok file') : Write file (some file')

/-- The files that runs of writes leave, from no file on. -/
def Reachable (file : Option Text) : Prop :=
  Relation.ReflTransGen (Write crypto) none file

variable {crypto} {kek : FixedBytes 32} {store : StoredKeystore}

variable {file : Option Text} {row : KeystoreExportEntry} {entries : List StoredEntry}
  {unwrapped : Option Bytes} {kek' : FixedBytes 32} {ivs : List (FixedBytes GCM_IV_LENGTH)}

/-- **Restoring a row.** -/
theorem holds_restoreEntry {custody : Custody} {input : KeystoreExportEntry} {file' : Text}
    (hfile : Holds crypto file) (htimes : ∀ x ∈ input.times, IsJsNumber x)
    (h : restoreEntryFromExport crypto custody file input = .ok file') :
    Holds crypto (some file') := by
  rw [restoreEntryFromExport] at h
  split_ifs at h with hvalid
  rw [bind_eq_ok] at h
  obtain ⟨⟨store, kek⟩, hopen, h⟩ := h
  obtain ⟨hsound, hnew⟩ := openStoreForNewEntry_spec hfile hopen
  rw [KeystoreExportEntry.validRow, Bool.and_eq_true] at hvalid
  cases h
  refine holds_persistStore (hsound.append ⟨_, sealedAs_sealEntry (fun fp hfp => ?_) htimes hvalid.2⟩
    hnew)
  have hrow := hvalid.1
  simp only [KeystoreEntryDescriptor.valid, Bool.and_eq_true] at hrow ⊢
  exact ⟨⟨⟨⟨⟨hrow.1.1.1.1.1, hfp⟩, hrow.1.1.1.2⟩, hrow.1.1.2⟩, hrow.1.2⟩, hrow.2⟩

/-- **One write** leaves a file that holds a sound store. -/
theorem holds_of_write {file' : Option Text} (hfile : Holds crypto file)
    (h : Write crypto file file') : Holds crypto file' := by
  cases h with
  | add hnow hexpires h => exact holds_addEntry hfile hnow hexpires h
  | rotate hnow hexpires h => exact holds_rotateEntry hfile hnow hexpires h
  | revoke hnow h => exact holds_revokeEntry hfile hnow h
  | remove h => exact holds_removeEntry hfile h
  | setDisabled h => exact holds_setDisabled hfile h
  | restore htimes h => exact holds_restoreEntry hfile htimes h

/-- **Every run of writes** leaves a file that holds a sound store. -/
theorem holds_of_reachable (h : Reachable crypto file) : Holds crypto file := by
  induction h with
  | refl => exact fun _ h => by cases h
  | tail _ hwrite ih => exact holds_of_write ih hwrite

/-! ## An export is read back -/

variable {fpSalt : Text} {value : Text} {entry : StoredEntry}

/-- The exported row of a stored one. -/
def exportRow (entry : StoredEntry) (value : Text) : KeystoreExportEntry :=
  { descriptorOf entry with value }

theorem KeystoreExportEntry.descriptor?_toJson (row : KeystoreExportEntry) :
    descriptor? row.toJson = some row.toKeystoreEntryDescriptor := by
  simp [descriptor?, KeystoreExportEntry.toJson, Json.string?, Json.number?, bool?]

/-- **An exported row** is read as it is written. -/
theorem validExportEntry_toJson (h : row.validRow = true) :
    validExportEntry row.toJson = some row := by
  have hkeys : hasExactKeysWithOptional row.toJson EXPORT_ENTRY_KEYS = true :=
    hasExactKeysWithOptional_ofProperties rfl (by simp)
  have hvalue : Json.string? (row.toJson.get? (text "value")) = some row.value := by
    simp [KeystoreExportEntry.toJson, Json.string?]
  rw [validExportEntry, hkeys, KeystoreExportEntry.descriptor?_toJson, hvalue]
  simp [h]

theorem validRow_exportRow (h : SealedAs crypto kek fpSalt entry value) :
    (exportRow entry value).validRow = true := by
  rw [KeystoreExportEntry.validRow, Bool.and_eq_true]
  exact ⟨h.valid, h.present⟩

theorem KeystoreExportEntry.normal_toJson (h : row.validRow = true)
    (htimes : ∀ x ∈ row.times, IsJsNumber x) : row.toJson.Normal := by
  rw [KeystoreExportEntry.validRow, Bool.and_eq_true] at h
  obtain ⟨hadded, hrotated, hexpires, hrevoked⟩ := validTimestamp_of_valid h.1
  obtain ⟨hadded', hrotated', hexpires', hrevoked'⟩ := isJsNumber_of_times htimes
  refine normal_ofProperties EXPORT_ENTRY_KEYS rfl (by decide) ?_
  simp only [List.forall_mem_cons, Option.mem_some_iff, forall_eq']
  exact ⟨trivial, trivial, trivial, trivial, normal_num hadded hadded',
    normal_nullableJson hrotated hrotated', normal_nullableJson hexpires hexpires',
    normal_nullableJson hrevoked hrevoked', trivial, trivial, fun _ h => by cases h⟩

theorem exportedRows?_map {rows kept : List KeystoreExportEntry}
    (hrows : ∀ row ∈ rows, row.validRow = true)
    (hids : ((kept ++ rows).map fun row => row.id).Nodup)
    (hnames : ((kept ++ rows).map fun row => row.envName).Nodup) :
    exportedRows? kept (rows.map KeystoreExportEntry.toJson) = some (kept ++ rows) := by
  induction rows generalizing kept with
  | nil => rw [List.map_nil, exportedRows?, List.append_nil]
  | cons row rows ih =>
    obtain ⟨hrow, hrest⟩ := List.forall_mem_cons.mp hrows
    have hnew : (kept.any fun other => other.id = row.id || other.envName = row.envName)
        = false := by
      rw [List.any_eq_false]
      intro other hother
      rw [List.map_append, List.nodup_append] at hids hnames
      simp only [Bool.or_eq_true, decide_eq_true_eq, not_or]
      exact ⟨hids.2.2 _ (List.mem_map_of_mem hother) _ (List.mem_map_of_mem List.mem_cons_self),
        hnames.2.2 _ (List.mem_map_of_mem hother) _ (List.mem_map_of_mem List.mem_cons_self)⟩
    rw [List.map_cons, exportedRows?, validExportEntry_toJson hrow]
    dsimp only
    rw [hnew, if_neg Bool.false_ne_true, ih hrest]
    · rw [List.append_assoc, List.singleton_append]
    · rwa [List.append_assoc]
    · rwa [List.append_assoc]

/-- The rows of an export: valid, with times of the language, and apart. -/
structure Exportable (rows : List KeystoreExportEntry) : Prop where
  valid : ∀ row ∈ rows, row.validRow = true
  times : ∀ row ∈ rows, ∀ x ∈ row.times, IsJsNumber x
  ids : (rows.map fun row => row.id).Nodup
  envNames : (rows.map fun row => row.envName).Nodup

variable {rows : List KeystoreExportEntry}

theorem normal_payloadJson (h : Exportable rows) : (payloadJson rows).Normal := by
  refine normal_ofProperties ["version", "entries"] rfl (by decide) ?_
  simp only [List.forall_mem_cons, Option.mem_some_iff, forall_eq']
  refine ⟨normal_ofNat (by decide), normalItems_iff.mpr fun v hv => ?_, fun _ h => by cases h⟩
  obtain ⟨row, hrow, rfl⟩ := List.mem_map.mp hv
  exact KeystoreExportEntry.normal_toJson (h.valid row hrow) (h.times row hrow)

/-- **The payload** is read as it is written. -/
theorem parseExportPayload_payloadJson (h : Exportable rows) :
    parseExportPayload (payloadJson rows) = some rows := by
  have hkeys : hasExactKeysWithOptional (payloadJson rows) ["version", "entries"] = true :=
    hasExactKeysWithOptional_ofProperties rfl (by simp)
  have hversion : (payloadJson rows).get? (text "version") = some (.ofNat 1) := by
    simp [payloadJson]
  have hentries : Json.array? ((payloadJson rows).get? (text "entries"))
      = some (rows.map KeystoreExportEntry.toJson) := by
    simp [payloadJson]
  have hrows : exportedRows? [] (rows.map KeystoreExportEntry.toJson) = some rows :=
    exportedRows?_map h.valid h.ids h.envNames
  rw [parseExportPayload, hkeys, hversion, hentries]
  simp [hrows]

/-- **The envelope** is read as it is written. -/
theorem parseExportEnvelope_toJson {envelope : KeystoreExportEnvelope}
    (hiv : envelope.iv.length = GCM_IV_LENGTH) (htag : envelope.tag.length = GCM_TAG_LENGTH)
    (hciphertext : envelope.ciphertext ≠ []) :
    parseExportEnvelope (envelope.toJson.stringifyIndented 2 ++ [lf]) = some envelope := by
  have hspace : ∀ c ∈ [lf], Json.isSpace c = true := List.forall_mem_singleton.mpr rfl
  have hnormal : envelope.toJson.Normal := by
    refine normal_ofProperties ["version", "source", "kdf", "cipher", "iv", "tag", "ciphertext"] rfl
      (by decide) ?_
    simp only [List.forall_mem_cons, Option.mem_some_iff, forall_eq']
    exact ⟨normal_ofNat (by decide), trivial, normal_kdfJson envelope.kdf, trivial, trivial, trivial,
      trivial, fun _ h => by cases h⟩
  have hkeys : hasExactKeysWithOptional envelope.toJson
      ["version", "source", "kdf", "cipher", "iv", "tag", "ciphertext"] = true :=
    hasExactKeysWithOptional_ofProperties rfl (by simp)
  have hversion : envelope.toJson.get? (text "version") = some (.ofNat 1) := by
    simp [KeystoreExportEnvelope.toJson]
  have hsource : envelope.toJson.get? (text "source") = some (.ofString EXPORT_SOURCE) := by
    simp [KeystoreExportEnvelope.toJson]
  have hkdf : envelope.toJson.get? (text "kdf") = some (kdfJson envelope.kdf) := by
    simp [KeystoreExportEnvelope.toJson]
  have hcipher : envelope.toJson.get? (text "cipher") = some (.ofString "aes-256-gcm") := by
    simp [KeystoreExportEnvelope.toJson]
  have hivText : Json.string? (envelope.toJson.get? (text "iv")) = some (toBase64 envelope.iv) := by
    simp [KeystoreExportEnvelope.toJson, Json.string?]
  have htagText : Json.string? (envelope.toJson.get? (text "tag"))
      = some (toBase64 envelope.tag) := by
    simp [KeystoreExportEnvelope.toJson, Json.string?]
  have hciphertextText : Json.string? (envelope.toJson.get? (text "ciphertext"))
      = some (toBase64 envelope.ciphertext) := by
    simp [KeystoreExportEnvelope.toJson, Json.string?]
  have hivBytes : decodeBase64 (toBase64 envelope.iv) (some GCM_IV_LENGTH) = some envelope.iv :=
    decodeBase64_toBase64 fun n hn => Option.some.inj hn ▸ hiv
  have htagBytes : decodeBase64 (toBase64 envelope.tag) (some GCM_TAG_LENGTH) = some envelope.tag :=
    decodeBase64_toBase64 fun n hn => Option.some.inj hn ▸ htag
  have hciphertextBytes : decodeBase64 (toBase64 envelope.ciphertext) none
      = some envelope.ciphertext := decodeBase64_toBase64 fun _ h => by cases h
  rw [parseExportEnvelope, Json.parse_stringifyIndented hnormal 2 hspace]
  simp only [Option.bind_eq_bind, Option.bind_some, hkeys, hversion, hsource, hkdf, hcipher, hivText,
    htagText, hciphertextText, hivBytes, htagBytes, hciphertextBytes, validKdf_kdfJson]
  simp [hciphertext]

/-! ## The rows of a store -/

/-- The row is the exported one of the stored one. -/
def Exports (crypto : Crypto) (kek : FixedBytes 32) (fpSalt : Text) (entry : StoredEntry)
    (row : KeystoreExportEntry) : Prop :=
  ∃ value, SealedAs crypto kek fpSalt entry value ∧ row = exportRow entry value

/-- **All rows** of a sound store open. -/
theorem openRows_of_sound (h : Sound crypto kek store) :
    ∃ rows, openRows crypto store kek = some rows ∧
      List.Forall₂ (Exports crypto kek store.fpSalt) store.entries rows := by
  have hrows := h.rows
  rw [openRows]
  generalize store.entries = entries at hrows
  induction entries with
  | nil => exact ⟨[], rfl, .nil⟩
  | cons entry entries ih =>
    obtain ⟨⟨value, hvalue⟩, hrest⟩ := List.forall_mem_cons.mp hrows
    obtain ⟨rows, hopen, hexports⟩ := ih hrest
    refine ⟨exportRow entry value :: rows, ?_, .cons ⟨value, hvalue, rfl⟩ hexports⟩
    rw [List.mapM_cons, decryptEntryValue_of_sealedAs hvalue, hopen]
    rfl

theorem map_of_forall₂_exports (h : List.Forall₂ (Exports crypto kek fpSalt) entries rows) :
    (rows.map fun row => row.id) = (entries.map fun entry => entry.id) ∧
      (rows.map fun row => row.envName) = entries.map fun entry => entry.envName := by
  induction h with
  | nil => exact ⟨rfl, rfl⟩
  | cons hrow _ ih =>
    obtain ⟨value, -, rfl⟩ := hrow
    exact ⟨congrArg (List.cons _) ih.1, congrArg (List.cons _) ih.2⟩

theorem exportable_of_exports (h : Sound crypto kek store)
    (hrows : List.Forall₂ (Exports crypto kek store.fpSalt) store.entries rows) :
    Exportable rows := by
  obtain ⟨hids, hnames⟩ := map_of_forall₂_exports hrows
  have hsealed : ∀ row ∈ rows, ∃ entry, Exports crypto kek store.fpSalt entry row := by
    generalize store.entries = entries at hrows
    clear hids hnames
    induction hrows with
    | nil => exact fun _ h => nomatch h
    | cons hrow _ ih => exact List.forall_mem_cons.mpr ⟨⟨_, hrow⟩, ih⟩
  refine ⟨fun row hrow => ?_, fun row hrow => ?_, hids ▸ h.ids, hnames ▸ h.envNames⟩
  · obtain ⟨entry, value, hvalue, rfl⟩ := hsealed row hrow
    exact validRow_exportRow hvalue
  · obtain ⟨entry, value, hvalue, rfl⟩ := hsealed row hrow
    exact hvalue.times

/-- **An export** is made, and decrypts to the rows. -/
theorem decrypt_create (h : Sound crypto kek store)
    (hrows : List.Forall₂ (Exports crypto kek store.fpSalt) store.entries rows)
    (hopen : openRows crypto store kek = some rows) {passphrase : Bytes}
    (hpassphrase : passphrase ≠ [])
    (hunlock : recoverVerifiedStoreKek crypto unwrapped store = some kek) (salt : FixedBytes 32)
    (iv : FixedBytes GCM_IV_LENGTH) :
    ∃ t, createEncryptedKeystoreExport crypto passphrase unwrapped salt iv
        (some (persistStore store)) = .ok t ∧
      decryptEncryptedKeystoreExport crypto t passphrase = .ok rows := by
  have hexportable := exportable_of_exports h hrows
  have hparse := Json.parse_bytesToText (normal_payloadJson hexportable)
  have hne : encodeUtf8 (payloadJson rows).stringify ≠ [] := by
    intro hnil
    rw [hnil] at hparse
    cases hparse
  rw [createEncryptedKeystoreExport, loadStore_persistStore h]
  dsimp only
  rw [if_neg hpassphrase, hunlock]
  dsimp only
  rw [hopen]
  refine ⟨_, rfl, ?_⟩
  rw [decryptEncryptedKeystoreExport, parseExportEnvelope_toJson iv.2 (crypto.length_tag _ _ _ _)
    (crypto.ciphertext_ne_nil _ _ _ hne)]
  dsimp only
  rw [if_neg hpassphrase, crypto.decrypt_encrypt]
  simp only [Option.bind_eq_bind, Option.bind_some, hparse,
    parseExportPayload_payloadJson hexportable]

/-! ## Restored rows -/

/-- Two rows answer alike. -/
def AnswersAs (crypto : Crypto) (kek kek' : FixedBytes 32) (fpSalt fpSalt' : Text)
    (entry entry' : StoredEntry) : Prop :=
  ∀ now envName, lookupRow? crypto kek' fpSalt' now envName entry'
    = lookupRow? crypto kek fpSalt now envName entry

theorem answersAs_sealEntry (h : SealedAs crypto kek fpSalt entry value) (kek' : FixedBytes 32)
    (fpSalt' : Text) (iv : FixedBytes GCM_IV_LENGTH) :
    SealedAs crypto kek' fpSalt' (sealEntry crypto (descriptorOf entry) value kek' fpSalt' iv) value ∧
      AnswersAs crypto kek kek' fpSalt fpSalt' entry
        (sealEntry crypto (descriptorOf entry) value kek' fpSalt' iv) := by
  have hsealed : SealedAs crypto kek' fpSalt'
      (sealEntry crypto (descriptorOf entry) value kek' fpSalt' iv) (toWellFormed value) := by
    refine sealedAs_sealEntry (fun fp hfp => ?_) h.times h.present
    have hrow := h.valid
    simp only [KeystoreEntryDescriptor.valid, Bool.and_eq_true] at hrow ⊢
    exact ⟨⟨⟨⟨⟨hrow.1.1.1.1.1, hfp⟩, hrow.1.1.1.2⟩, hrow.1.1.2⟩, hrow.1.2⟩, hrow.2⟩
  rw [h.wellFormed.toWellFormed_eq] at hsealed
  refine ⟨hsealed, fun now envName => ?_⟩
  rw [lookupRow?, lookupRow?, decryptEntryValue_of_sealedAs hsealed,
    decryptEntryValue_of_sealedAs h]
  rfl

theorem findSome?_of_forall₂ {fpSalt' : Text} {entries' : List StoredEntry}
    (h : List.Forall₂ (AnswersAs crypto kek kek' fpSalt fpSalt') entries entries') (now : Number)
    (envName : Text) :
    entries'.findSome? (lookupRow? crypto kek' fpSalt' now envName)
      = entries.findSome? (lookupRow? crypto kek fpSalt now envName) := by
  induction h with
  | nil => rfl
  | cons hrow _ ih => rw [List.findSome?_cons, List.findSome?_cons, hrow now envName, ih]

/-- **Restoring a row** into a store that has neither its id nor its name. -/
theorem restoreEntryFromExport_ok (custody : Custody) (h : Sound crypto kek store)
    (hrow : row.validRow = true)
    (hunlock : recoverVerifiedStoreKek crypto custody.unwrapped store = some kek)
    (hnew : (store.entries.any fun entry => entry.id = row.id || entry.envName = row.envName)
      = false) :
    restoreEntryFromExport crypto custody (some (persistStore store)) row
      = .ok (persistStore { store with entries := store.entries
          ++ [sealEntry crypto row.toKeystoreEntryDescriptor row.value kek store.fpSalt
            custody.iv] }) := by
  have hkey : unlockStoreForWrite crypto custody.unwrapped store = .ok kek :=
    (unlockStoreForWrite_eq_ok_iff h).mpr ⟨hunlock, rfl⟩
  rw [restoreEntryFromExport, if_pos hrow, openStoreForNewEntry, loadStore_persistStore h]
  dsimp only
  rw [hnew, hkey]
  rfl

/-- **Restoring all rows**, of which the store has neither id nor name. -/
theorem restoreAll_ok (created : NewCustody)
    (hrows : List.Forall₂ (Exports crypto kek fpSalt) entries rows)
    (hlength : ivs.length = rows.length) (hsound : Sound crypto kek' store)
    (hunlock : recoverVerifiedStoreKek crypto (some kek'.1) store = some kek')
    (hids : (store.entries.map (fun entry => entry.id) ++ rows.map fun row => row.id).Nodup)
    (hnames : (store.entries.map (fun entry => entry.envName)
      ++ rows.map fun row => row.envName).Nodup) :
    ∃ added, restoreAll crypto created kek' (ivs.zip rows) (some (persistStore store))
        = .ok (some (persistStore { store with entries := store.entries ++ added })) ∧
      Sound crypto kek' { store with entries := store.entries ++ added } ∧
      List.Forall₂ (AnswersAs crypto kek kek' fpSalt store.fpSalt) entries added := by
  induction hrows generalizing ivs store with
  | nil =>
    obtain rfl := List.eq_nil_of_length_eq_zero hlength
    refine ⟨[], ?_, ?_, .nil⟩
    · rw [List.zip_nil_left, restoreAll, List.append_nil]
    · rw [List.append_nil]
      exact hsound
  | @cons entry row entries rows hrow hrest ih =>
    cases ivs with
    | nil => cases hlength
    | cons iv ivs =>
      obtain ⟨value, hvalue, rfl⟩ := hrow
      have hnew : (store.entries.any fun other => other.id = (exportRow entry value).id
          || other.envName = (exportRow entry value).envName) = false := by
        rw [List.any_eq_false]
        intro other hother
        rw [List.nodup_append] at hids hnames
        simp only [Bool.or_eq_true, decide_eq_true_eq, not_or]
        exact ⟨hids.2.2 _ (List.mem_map_of_mem hother) _ List.mem_cons_self,
          hnames.2.2 _ (List.mem_map_of_mem hother) _ List.mem_cons_self⟩
      obtain ⟨hsealed, hanswers⟩ := answersAs_sealEntry hvalue kek' store.fpSalt iv
      have hfirst := restoreEntryFromExport_ok ⟨some kek'.1, created, iv⟩ hsound
        (validRow_exportRow hvalue) hunlock hnew
      obtain ⟨added, hall, hsound', hforall⟩ := ih (Nat.succ.inj hlength)
        (hsound.append ⟨value, hsealed⟩ hnew) hunlock
        (by rw [List.map_append, List.append_assoc]; exact hids)
        (by rw [List.map_append, List.append_assoc]; exact hnames)
      rw [List.append_assoc] at hall hsound'
      refine ⟨_ :: added, ?_, hsound', .cons hanswers hforall⟩
      rw [List.zip_cons_cons, restoreAll, hfirst]
      exact hall

/-- Where a run of restores may start: without a file, or from a store without rows whose key is
at hand. -/
def EmptyDestination (crypto : Crypto) (created : NewCustody) (kek : FixedBytes 32)
    (file : Option Text) : Prop :=
  match loadStore file with
  | .fresh => kek = created.kek
  | .unreadable => False
  | .loaded store _ =>
    store.entries = [] ∧ recoverVerifiedStoreKek crypto (some kek.1) store = some kek

theorem recoverVerifiedStoreKek_createStore (created : NewCustody) :
    recoverVerifiedStoreKek crypto (some created.kek.1) (createStore crypto created)
      = some created.kek := by
  show (if h : created.kek.1.length = 32 then _ else none) = _
  rw [dif_pos created.kek.2]
  exact if_pos rfl

theorem restoreEntryFromExport_none {custody : Custody}
    (hunlock : custody.unwrapped = some custody.created.kek.1) (hrow : row.validRow = true) :
    restoreEntryFromExport crypto custody none row
      = restoreEntryFromExport crypto custody
          (some (persistStore (createStore crypto custody.created))) row := by
  have hrecovered : recoverVerifiedStoreKek crypto custody.unwrapped
      (createStore crypto custody.created) = some custody.created.kek := by
    rw [hunlock]
    exact recoverVerifiedStoreKek_createStore custody.created
  rw [restoreEntryFromExport_ok custody (sound_createStore custody.created) hrow hrecovered rfl,
    restoreEntryFromExport, if_pos hrow]
  rfl

variable (h : Sound crypto kek store)

include h

theorem lookupByEnvNames_of_sound
    (hunlock : recoverVerifiedStoreKek crypto unwrapped store = some kek) (now : Number)
    (envNames : List Text) :
    lookupByEnvNames crypto unwrapped (some (persistStore store)) now envNames
      = if validTimestamp now then
          (envNames.filter ENV_NAME_PATTERN).findSome? fun envName =>
            store.entries.findSome? (lookupRow? crypto kek store.fpSalt now envName)
        else none := by
  rw [lookupByEnvNames, loadStore_persistStore h]
  dsimp only
  rw [hunlock]
  rfl

/-- **Restored rows answer** as the original ones do, from a store without rows. -/
theorem lookup_restoreAll_of_sound
    (hrows : List.Forall₂ (Exports crypto kek store.fpSalt) store.entries rows)
    (hunlock : recoverVerifiedStoreKek crypto unwrapped store = some kek) (created : NewCustody)
    {store' : StoredKeystore} (hsound : Sound crypto kek' store') (hentries : store'.entries = [])
    (hunlock' : recoverVerifiedStoreKek crypto (some kek'.1) store' = some kek')
    (hlength : ivs.length = rows.length) :
    ∃ restored, restoreAll crypto created kek' (ivs.zip rows) (some (persistStore store'))
        = .ok restored ∧
      ∀ now envNames, lookupByEnvNames crypto (some kek'.1) restored now envNames
        = lookupByEnvNames crypto unwrapped (some (persistStore store)) now envNames := by
  have hexportable := exportable_of_exports h hrows
  obtain ⟨added, hall, hsound'', hanswers⟩ := restoreAll_ok created hrows hlength hsound hunlock'
    (by rw [hentries]; exact hexportable.ids) (by rw [hentries]; exact hexportable.envNames)
  refine ⟨_, hall, fun now envNames => ?_⟩
  rw [hentries, List.nil_append] at hsound'' ⊢
  have hunlock'' : recoverVerifiedStoreKek crypto (some kek'.1) { store' with entries := added }
      = some kek' := hunlock'
  rw [lookupByEnvNames_of_sound hsound'' hunlock'', lookupByEnvNames_of_sound h hunlock]
  simp only [findSome?_of_forall₂ hanswers]

/-- **Restored rows answer** as the original ones do. -/
theorem lookup_restoreAll
    (hrows : List.Forall₂ (Exports crypto kek store.fpSalt) store.entries rows)
    (hunlock : recoverVerifiedStoreKek crypto unwrapped store = some kek) {created : NewCustody}
    {destination : Option Text} (hdestination : Holds crypto destination)
    (hempty : EmptyDestination crypto created kek' destination)
    (hlength : ivs.length = rows.length) :
    ∃ restored, restoreAll crypto created kek' (ivs.zip rows) destination = .ok restored ∧
      ∀ now envNames, lookupByEnvNames crypto (some kek'.1) restored now envNames
        = lookupByEnvNames crypto unwrapped (some (persistStore store)) now envNames := by
  cases destination with
  | none =>
    obtain rfl : kek' = created.kek := hempty
    have hcreated := lookup_restoreAll_of_sound h hrows hunlock created
      (sound_createStore created) rfl (recoverVerifiedStoreKek_createStore created) hlength
    cases rows with
    | nil =>
      -- nothing is restored, and there is nothing to be found
      obtain rfl := List.eq_nil_of_length_eq_zero hlength
      refine ⟨none, rfl, fun now envNames => ?_⟩
      have hnil : store.entries = [] := List.forall₂_nil_right_iff.mp hrows
      rw [lookupByEnvNames_of_sound h hunlock, hnil]
      split_ifs
      · exact (List.findSome?_eq_none_iff.mpr fun _ _ => rfl).symm
      · rfl
    | cons row rows =>
      cases ivs with
      | nil => cases hlength
      | cons iv ivs =>
        have hrow := (exportable_of_exports h hrows).valid row List.mem_cons_self
        rw [List.zip_cons_cons, restoreAll] at hcreated ⊢
        rw [restoreEntryFromExport_none rfl hrow]
        exact hcreated
  | some t =>
    obtain ⟨kek₀, store₀, rfl, hsound⟩ := hdestination t rfl
    rw [EmptyDestination, loadStore_persistStore hsound] at hempty
    obtain ⟨hentries, hunlock'⟩ := hempty
    obtain rfl := recoverVerifiedStoreKek_eq hsound hunlock'
    exact lookup_restoreAll_of_sound h hrows hunlock created hsound hentries hunlock' hlength

omit h

/-! ## The round trip -/

/-- **The round trip.** An export of a keystore that writes have left is decrypted to every row with
its value; restored into a keystore without rows, they answer as the original ones do. The
associated data tell admitted identities apart, and no row opens under another identity. -/
theorem export_round_trip (crypto : Crypto) {file : Option Text} (hreach : Reachable crypto file)
    {store : StoredKeystore} {droppedCount : Nat} (hload : loadStore file = .loaded store droppedCount)
    {unwrapped : Option Bytes} {kek : FixedBytes 32}
    (hunlock : recoverVerifiedStoreKek crypto unwrapped store = some kek) {passphrase : Bytes}
    (hpassphrase : passphrase ≠ []) (salt : FixedBytes 32) (iv : FixedBytes GCM_IV_LENGTH) :
    (∃ t rows, createEncryptedKeystoreExport crypto passphrase unwrapped salt iv file = .ok t ∧
      decryptEncryptedKeystoreExport crypto t passphrase = .ok rows ∧
      List.Forall₂ (fun entry row => row.toKeystoreEntryDescriptor = descriptorOf entry ∧
        decryptEntryValue crypto entry kek store.fpSalt = some row.value) store.entries rows ∧
      ∀ created kek' destination, Reachable crypto destination →
        EmptyDestination crypto created kek' destination →
        ∀ ivs : List (FixedBytes GCM_IV_LENGTH), ivs.length = rows.length →
          ∃ restored, restoreAll crypto created kek' (ivs.zip rows) destination = .ok restored ∧
            ∀ now envNames, lookupByEnvNames crypto (some kek'.1) restored now envNames
              = lookupByEnvNames crypto unwrapped file now envNames) ∧
    (∀ identity identity' : Identity, identity.Admitted → identity'.Admitted →
      identity.aad = identity'.aad → identity = identity') ∧
    ∀ entry ∈ store.entries, ∀ identity : Identity, identity.Admitted →
      identity ≠ entry.identity →
        decryptEntryValue crypto (entry.movedTo identity) kek store.fpSalt = none := by
  cases file with
  | none => cases hload
  | some file =>
    obtain ⟨kek₀, store₀, rfl, hsound⟩ := holds_of_reachable hreach file rfl
    rw [loadStore_persistStore hsound] at hload
    cases hload
    obtain rfl := recoverVerifiedStoreKek_eq hsound hunlock
    refine ⟨?_, fun _ _ => aad_inj, fun entry hentry identity hadmitted hne => ?_⟩
    · obtain ⟨rows, hopen, hrows⟩ := openRows_of_sound hsound
      obtain ⟨t, hcreate, hdecrypt⟩ :=
        decrypt_create hsound hrows hopen hpassphrase hunlock salt iv
      refine ⟨t, rows, hcreate, hdecrypt, hrows.imp ?_, ?_⟩
      · rintro entry row ⟨value, hvalue, rfl⟩
        exact ⟨rfl, decryptEntryValue_of_sealedAs hvalue⟩
      · intro created kek' destination hdestination hempty ivs hlength
        exact lookup_restoreAll hsound hrows hunlock (holds_of_reachable hdestination) hempty
          hlength
    · obtain ⟨value, hvalue⟩ := hsound.rows entry hentry
      rw [decryptEntryValue, decryptEntryBytes_moved hvalue hadmitted hne, Option.map_none]

/-- A key ring whose key is zeros. -/
def zeroCustody : Custody where
  unwrapped := some (List.replicate 32 0)
  created :=
    { kek := ⟨List.replicate 32 0, rfl⟩
      descriptor := .keychain
      fpSalt := ⟨List.replicate 32 1, rfl⟩
      itemId := ⟨List.replicate 16 2, rfl⟩ }
  iv := ⟨List.replicate 12 3, rfl⟩

/-- The keystore with one row. -/
def oneRow : StoredKeystore :=
  let created := createStore Crypto.ideal zeroCustody.created
  let d : KeystoreEntryDescriptor :=
    { id := text "openai#main"
      provider := text "openai"
      envName := text "OPENAI_API_KEY"
      fingerprint := []
      addedAt := 0
      rotatedAt := none
      expiresAt := none
      revokedAt := none
      disabled := false }
  { created with entries := [sealEntry Crypto.ideal d (text "sk-1") zeroCustody.created.kek
      created.fpSalt zeroCustody.iv] }

theorem addEntry_oneRow :
    addEntry Crypto.ideal zeroCustody 0 none (text "openai#main") (text "openai")
      (text "OPENAI_API_KEY") (text "sk-1") none = .ok (persistStore oneRow) := by
  have hidentity : validateEntryIdentity (text "openai#main") (text "openai")
      (text "OPENAI_API_KEY") = .ok () := by rfl
  have hvalue : validateValue (text "sk-1") = .ok () := by rfl
  have htime : writeTime 0 = .ok 0 := by
    rw [writeTime, if_pos (by decide +kernel)]
  rw [addEntry]
  rfl

theorem isJsNumber_zero : IsJsNumber 0 := by
  intro q hq
  cases hq
  exact isDouble_natCast (Nat.zero_le _)

theorem reachable_oneRow : Reachable Crypto.ideal (some (persistStore oneRow)) :=
  .single (.add isJsNumber_zero (fun _ hx => by cases hx) addEntry_oneRow)

theorem loadStore_oneRow : loadStore (some (persistStore oneRow)) = .loaded oneRow 0 := by
  refine loadStore_persistStore ((sound_createStore zeroCustody.created).append
    ⟨_, sealedAs_sealEntry (fun fp hfp => ?_) (fun x hx => ?_) rfl⟩ rfl)
  · have hzero : validTimestamp 0 = true := by decide +kernel
    rw [KeystoreEntryDescriptor.valid, hfp]
    rfl
  · rw [List.mem_singleton.mp hx]
    exact isJsNumber_zero

theorem export_round_trip_one_row :
    ∃ t rows, createEncryptedKeystoreExport Crypto.ideal [0x70] zeroCustody.unwrapped
        ⟨List.replicate 32 4, rfl⟩ ⟨List.replicate 12 5, rfl⟩ (some (persistStore oneRow)) = .ok t ∧
      decryptEncryptedKeystoreExport Crypto.ideal t [0x70] = .ok rows ∧
      List.Forall₂ (fun entry row => decryptEntryValue Crypto.ideal entry zeroCustody.created.kek
        oneRow.fpSalt = some row.value) oneRow.entries rows := by
  obtain ⟨⟨t, rows, hcreate, hdecrypt, hrows, -⟩, -⟩ := export_round_trip Crypto.ideal
    reachable_oneRow loadStore_oneRow (recoverVerifiedStoreKek_createStore zeroCustody.created)
    (List.cons_ne_nil 0x70 []) ⟨List.replicate 32 4, rfl⟩ ⟨List.replicate 12 5, rfl⟩
  exact ⟨t, rows, hcreate, hdecrypt, hrows.imp fun _ _ h => h.2⟩

end LlmRelay.Keystore
