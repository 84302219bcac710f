import LlmRelay.Ecma.Base64
import LlmRelay.Ecma.JsonAssignment
import LlmRelay.Ecma.JsonFiles
import LlmRelay.Facts.Scope
import LlmRelay.Keystore.Cipher

/-!
# The keystore

Credentials rest in one file, each value sealed under the key of the store and bound to the
identity of its row (`keystore.ts`). What the key ring or the passphrase gives for the key, and the
random bytes, are arguments; a write replaces the file.

## Main definitions

* `StoredEntry`, `StoredKeystore`: a row, and what a file holds;
* `parseStore`, `loadStore`: the rows of a file that are valid;
* `encryptEntryValue`, `decryptEntryValue`: a value sealed in a row, and opened;
* `lookupByEnvNames`: the value of the first usable row of the names;
* `addEntry`, `rotateEntry`, `revokeEntry`, `removeEntry`, `setDisabled`: the writes.
-/

namespace LlmRelay.Keystore

open Ecma Cipher Facts

def STORE_VERSION : Nat := 1

def GCM_TAG_LENGTH : Nat := 16

def GCM_IV_LENGTH : Nat := 12

def FINGERPRINT_SALT_LENGTH : Nat := 32

def ITEM_ID_LENGTH : Nat := 16

/-! ## Patterns -/

/-- A code unit of `[A-Za-z0-9_]`. -/
def isWordUnit (c : CodeUnit) : Bool :=
  (decide (0x41 ≤ c) && decide (c ≤ 0x5A)) || (decide (0x61 ≤ c) && decide (c ≤ 0x7A))
    || (decide (0x30 ≤ c) && decide (c ≤ 0x39)) || c == 0x5F

def isLowerHexUnit (c : CodeUnit) : Bool :=
  (decide (0x30 ≤ c) && decide (c ≤ 0x39)) || (decide (0x61 ≤ c) && decide (c ≤ 0x66))

/-- `/^[A-Za-z_][A-Za-z0-9_]{0,127}$/`. -/
def ENV_NAME_PATTERN (t : Text) : Bool :=
  match t with
  | [] => false
  | c :: rest =>
    isWordUnit c && !(decide (0x30 ≤ c) && decide (c ≤ 0x39)) && decide (rest.length ≤ 127)
      && rest.all isWordUnit

/-- `/^[A-Za-z0-9_.-]{1,64}$/`. -/
def PROVIDER_PATTERN (t : Text) : Bool :=
  decide (1 ≤ t.length) && decide (t.length ≤ 64) && t.all isLabelUnit

/-- `/^hmac:[0-9a-f]{8}$/`. -/
def FINGERPRINT_PATTERN (t : Text) : Bool :=
  t.startsWith (text "hmac:") && decide ((t.drop 5).length = 8) && (t.drop 5).all isLowerHexUnit

/-- `/^[0-9a-f]{32}$/`. -/
def ITEM_ID_PATTERN (t : Text) : Bool :=
  decide (t.length = 32) && t.all isLowerHexUnit

/-- `/^[0-9a-f]{64}$/`. -/
def KEK_CHECK_PATTERN (t : Text) : Bool :=
  decide (t.length = 64) && t.all isLowerHexUnit

def keyIsPresent (value : Text) : Bool :=
  value.trim != []

def validTimestamp (x : Number) : Bool :=
  x.isFinite && Number.le 0 x

/-! ## Rows -/

structure KeystoreEntryDescriptor where
  id : Text
  provider : Text
  envName : Text
  fingerprint : Text
  addedAt : Number
  rotatedAt : Option Number
  expiresAt : Option Number
  revokedAt : Option Number
  disabled : Bool
  deriving DecidableEq

structure StoredEntry extends KeystoreEntryDescriptor where
  ct : Text
  iv : Text
  tag : Text
  deriving DecidableEq

/-- `hasExactKeysWithOptional` without optional keys. -/
def hasExactKeysWithOptional (value : Json) (requiredKeys : List String) : Bool :=
  match value with
  | .obj fields =>
    requiredKeys.all (fun key => (value.get? (text key)).isSome)
      && fields.all fun p => (requiredKeys.map text).contains p.1
  | _ => false

/-- A number or `null`. -/
def nullableNumber? : Option Json → Option (Option Number)
  | some .null => some none
  | some (.num x) => some (some x)
  | _ => none

def bool? : Option Json → Option Bool
  | some (.bool b) => some b
  | _ => none

/-- The properties that a stored row and an exported one share, by their types. -/
def descriptor? (value : Json) : Option KeystoreEntryDescriptor := do
  let id ← Json.string? (value.get? (text "id"))
  let provider ← Json.string? (value.get? (text "provider"))
  let envName ← Json.string? (value.get? (text "envName"))
  let fingerprint ← Json.string? (value.get? (text "fingerprint"))
  let addedAt ← Json.number? (value.get? (text "addedAt"))
  let rotatedAt ← nullableNumber? (value.get? (text "rotatedAt"))
  let expiresAt ← nullableNumber? (value.get? (text "expiresAt"))
  let revokedAt ← nullableNumber? (value.get? (text "revokedAt"))
  let disabled ← bool? (value.get? (text "disabled"))
  return { id, provider, envName, fingerprint, addedAt, rotatedAt, expiresAt, revokedAt, disabled }

/-- The checks that both validators make of them. -/
def KeystoreEntryDescriptor.valid (d : KeystoreEntryDescriptor) : Bool :=
  (Facts.parseCredentialId d.id).any (fun parts => parts.1 = d.provider)
    && PROVIDER_PATTERN d.provider
    && ENV_NAME_PATTERN d.envName
    && FINGERPRINT_PATTERN d.fingerprint
    && validTimestamp d.addedAt
    && d.rotatedAt.all validTimestamp
    && d.expiresAt.all validTimestamp
    && d.revokedAt.all validTimestamp

def STORED_ENTRY_KEYS : List String :=
  ["id", "provider", "envName", "ct", "iv", "tag", "fingerprint", "addedAt", "rotatedAt",
    "expiresAt", "revokedAt", "disabled"]

def StoredEntry.hasCiphertext (entry : StoredEntry) : Bool :=
  ((decodeBase64 entry.ct none).any fun ct => ct != [])
    && (decodeBase64 entry.iv (some GCM_IV_LENGTH)).isSome
    && (decodeBase64 entry.tag (some GCM_TAG_LENGTH)).isSome

/-- The row, where the value is one. -/
def validStoredEntry (value : Json) : Option StoredEntry := do
  guard (hasExactKeysWithOptional value STORED_ENTRY_KEYS)
  let d ← descriptor? value
  let ct ← Json.string? (value.get? (text "ct"))
  let iv ← Json.string? (value.get? (text "iv"))
  let tag ← Json.string? (value.get? (text "tag"))
  let entry : StoredEntry := { d with ct, iv, tag }
  guard (d.valid && entry.hasCiphertext)
  return entry

def descriptorOf (entry : StoredEntry) : KeystoreEntryDescriptor where
  id := entry.id
  provider := entry.provider
  envName := entry.envName
  fingerprint := entry.fingerprint
  addedAt := entry.addedAt
  rotatedAt := entry.rotatedAt
  expiresAt := entry.expiresAt
  revokedAt := entry.revokedAt
  disabled := entry.disabled

/-! ## Stores -/

/-- How the key of the store is kept. -/
inductive KekDescriptor where
  | dpapi (blob : { blob : Bytes // blob ≠ [] })
  | keychain
  | libsecret
  | passphrase (salt : FixedBytes 32)

structure StoredKeystore where
  kek : KekDescriptor
  fpSalt : Text
  itemId : Text
  kekCheck : Text
  entries : List StoredEntry

/-- The parameters that a passphrase is hashed with. -/
def kdfJson (salt : FixedBytes 32) : Json :=
  .ofProperties [("n", some (.ofNat 16384)), ("r", some (.ofNat 8)), ("p", some (.ofNat 1)),
    ("salt", some (.str (toBase64 salt.1)))]

/-- The salt, where the parameters are those. -/
def validKdf (kdf : Option Json) : Option (FixedBytes 32) := do
  let kdf ← kdf
  guard (hasExactKeysWithOptional kdf ["n", "r", "p", "salt"]
    && kdf.get? (text "n") = some (.ofNat 16384)
    && kdf.get? (text "r") = some (.ofNat 8)
    && kdf.get? (text "p") = some (.ofNat 1))
  let salt ← (Json.string? (kdf.get? (text "salt"))).bind fun salt => decodeBase64 salt (some 32)
  if h : salt.length = 32 then some ⟨salt, h⟩ else none

def KekDescriptor.toJson : KekDescriptor → Json
  | .dpapi blob =>
    .ofProperties [("wrap", some (.ofString "dpapi")), ("blob", some (.str (toBase64 blob.1)))]
  | .keychain => .ofProperties [("wrap", some (.ofString "keychain"))]
  | .libsecret => .ofProperties [("wrap", some (.ofString "libsecret"))]
  | .passphrase salt =>
    .ofProperties [("wrap", some (.ofString "passphrase")), ("kdf", some (kdfJson salt))]

/-- The descriptor, where the value is one. -/
def validKekDescriptor (value : Json) : Option KekDescriptor :=
  if value.get? (text "wrap") = some (.ofString "dpapi") then do
    guard (hasExactKeysWithOptional value ["wrap", "blob"])
    let blob ← (Json.string? (value.get? (text "blob"))).bind fun blob => decodeBase64 blob none
    if h : blob ≠ [] then some (.dpapi ⟨blob, h⟩) else none
  else if value.get? (text "wrap") = some (.ofString "keychain") then
    if hasExactKeysWithOptional value ["wrap"] then some .keychain else none
  else if value.get? (text "wrap") = some (.ofString "libsecret") then
    if hasExactKeysWithOptional value ["wrap"] then some .libsecret else none
  else if value.get? (text "wrap") = some (.ofString "passphrase") then
    if hasExactKeysWithOptional value ["wrap", "kdf"] then
      (validKdf (value.get? (text "kdf"))).map .passphrase
    else none
  else none

/-- A row is kept when it is valid and shares neither its id nor its name with one before it. -/
def keepEntry (kept : List StoredEntry × Nat) (candidate : Json) : List StoredEntry × Nat :=
  match validStoredEntry candidate with
  | none => (kept.1, kept.2 + 1)
  | some entry =>
    if kept.1.any fun other => other.id = entry.id || other.envName = entry.envName then
      (kept.1, kept.2 + 1)
    else (kept.1 ++ [entry], kept.2)

/-- The store, and how many rows are dropped. -/
def parseStore (raw : Json) : Option (StoredKeystore × Nat) := do
  guard (hasExactKeysWithOptional raw ["version", "kek", "fpSalt", "itemId", "kekCheck", "entries"])
  guard (raw.get? (text "version") = some (.ofNat STORE_VERSION))
  let kek ← (raw.get? (text "kek")).bind validKekDescriptor
  let fpSalt ← Json.string? (raw.get? (text "fpSalt"))
  let itemId ← Json.string? (raw.get? (text "itemId"))
  let kekCheck ← Json.string? (raw.get? (text "kekCheck"))
  let candidates ← Json.array? (raw.get? (text "entries"))
  guard ((decodeBase64 fpSalt (some FINGERPRINT_SALT_LENGTH)).isSome && ITEM_ID_PATTERN itemId
    && KEK_CHECK_PATTERN kekCheck)
  let kept := candidates.foldl keepEntry ([], 0)
  return ({ kek, fpSalt, itemId, kekCheck, entries := kept.1 }, kept.2)

inductive StoreLoadResult where
  | fresh
  | unreadable
  | loaded (store : StoredKeystore) (droppedCount : Nat)

/-- What is read from the file, if there is one. -/
def loadStore : Option Text → StoreLoadResult
  | none => .fresh
  | some serialized =>
    match (Json.parse serialized).bind parseStore with
    | none => .unreadable
    | some (store, droppedCount) => .loaded store droppedCount

/-- A time that may be absent. -/
def nullableJson (x : Option Number) : Json :=
  (x.map Json.num).getD .null

def StoredEntry.toJson (entry : StoredEntry) : Json :=
  .ofProperties [("id", some (.str entry.id)), ("provider", some (.str entry.provider)),
    ("envName", some (.str entry.envName)), ("ct", some (.str entry.ct)),
    ("iv", some (.str entry.iv)), ("tag", some (.str entry.tag)),
    ("fingerprint", some (.str entry.fingerprint)), ("addedAt", some (.num entry.addedAt)),
    ("rotatedAt", some (nullableJson entry.rotatedAt)),
    ("expiresAt", some (nullableJson entry.expiresAt)),
    ("revokedAt", some (nullableJson entry.revokedAt)), ("disabled", some (.bool entry.disabled))]

def StoredKeystore.toJson (store : StoredKeystore) : Json :=
  .ofProperties [("version", some (.ofNat STORE_VERSION)), ("kek", some store.kek.toJson),
    ("fpSalt", some (.str store.fpSalt)), ("itemId", some (.str store.itemId)),
    ("kekCheck", some (.str store.kekCheck)),
    ("entries", some (.arr (store.entries.map StoredEntry.toJson)))]

/-- `persistStore`: what the file holds afterwards. -/
def persistStore (store : StoredKeystore) : Text :=
  store.toJson.stringifyIndented 2 ++ [lf]

/-! ## Sealing -/

/-- A value as a row holds it. -/
structure SealedValue where
  ct : Text
  iv : Text
  tag : Text
  fingerprint : Text

variable (crypto : Crypto)

def fingerprint (value : Bytes) (kek : FixedBytes 32) (fpSalt : Text) : Text :=
  text "hmac:" ++ (crypto.hmacHex kek.1 (fromBase64 fpSalt ++ value)).take 8

def aad (provider entryId envName : Text) : Bytes :=
  encodeUtf8 (Number.natText STORE_VERSION ++ text "|" ++ provider ++ text "|" ++ entryId ++ text "|"
    ++ envName)

def encryptEntryValue (value provider entryId envName : Text) (kek : FixedBytes 32) (fpSalt : Text)
    (iv : FixedBytes GCM_IV_LENGTH) : SealedValue :=
  let plaintext := encodeUtf8 value
  let box := crypto.encrypt kek.1 iv.1 (aad provider entryId envName) plaintext
  { ct := toBase64 box.1
    iv := toBase64 iv.1
    tag := toBase64 box.2
    fingerprint := fingerprint crypto plaintext kek fpSalt }

def decryptEntryBytes (entry : StoredEntry) (kek : FixedBytes 32) (fpSalt : Text) : Option Bytes := do
  let ct ← decodeBase64 entry.ct none
  let iv ← decodeBase64 entry.iv (some GCM_IV_LENGTH)
  let tag ← decodeBase64 entry.tag (some GCM_TAG_LENGTH)
  let plaintext ← crypto.decrypt kek.1 iv (aad entry.provider entry.id entry.envName) ct tag
  if fingerprint crypto plaintext kek fpSalt = entry.fingerprint then some plaintext else none

def decryptEntryValue (entry : StoredEntry) (kek : FixedBytes 32) (fpSalt : Text) : Option Text :=
  (decryptEntryBytes crypto entry kek fpSalt).map bytesToText

def entryAuthenticates (entry : StoredEntry) (kek : FixedBytes 32) (fpSalt : Text) : Bool :=
  (decryptEntryBytes crypto entry kek fpSalt).isSome

def KEK_CHECK_CONTEXT : Text := text "llm-relay-kek-v1"

def calculateKekCheck (kek : FixedBytes 32) : Text :=
  crypto.hmacHex kek.1 (encodeUtf8 KEK_CHECK_CONTEXT)

/-- The key of the store, where what was unwrapped is it. -/
def recoverVerifiedStoreKek (unwrapped : Option Bytes) (store : StoredKeystore) :
    Option (FixedBytes 32) := do
  let kek ← unwrapped
  if h : kek.length = 32 then
    if calculateKekCheck crypto ⟨kek, h⟩ = store.kekCheck then some ⟨kek, h⟩ else none
  else none

/-! ## Looking up -/

structure KeystoreCandidateLookup where
  envName : Text
  value : Text
  entryId : Text
  provider : Text
  deriving DecidableEq

/-- The row may be used. -/
def StoredEntry.usable (entry : StoredEntry) (now : Number) : Bool :=
  !entry.disabled && entry.revokedAt.isNone && !entry.expiresAt.any fun expiresAt => Number.le expiresAt now

/-- What one row answers for a name. -/
def lookupRow? (kek : FixedBytes 32) (fpSalt : Text) (now : Number) (envName : Text)
    (entry : StoredEntry) : Option KeystoreCandidateLookup :=
  if entry.envName = envName && entry.usable now then
    ((decryptEntryValue crypto entry kek fpSalt).filter keyIsPresent).map fun value =>
      { envName, value, entryId := entry.id, provider := entry.provider }
  else none

/-- Without a usable row no key is recovered, and without a key nothing is answered. -/
def lookupByEnvNames (unwrapped : Option Bytes) (file : Option Text) (now : Number)
    (envNames : List Text) : Option KeystoreCandidateLookup :=
  match loadStore file with
  | .loaded store _ =>
    if validTimestamp now then
      (recoverVerifiedStoreKek crypto unwrapped store).bind fun kek =>
        (envNames.filter ENV_NAME_PATTERN).findSome? fun envName =>
          store.entries.findSome? (lookupRow? crypto kek store.fpSalt now envName)
    else none
  | _ => none

/-! ## Writing -/

inductive KeystoreError where
  | validation (classification : Text)
  | exists
  | notFound
  | read
  | unlock
  | export
  | passphraseRequired
  | unreadable
  | degraded (droppedCount : Nat)
  deriving DecidableEq

/-- What creating a store draws and the key ring gives. -/
structure NewCustody where
  kek : FixedBytes 32
  descriptor : KekDescriptor
  fpSalt : FixedBytes FINGERPRINT_SALT_LENGTH
  itemId : FixedBytes ITEM_ID_LENGTH

/-- What a write gets from outside the file: what is unwrapped, what is created where there is no
file, and a drawn vector. -/
structure Custody where
  unwrapped : Option Bytes
  created : NewCustody
  iv : FixedBytes GCM_IV_LENGTH

def createStore (created : NewCustody) : StoredKeystore :=
  { kek := created.descriptor
    fpSalt := toBase64 created.fpSalt.1
    itemId := hexText created.itemId.1
    kekCheck := calculateKekCheck crypto created.kek
    entries := [] }

def cryptographicallyUnreadableCount (store : StoredKeystore) (kek : FixedBytes 32) : Nat :=
  (store.entries.filter fun entry => !entryAuthenticates crypto entry kek store.fpSalt).length

def unlockStoreForWrite (unwrapped : Option Bytes) (store : StoredKeystore) :
    Except KeystoreError (FixedBytes 32) :=
  match recoverVerifiedStoreKek crypto unwrapped store with
  | none => .error .unlock
  | some kek =>
    if 0 < cryptographicallyUnreadableCount crypto store kek then
      .error (.degraded (cryptographicallyUnreadableCount crypto store kek))
    else .ok kek

/-- A store that cannot be unlocked may still be cleaned up. -/
def refuseCryptographicDegradationWhenUnlockable (unwrapped : Option Bytes)
    (store : StoredKeystore) : Except KeystoreError Unit :=
  match recoverVerifiedStoreKek crypto unwrapped store with
  | none => .ok ()
  | some kek =>
    if 0 < cryptographicallyUnreadableCount crypto store kek then
      .error (.degraded (cryptographicallyUnreadableCount crypto store kek))
    else .ok ()

/-- The store a row is added to, and its key. -/
def openStoreForNewEntry (custody : Custody) (file : Option Text) (id envName : Text) :
    Except KeystoreError (StoredKeystore × FixedBytes 32) :=
  match loadStore file with
  | .unreadable => .error .unreadable
  | .loaded store droppedCount =>
    if 0 < droppedCount then .error (.degraded droppedCount)
    else if store.entries.any fun entry => entry.id = id || entry.envName = envName then
      .error .exists
    else (unlockStoreForWrite crypto custody.unwrapped store).map fun kek => (store, kek)
  | .fresh => .ok (createStore crypto custody.created, custody.created.kek)

def requireStoreForMutation (file : Option Text) : Except KeystoreError StoredKeystore :=
  match loadStore file with
  | .fresh => .error .notFound
  | .unreadable => .error .unreadable
  | .loaded store droppedCount =>
    if 0 < droppedCount then .error (.degraded droppedCount) else .ok store

/-- A row with its value sealed. -/
def sealEntry (d : KeystoreEntryDescriptor) (value : Text) (kek : FixedBytes 32) (fpSalt : Text)
    (iv : FixedBytes GCM_IV_LENGTH) : StoredEntry :=
  let box := encryptEntryValue crypto value d.provider d.id d.envName kek fpSalt iv
  { d with fingerprint := box.fingerprint, ct := box.ct, iv := box.iv, tag := box.tag }

def validateEntryIdentity (id provider envName : Text) : Except KeystoreError Unit :=
  match Facts.parseCredentialId id with
  | none => .error (.validation (text "id"))
  | some parts =>
    if PROVIDER_PATTERN provider = false then .error (.validation (text "provider"))
    else if parts.1 ≠ provider then .error (.validation (text "provider"))
    else if ENV_NAME_PATTERN envName = false then .error (.validation (text "envName"))
    else .ok ()

def validateValue (value : Text) : Except KeystoreError Unit :=
  if keyIsPresent value then .ok () else .error (.validation (text "value"))

def validateExpiresAt (value : Option Number) : Except KeystoreError Unit :=
  if value.all validTimestamp then .ok () else .error (.validation (text "timestamp"))

def writeTime (now : Number) : Except KeystoreError Number :=
  if validTimestamp now then .ok now else .error (.validation (text "timestamp"))

def addEntry (custody : Custody) (now : Number) (file : Option Text)
    (id provider envName value : Text) (expiresAt : Option Number) : Except KeystoreError Text := do
  validateEntryIdentity id provider envName
  validateValue value
  validateExpiresAt expiresAt
  let now ← writeTime now
  let (store, kek) ← openStoreForNewEntry crypto custody file id envName
  let d : KeystoreEntryDescriptor :=
    { id := id
      provider := provider
      envName := envName
      fingerprint := []
      addedAt := now
      rotatedAt := none
      expiresAt := expiresAt
      revokedAt := none
      disabled := false }
  let entry := sealEntry crypto d value kek store.fpSalt custody.iv
  return persistStore { store with entries := store.entries ++ [entry] }

/-- The rows with the first one of an id changed. -/
def editEntry (store : StoredKeystore) (entryId : Text) (edit : StoredEntry → StoredEntry) :
    Except KeystoreError StoredKeystore :=
  match store.entries.findIdx? fun entry => entry.id = entryId with
  | none => .error .notFound
  | some i => .ok { store with entries := store.entries.modify i edit }

def requireId (entryId : Text) : Except KeystoreError Unit :=
  if (Facts.parseCredentialId entryId).isSome then .ok () else .error (.validation (text "id"))

/-- `expiresAt` is the new expiry, if one is given. -/
def rotateEntry (custody : Custody) (now : Number) (file : Option Text) (entryId value : Text)
    (expiresAt : Option (Option Number)) : Except KeystoreError Text := do
  requireId entryId
  validateValue value
  validateExpiresAt (expiresAt.getD none)
  let now ← writeTime now
  let store ← requireStoreForMutation file
  if store.entries.any fun entry => entry.id = entryId then
    let kek ← unlockStoreForWrite crypto custody.unwrapped store
    let store ← editEntry store entryId fun entry =>
      let d := { entry.toKeystoreEntryDescriptor with
                  rotatedAt := some now
                  revokedAt := none
                  expiresAt := expiresAt.getD entry.expiresAt }
      sealEntry crypto d value kek store.fpSalt custody.iv
    return persistStore store
  else .error .notFound

def revokeEntry (custody : Custody) (now : Number) (file : Option Text) (entryId : Text) :
    Except KeystoreError Text := do
  requireId entryId
  let now ← writeTime now
  let store ← requireStoreForMutation file
  let revoked ← editEntry store entryId fun entry => { entry with revokedAt := some now }
  refuseCryptographicDegradationWhenUnlockable crypto custody.unwrapped store
  return persistStore revoked

def removeEntry (custody : Custody) (file : Option Text) (entryId : Text) :
    Except KeystoreError Text := do
  requireId entryId
  let store ← requireStoreForMutation file
  match store.entries.findIdx? fun entry => entry.id = entryId with
  | none => .error .notFound
  | some i =>
    refuseCryptographicDegradationWhenUnlockable crypto custody.unwrapped store
    return persistStore { store with entries := store.entries.eraseIdx i }

def setDisabled (custody : Custody) (file : Option Text) (entryId : Text) (disabled : Bool) :
    Except KeystoreError Text := do
  requireId entryId
  let store ← requireStoreForMutation file
  let edited ← editEntry store entryId fun entry => { entry with disabled := disabled }
  refuseCryptographicDegradationWhenUnlockable crypto custody.unwrapped store
  return persistStore edited

end LlmRelay.Keystore
