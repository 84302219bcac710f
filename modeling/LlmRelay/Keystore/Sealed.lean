import LlmRelay.Keystore.Store

/-!
# What rests in a keystore

Every file that the writes leave holds one store whose rows are sealed under its key, each with a
value that is present, and none with the id or the name of another. Such a file is loaded as it was
written, and every one of its rows opens.

## Main definitions

* `SealedAs`: the row holds a value;
* `Sound`: what holds of a store that was written.

## Main results

* `loadStore_persistStore`: a store is loaded as it was written;
* `decryptEntryValue_of_sealedAs`: a row opens with its value.
-/

namespace LlmRelay.Keystore

open Ecma Cipher Facts

variable (crypto : Crypto)

/-- A number of the language. -/
def IsJsNumber (x : Number) : Prop :=
  ∀ q, x = .fin q → IsDouble q

/-- The times of a row. -/
def KeystoreEntryDescriptor.times (d : KeystoreEntryDescriptor) : List Number :=
  d.addedAt :: (d.rotatedAt.toList ++ d.expiresAt.toList ++ d.revokedAt.toList)

/-- The row is valid and holds the value. -/
structure SealedAs (kek : FixedBytes 32) (fpSalt : Text) (entry : StoredEntry) (value : Text) :
    Prop where
  valid : entry.valid = true
  times : ∀ x ∈ entry.times, IsJsNumber x
  present : keyIsPresent value = true
  wellFormed : WellFormed value
  box : ∃ iv, (⟨entry.ct, entry.iv, entry.tag, entry.fingerprint⟩ : SealedValue)
    = encryptEntryValue crypto value entry.provider entry.id entry.envName kek fpSalt iv

/-- What holds of a store that was written. -/
structure Sound (kek : FixedBytes 32) (store : StoredKeystore) : Prop where
  rows : ∀ entry ∈ store.entries, ∃ value, SealedAs crypto kek store.fpSalt entry value
  ids : (store.entries.map fun entry => entry.id).Nodup
  envNames : (store.entries.map fun entry => entry.envName).Nodup
  fpSalt : ∃ salt : FixedBytes 32, store.fpSalt = toBase64 salt.1
  itemId : ITEM_ID_PATTERN store.itemId = true
  kekCheck : store.kekCheck = calculateKekCheck crypto kek

variable {crypto} {kek : FixedBytes 32} {fpSalt : Text} {entry : StoredEntry} {value : Text}

/-! ## Opening a row -/

variable (h : SealedAs crypto kek fpSalt entry value)

include h

theorem decoded_of_sealedAs :
    ∃ iv : Bytes,
      decodeBase64 entry.ct none = some (crypto.encrypt kek.1 iv
        (aad entry.provider entry.id entry.envName) (encodeUtf8 value)).1 ∧
      decodeBase64 entry.iv (some GCM_IV_LENGTH) = some iv ∧
      decodeBase64 entry.tag (some GCM_TAG_LENGTH) = some (crypto.encrypt kek.1 iv
        (aad entry.provider entry.id entry.envName) (encodeUtf8 value)).2 ∧
      entry.fingerprint = fingerprint crypto (encodeUtf8 value) kek fpSalt := by
  obtain ⟨iv, hbox⟩ := h.box
  obtain ⟨hct, hiv, htag, hfingerprint⟩ := SealedValue.mk.inj hbox
  refine ⟨iv.1, ?_, ?_, ?_, hfingerprint⟩
  · rw [hct]
    exact decodeBase64_toBase64 fun _ h => by cases h
  · rw [hiv]
    exact decodeBase64_toBase64 fun n hn => Option.some.inj hn ▸ iv.2
  · rw [htag]
    exact decodeBase64_toBase64 fun n hn => Option.some.inj hn ▸ crypto.length_tag _ _ _ _

/-- **A row** opens with the bytes of its value. -/
theorem decryptEntryBytes_of_sealedAs :
    decryptEntryBytes crypto entry kek fpSalt = some (encodeUtf8 value) := by
  obtain ⟨iv, hct, hiv, htag, hfingerprint⟩ := decoded_of_sealedAs h
  rw [decryptEntryBytes, hct, hiv, htag, hfingerprint]
  show (crypto.decrypt _ _ _ _ _).bind _ = _
  rw [crypto.decrypt_encrypt]
  exact if_pos rfl

/-- **A row** opens with its value. -/
theorem decryptEntryValue_of_sealedAs : decryptEntryValue crypto entry kek fpSalt = some value := by
  rw [decryptEntryValue, decryptEntryBytes_of_sealedAs h, Option.map_some, bytesToText_encodeUtf8,
    h.wellFormed.toWellFormed_eq]

omit h

/-! ## Rows as values -/

theorem isLowerHexUnit_of_isLowerHex {c : CodeUnit} (h : IsLowerHex c) : isLowerHexUnit c = true := by
  have hall : ∀ d < 16, isLowerHexUnit (Json.hexUnit d) = true := by decide
  obtain ⟨d, hd, rfl⟩ := h
  exact hall d hd

theorem fingerprint_pattern (value : Bytes) (kek : FixedBytes 32) (fpSalt : Text) :
    FINGERPRINT_PATTERN (fingerprint crypto value kek fpSalt) = true := by
  have hstart : (fingerprint crypto value kek fpSalt).startsWith (text "hmac:") = true :=
    List.isPrefixOf_iff_prefix.mpr (List.prefix_append _ _)
  have hdrop : (fingerprint crypto value kek fpSalt).drop 5
      = (crypto.hmacHex kek.1 (fromBase64 fpSalt ++ value)).take 8 := rfl
  rw [FINGERPRINT_PATTERN, hdrop, List.length_take, crypto.length_hmacHex, Bool.and_eq_true]
  refine ⟨rfl, List.all_eq_true.mpr fun c hc => isLowerHexUnit_of_isLowerHex ?_⟩
  exact crypto.hmacHex_lower _ _ c (List.mem_of_mem_take hc)

theorem kekCheck_pattern (kek : FixedBytes 32) :
    KEK_CHECK_PATTERN (calculateKekCheck crypto kek) = true := by
  rw [KEK_CHECK_PATTERN, calculateKekCheck, crypto.length_hmacHex, Bool.and_eq_true]
  exact ⟨rfl, List.all_eq_true.mpr fun c hc =>
    isLowerHexUnit_of_isLowerHex (crypto.hmacHex_lower _ _ c hc)⟩

@[simp] theorem nullableNumber?_nullableJson (x : Option Number) :
    nullableNumber? (some (nullableJson x)) = some x := by
  cases x <;> rfl

theorem descriptor?_toJson (entry : StoredEntry) :
    descriptor? entry.toJson = some entry.toKeystoreEntryDescriptor := by
  simp [descriptor?, StoredEntry.toJson, Json.string?, Json.number?, bool?]

variable {properties : List (String × Option Json)} {d : KeystoreEntryDescriptor}

theorem hasExactKeysWithOptional_ofProperties {keys : List String}
    (hkeys : properties.map Prod.fst = keys) (hsome : ∀ p ∈ properties, p.2.isSome = true) :
    hasExactKeysWithOptional (.ofProperties properties) keys = true := by
  subst hkeys
  rw [Json.ofProperties, hasExactKeysWithOptional, Bool.and_eq_true, List.all_eq_true,
    List.all_eq_true]
  constructor
  · intro key hkey
    obtain ⟨p, hp, rfl⟩ := List.mem_map.mp hkey
    obtain ⟨v, hv⟩ := Option.isSome_iff_exists.mp (hsome p hp)
    rw [Json.get?, Option.isSome_iff_ne_none, Ne, lookupEntry_eq_none_iff, not_not]
    refine List.mem_map.mpr ⟨(text p.1, v), List.mem_filterMap.mpr ⟨p, hp, ?_⟩, rfl⟩
    rw [hv]
    rfl
  · intro field hfield
    obtain ⟨p, hp, hv⟩ := List.mem_filterMap.mp hfield
    obtain ⟨v, -, rfl⟩ := Option.map_eq_some_iff.mp hv
    exact List.contains_iff_mem.mpr (List.mem_map_of_mem (List.mem_map_of_mem hp))

theorem ne_nil_of_keyIsPresent {value : Text} (h : keyIsPresent value = true) : value ≠ [] := by
  rintro rfl
  exact absurd h (by decide)

theorem hasCiphertext_of_sealedAs (h : SealedAs crypto kek fpSalt entry value) :
    entry.hasCiphertext = true := by
  obtain ⟨iv, hct, hiv, htag, -⟩ := decoded_of_sealedAs h
  have hne : encodeUtf8 value ≠ [] := by
    intro hnil
    have hvalue := bytesToText_encodeUtf8 value
    rw [hnil, h.wellFormed.toWellFormed_eq] at hvalue
    exact ne_nil_of_keyIsPresent h.present hvalue.symm
  rw [StoredEntry.hasCiphertext, hct, hiv, htag]
  simpa using crypto.ciphertext_ne_nil kek.1 iv _ hne

/-- **A row** is valid as it is written. -/
theorem validStoredEntry_toJson (h : SealedAs crypto kek fpSalt entry value) :
    validStoredEntry entry.toJson = some entry := by
  have hkeys : hasExactKeysWithOptional entry.toJson STORED_ENTRY_KEYS = true :=
    hasExactKeysWithOptional_ofProperties rfl (by simp)
  have hct : Json.string? (entry.toJson.get? (text "ct")) = some entry.ct := by
    simp [StoredEntry.toJson, Json.string?]
  have hiv : Json.string? (entry.toJson.get? (text "iv")) = some entry.iv := by
    simp [StoredEntry.toJson, Json.string?]
  have htag : Json.string? (entry.toJson.get? (text "tag")) = some entry.tag := by
    simp [StoredEntry.toJson, Json.string?]
  rw [validStoredEntry, hkeys, descriptor?_toJson, hct, hiv, htag]
  simp [h.valid, hasCiphertext_of_sealedAs h]

theorem normal_num {x : Number} (hvalid : validTimestamp x = true) (hx : IsJsNumber x) :
    (Json.num x).Normal := by
  cases x with
  | fin q => exact ⟨q, rfl, hx q rfl⟩
  | nan => cases hvalid
  | posInf => cases hvalid
  | negInf => cases hvalid

theorem normal_nullableJson {x : Option Number} (hvalid : x.all validTimestamp = true)
    (hx : ∀ y ∈ x, IsJsNumber y) : (nullableJson x).Normal := by
  cases x with
  | none => trivial
  | some y => exact normal_num hvalid (hx y rfl)

theorem normal_ofProperties (keys : List String) (hkeys : properties.map Prod.fst = keys)
    (hnames : (keys.map text).Nodup ∧ ∀ key ∈ keys, arrayIndex? (text key) = none)
    (hvalues : ∀ p ∈ properties, ∀ v ∈ p.2, v.Normal) : (Json.ofProperties properties).Normal := by
  subst hkeys
  have hsub : ((properties.filterMap fun p => p.2.map fun v => (text p.1, v)).map Prod.fst).Sublist
      ((properties.map Prod.fst).map text) := by
    clear hnames hvalues
    induction properties with
    | nil => exact .slnil
    | cons p properties ih =>
      obtain ⟨key, _ | v⟩ := p
      · exact ih.cons _
      · exact ih.cons_cons _
  refine Json.normal_literal (fun field hfield => ?_) (hnames.1.sublist hsub) fun field hfield => ?_
  · obtain ⟨p, hp, hv⟩ := List.mem_filterMap.mp hfield
    obtain ⟨v, -, rfl⟩ := Option.map_eq_some_iff.mp hv
    exact hnames.2 _ (List.mem_map_of_mem hp)
  · obtain ⟨p, hp, hfield⟩ := List.mem_filterMap.mp hfield
    obtain ⟨v, hv, rfl⟩ := Option.map_eq_some_iff.mp hfield
    exact hvalues p hp v hv

theorem validTimestamp_of_valid (h : d.valid = true) :
    validTimestamp d.addedAt = true ∧ d.rotatedAt.all validTimestamp = true ∧
      d.expiresAt.all validTimestamp = true ∧ d.revokedAt.all validTimestamp = true := by
  simp only [KeystoreEntryDescriptor.valid, Bool.and_eq_true] at h
  exact ⟨h.1.1.1.2, h.1.1.2, h.1.2, h.2⟩

theorem isJsNumber_of_times (h : ∀ x ∈ d.times, IsJsNumber x) :
    IsJsNumber d.addedAt ∧ (∀ x ∈ d.rotatedAt, IsJsNumber x) ∧ (∀ x ∈ d.expiresAt, IsJsNumber x) ∧
      ∀ x ∈ d.revokedAt, IsJsNumber x := by
  simp only [KeystoreEntryDescriptor.times, List.forall_mem_cons, List.forall_mem_append,
    Option.mem_toList] at h
  exact ⟨h.1, h.2.1.1, h.2.1.2, h.2.2⟩

theorem normal_toJson (h : SealedAs crypto kek fpSalt entry value) : entry.toJson.Normal := by
  obtain ⟨hadded, hrotated, hexpires, hrevoked⟩ := validTimestamp_of_valid h.valid
  obtain ⟨hadded', hrotated', hexpires', hrevoked'⟩ := isJsNumber_of_times h.times
  refine normal_ofProperties STORED_ENTRY_KEYS rfl (by decide) ?_
  simp only [List.forall_mem_cons, Option.mem_some_iff, forall_eq']
  exact ⟨trivial, trivial, trivial, trivial, trivial, trivial, trivial, normal_num hadded hadded',
    normal_nullableJson hrotated hrotated', normal_nullableJson hexpires hexpires',
    normal_nullableJson hrevoked hrevoked', trivial, fun _ h => by cases h⟩

/-! ## Stores -/

variable {store : StoredKeystore}

/-- **The rows** are all kept. -/
theorem foldl_keepEntry {entries kept : List StoredEntry}
    (hrows : ∀ entry ∈ entries, ∃ value, SealedAs crypto kek fpSalt entry value)
    (hids : ((kept ++ entries).map fun entry => entry.id).Nodup)
    (hnames : ((kept ++ entries).map fun entry => entry.envName).Nodup) :
    (entries.map StoredEntry.toJson).foldl keepEntry (kept, 0) = (kept ++ entries, 0) := by
  induction entries generalizing kept with
  | nil => rw [List.map_nil, List.foldl_nil, List.append_nil]
  | cons entry entries ih =>
    obtain ⟨⟨value, hvalue⟩, hrest⟩ := List.forall_mem_cons.mp hrows
    have hnew : (kept.any fun other => other.id = entry.id || other.envName = entry.envName)
        = false := by
      rw [List.any_eq_false]
      intro other hother
      rw [List.map_append, List.nodup_append] at hids hnames
      simp only [Bool.or_eq_true, decide_eq_true_eq, not_or]
      exact ⟨hids.2.2 _ (List.mem_map_of_mem hother) _ (List.mem_map_of_mem List.mem_cons_self),
        hnames.2.2 _ (List.mem_map_of_mem hother) _ (List.mem_map_of_mem List.mem_cons_self)⟩
    have hstep : keepEntry (kept, 0) entry.toJson = (kept ++ [entry], 0) := by
      rw [keepEntry, validStoredEntry_toJson hvalue]
      dsimp only
      rw [hnew, if_neg Bool.false_ne_true]
    rw [List.map_cons, List.foldl_cons, hstep, ih hrest]
    · rw [List.append_assoc, List.singleton_append]
    · rwa [List.append_assoc]
    · rwa [List.append_assoc]

theorem validKdf_kdfJson (salt : FixedBytes 32) : validKdf (some (kdfJson salt)) = some salt := by
  have hkeys : hasExactKeysWithOptional (kdfJson salt) ["n", "r", "p", "salt"] = true :=
    hasExactKeysWithOptional_ofProperties rfl (by simp)
  have hn : (kdfJson salt).get? (text "n") = some (.ofNat 16384) := by simp [kdfJson]
  have hr : (kdfJson salt).get? (text "r") = some (.ofNat 8) := by simp [kdfJson]
  have hp : (kdfJson salt).get? (text "p") = some (.ofNat 1) := by simp [kdfJson]
  have hsalt : Json.string? ((kdfJson salt).get? (text "salt")) = some (toBase64 salt.1) := by
    simp [kdfJson, Json.string?]
  have hdecode : decodeBase64 (toBase64 salt.1) (some 32) = some salt.1 :=
    decodeBase64_toBase64 fun n hn => Option.some.inj hn ▸ salt.2
  rw [validKdf]
  simp only [Option.bind_eq_bind, Option.bind_some, hkeys, hn, hr, hp, hsalt, hdecode]
  simp [salt.2]

/-- **How a key is kept** is read as it is written. -/
theorem validKekDescriptor_toJson (kek : KekDescriptor) :
    validKekDescriptor kek.toJson = some kek := by
  have hkeychain : text "keychain" ≠ text "dpapi" := by decide
  have hlibsecret : text "libsecret" ≠ text "dpapi" ∧ text "libsecret" ≠ text "keychain" := by decide
  have hpassphrase : text "passphrase" ≠ text "dpapi" ∧ text "passphrase" ≠ text "keychain" ∧
      text "passphrase" ≠ text "libsecret" := by decide
  cases kek with
  | dpapi blob =>
    have hkeys : hasExactKeysWithOptional (KekDescriptor.dpapi blob).toJson ["wrap", "blob"]
        = true := hasExactKeysWithOptional_ofProperties rfl (by simp)
    have hwrap : (KekDescriptor.dpapi blob).toJson.get? (text "wrap") = some (.ofString "dpapi") :=
      by simp [KekDescriptor.toJson]
    have hblob : Json.string? ((KekDescriptor.dpapi blob).toJson.get? (text "blob"))
        = some (toBase64 blob.1) := by simp [KekDescriptor.toJson, Json.string?]
    have hdecode : decodeBase64 (toBase64 blob.1) none = some blob.1 :=
      decodeBase64_toBase64 fun _ h => by cases h
    rw [validKekDescriptor, hwrap, hkeys, hblob, Option.bind_some, hdecode]
    simp [blob.2]
  | keychain =>
    have hkeys : hasExactKeysWithOptional KekDescriptor.keychain.toJson ["wrap"] = true :=
      hasExactKeysWithOptional_ofProperties rfl (by simp)
    have hwrap : KekDescriptor.keychain.toJson.get? (text "wrap") = some (.ofString "keychain") :=
      by simp [KekDescriptor.toJson]
    rw [validKekDescriptor, hwrap, hkeys]
    simp [Json.ofString, hkeychain]
  | libsecret =>
    have hkeys : hasExactKeysWithOptional KekDescriptor.libsecret.toJson ["wrap"] = true :=
      hasExactKeysWithOptional_ofProperties rfl (by simp)
    have hwrap : KekDescriptor.libsecret.toJson.get? (text "wrap") = some (.ofString "libsecret") :=
      by simp [KekDescriptor.toJson]
    rw [validKekDescriptor, hwrap, hkeys]
    simp [Json.ofString, hlibsecret]
  | passphrase salt =>
    have hkeys : hasExactKeysWithOptional (KekDescriptor.passphrase salt).toJson ["wrap", "kdf"]
        = true := hasExactKeysWithOptional_ofProperties rfl (by simp)
    have hwrap : (KekDescriptor.passphrase salt).toJson.get? (text "wrap")
        = some (.ofString "passphrase") := by simp [KekDescriptor.toJson]
    have hkdf : (KekDescriptor.passphrase salt).toJson.get? (text "kdf") = some (kdfJson salt) :=
      by simp [KekDescriptor.toJson]
    rw [validKekDescriptor, hwrap, hkeys, hkdf, validKdf_kdfJson]
    simp [Json.ofString, hpassphrase]

theorem normal_ofNat {n : Nat} (h : n ≤ maxSafeInteger) : (Json.ofNat n).Normal :=
  ⟨n, rfl, isDouble_natCast h⟩

theorem normal_kdfJson (salt : FixedBytes 32) : (kdfJson salt).Normal := by
  refine normal_ofProperties ["n", "r", "p", "salt"] rfl (by decide) ?_
  simp only [List.forall_mem_cons, Option.mem_some_iff, forall_eq']
  exact ⟨normal_ofNat (by decide), normal_ofNat (by decide), normal_ofNat (by decide), trivial,
    fun _ h => by cases h⟩

theorem KekDescriptor.normal_toJson (kek : KekDescriptor) : kek.toJson.Normal := by
  cases kek with
  | dpapi blob =>
    refine normal_ofProperties ["wrap", "blob"] rfl (by decide) ?_
    simp only [List.forall_mem_cons, Option.mem_some_iff, forall_eq']
    exact ⟨trivial, trivial, fun _ h => by cases h⟩
  | keychain =>
    refine normal_ofProperties ["wrap"] rfl (by decide) ?_
    simp only [List.forall_mem_cons, Option.mem_some_iff, forall_eq']
    exact ⟨trivial, fun _ h => by cases h⟩
  | libsecret =>
    refine normal_ofProperties ["wrap"] rfl (by decide) ?_
    simp only [List.forall_mem_cons, Option.mem_some_iff, forall_eq']
    exact ⟨trivial, fun _ h => by cases h⟩
  | passphrase salt =>
    refine normal_ofProperties ["wrap", "kdf"] rfl (by decide) ?_
    simp only [List.forall_mem_cons, Option.mem_some_iff, forall_eq']
    exact ⟨trivial, normal_kdfJson salt, fun _ h => by cases h⟩

theorem normalItems_iff {items : List Json} : Json.NormalItems items ↔ ∀ v ∈ items, v.Normal := by
  induction items with
  | nil => simp [Json.NormalItems]
  | cons v items ih => rw [Json.NormalItems, ih, List.forall_mem_cons]

theorem Sound.normal_toJson (h : Sound crypto kek store) : store.toJson.Normal := by
  refine normal_ofProperties ["version", "kek", "fpSalt", "itemId", "kekCheck", "entries"] rfl
    (by decide) ?_
  simp only [List.forall_mem_cons, Option.mem_some_iff, forall_eq']
  refine ⟨normal_ofNat (by decide), store.kek.normal_toJson, trivial, trivial, trivial, ?_,
    fun _ h => by cases h⟩
  refine normalItems_iff.mpr fun v hv => ?_
  obtain ⟨entry, hentry, rfl⟩ := List.mem_map.mp hv
  obtain ⟨value, hvalue⟩ := h.rows entry hentry
  exact Keystore.normal_toJson hvalue

/-- **A store** is parsed as it is written, and no row is dropped. -/
theorem parseStore_toJson (h : Sound crypto kek store) : parseStore store.toJson = some (store, 0) := by
  have hkeys : hasExactKeysWithOptional store.toJson
      ["version", "kek", "fpSalt", "itemId", "kekCheck", "entries"] = true :=
    hasExactKeysWithOptional_ofProperties rfl (by simp)
  have hversion : store.toJson.get? (text "version") = some (.ofNat STORE_VERSION) := by
    simp [StoredKeystore.toJson]
  have hkek : store.toJson.get? (text "kek") = some store.kek.toJson := by
    simp [StoredKeystore.toJson]
  have hfpSalt : Json.string? (store.toJson.get? (text "fpSalt")) = some store.fpSalt := by
    simp [StoredKeystore.toJson, Json.string?]
  have hitemId : Json.string? (store.toJson.get? (text "itemId")) = some store.itemId := by
    simp [StoredKeystore.toJson, Json.string?]
  have hkekCheck : Json.string? (store.toJson.get? (text "kekCheck")) = some store.kekCheck := by
    simp [StoredKeystore.toJson, Json.string?]
  have hentries : Json.array? (store.toJson.get? (text "entries"))
      = some (store.entries.map StoredEntry.toJson) := by
    simp [StoredKeystore.toJson]
  obtain ⟨salt, hsalt⟩ := h.fpSalt
  have hdecode : decodeBase64 store.fpSalt (some FINGERPRINT_SALT_LENGTH) = some salt.1 := by
    rw [hsalt]
    exact decodeBase64_toBase64 fun n hn => Option.some.inj hn ▸ salt.2
  have hcheck : KEK_CHECK_PATTERN store.kekCheck = true := by
    rw [h.kekCheck]
    exact kekCheck_pattern kek
  have hkept : (store.entries.map StoredEntry.toJson).foldl keepEntry ([], 0) = (store.entries, 0) :=
    foldl_keepEntry h.rows h.ids h.envNames
  rw [parseStore, hkeys, hversion, hkek, hfpSalt, hitemId, hkekCheck, hentries, Option.bind_some,
    validKekDescriptor_toJson]
  simp [hdecode, hcheck, h.itemId, hkept]

/-- **A store** is loaded as it is written. -/
theorem loadStore_persistStore (h : Sound crypto kek store) :
    loadStore (some (persistStore store)) = .loaded store 0 := by
  have hspace : ∀ c ∈ [lf], Json.isSpace c = true := List.forall_mem_singleton.mpr rfl
  rw [loadStore, persistStore, Json.parse_stringifyIndented h.normal_toJson 2 hspace,
    Option.bind_some, parseStore_toJson h]

end LlmRelay.Keystore
