import LlmRelay.Config.RoutingParser
import LlmRelay.Keystore.Sealed

/-!
# The files that writes leave

A write that succeeds on a file that holds a sound store leaves one that does.

## Main definitions

* `Holds`: the file, if there is one, holds a sound store.

## Main results

* `recoverVerifiedStoreKek_eq`: what passes the check of a store is its key;
* `openStoreForNewEntry_spec`: the store that a row is added to;
* `holds_addEntry` and the lemmas on the other writes: each leaves a file that holds a sound store.
-/

namespace LlmRelay.Keystore

open Ecma Cipher Facts
open Config (bind_eq_ok)

variable {crypto : Crypto} {kek : FixedBytes 32} {store : StoredKeystore}

/-! ## The key of a store -/

variable {unwrapped : Option Bytes}

variable (h : Sound crypto kek store)

include h

/-- **What passes the check of a store** is its key. -/
theorem recoverVerifiedStoreKek_eq {found : FixedBytes 32}
    (hfound : recoverVerifiedStoreKek crypto unwrapped store = some found) : found = kek := by
  obtain ⟨bytes, -, hbytes⟩ := Option.bind_eq_some_iff.mp hfound
  split_ifs at hbytes with hlength hcheck
  cases hbytes
  rw [h.kekCheck] at hcheck
  exact crypto.key_of_hmacHex _ _ hcheck

theorem cryptographicallyUnreadableCount_eq_zero :
    cryptographicallyUnreadableCount crypto store kek = 0 := by
  rw [cryptographicallyUnreadableCount, List.length_eq_zero_iff, List.filter_eq_nil_iff]
  intro entry hentry
  obtain ⟨value, hvalue⟩ := h.rows entry hentry
  rw [entryAuthenticates, decryptEntryBytes_of_sealedAs hvalue]
  exact Bool.false_ne_true

theorem unlockStoreForWrite_eq_ok_iff {found : FixedBytes 32} :
    unlockStoreForWrite crypto unwrapped store = .ok found ↔
      recoverVerifiedStoreKek crypto unwrapped store = some kek ∧ found = kek := by
  rw [unlockStoreForWrite]
  cases hrecovered : recoverVerifiedStoreKek crypto unwrapped store with
  | none =>
    constructor
    · intro h
      cases h
    · rintro ⟨h, -⟩
      cases h
  | some found' =>
    have heq := recoverVerifiedStoreKek_eq h hrecovered
    subst heq
    dsimp only
    rw [cryptographicallyUnreadableCount_eq_zero h]
    constructor
    · intro h
      cases h
      exact ⟨rfl, rfl⟩
    · rintro ⟨-, rfl⟩
      rfl

omit h

/-! ## New rows -/

variable {fpSalt : Text} {d : KeystoreEntryDescriptor} {value : Text} {iv : FixedBytes GCM_IV_LENGTH}

theorem sealedAs_sealEntry (hvalid : ∀ fp, FINGERPRINT_PATTERN fp = true →
      { d with fingerprint := fp }.valid = true)
    (htimes : ∀ x ∈ d.times, IsJsNumber x) (hvalue : keyIsPresent value = true) :
    SealedAs crypto kek fpSalt (sealEntry crypto d value kek fpSalt iv) (toWellFormed value) where
  valid := hvalid _ (fingerprint_pattern _ kek fpSalt)
  times := htimes
  present := by
    rw [keyIsPresent, bne_iff_ne] at hvalue ⊢
    exact trim_toWellFormed_ne_nil hvalue
  wellFormed := wellFormed_toWellFormed value
  box := by
    refine ⟨iv, ?_⟩
    rw [encryptEntryValue, encodeUtf8_toWellFormed]
    rfl

/-- **A new row** with an id and a name of its own. -/
theorem Sound.append (h : Sound crypto kek store) {entry : StoredEntry}
    (hentry : ∃ value, SealedAs crypto kek store.fpSalt entry value)
    (hnew : (store.entries.any fun other => other.id = entry.id || other.envName = entry.envName)
      = false) : Sound crypto kek { store with entries := store.entries ++ [entry] } := by
  have happart : ∀ other ∈ store.entries, other.id ≠ entry.id ∧ other.envName ≠ entry.envName := by
    intro other hother
    have hne := List.any_eq_false.mp hnew other hother
    simpa only [Bool.or_eq_true, decide_eq_true_eq, not_or] using hne
  refine ⟨fun other hother => ?_, ?_, ?_, h.fpSalt, h.itemId, h.kekCheck⟩
  · rcases List.mem_append.mp hother with hother | hother
    · exact h.rows other hother
    · rw [List.mem_singleton.mp hother]
      exact hentry
  · rw [List.map_append, List.nodup_append]
    refine ⟨h.ids, List.nodup_singleton _, fun id hid other hother => ?_⟩
    obtain ⟨row, hrow, rfl⟩ := List.mem_map.mp hid
    rw [List.mem_singleton.mp hother]
    exact (happart row hrow).1
  · rw [List.map_append, List.nodup_append]
    refine ⟨h.envNames, List.nodup_singleton _, fun id hid other hother => ?_⟩
    obtain ⟨row, hrow, rfl⟩ := List.mem_map.mp hid
    rw [List.mem_singleton.mp hother]
    exact (happart row hrow).2

theorem sound_createStore (created : NewCustody) :
    Sound crypto created.kek (createStore crypto created) where
  rows := fun _ h => nomatch h
  ids := List.nodup_nil
  envNames := List.nodup_nil
  fpSalt := ⟨created.fpSalt, rfl⟩
  itemId := by
    rw [ITEM_ID_PATTERN, createStore, Bool.and_eq_true, length_hexText, created.itemId.2]
    exact ⟨rfl, List.all_eq_true.mpr fun c hc =>
      isLowerHexUnit_of_isLowerHex (hexText_lower _ c hc)⟩
  kekCheck := rfl

/-- The file, if there is one, holds a sound store. -/
def Holds (crypto : Crypto) (file : Option Text) : Prop :=
  ∀ t ∈ file, ∃ kek store, t = persistStore store ∧ Sound crypto kek store

variable {custody : Custody} {file : Option Text} {id envName file' entryId : Text} {u : Unit}
  {now : Number}

/-- **The store that a row is added to** is sound, and the row is new to it. -/
theorem openStoreForNewEntry_spec (hfile : Holds crypto file)
    {found : StoredKeystore × FixedBytes 32}
    (h : openStoreForNewEntry crypto custody file id envName = .ok found) :
    Sound crypto found.2 found.1 ∧
      (found.1.entries.any fun entry => entry.id = id || entry.envName = envName) = false := by
  rw [openStoreForNewEntry] at h
  cases file with
  | none =>
    cases h
    exact ⟨sound_createStore custody.created, rfl⟩
  | some t =>
    obtain ⟨kek, store, rfl, hsound⟩ := hfile t rfl
    rw [loadStore_persistStore hsound] at h
    dsimp only at h
    rw [if_neg (Nat.lt_irrefl 0)] at h
    split_ifs at h with hexists
    cases hunlock : unlockStoreForWrite crypto custody.unwrapped store with
    | error e =>
      rw [hunlock] at h
      cases h
    | ok kek' =>
      rw [hunlock] at h
      cases h
      obtain ⟨-, rfl⟩ := (unlockStoreForWrite_eq_ok_iff hsound).mp hunlock
      exact ⟨hsound, Bool.eq_false_iff.mpr hexists⟩

theorem validateEntryIdentity_ok {provider : Text}
    (h : validateEntryIdentity id provider envName = .ok u) :
    ((Facts.parseCredentialId id).any fun parts => parts.1 = provider) = true ∧
      PROVIDER_PATTERN provider = true ∧ ENV_NAME_PATTERN envName = true := by
  rw [validateEntryIdentity] at h
  cases hparse : Facts.parseCredentialId id with
  | none =>
    rw [hparse] at h
    cases h
  | some parts =>
    rw [hparse] at h
    dsimp only at h
    split_ifs at h with hprovider howner henv
    exact ⟨decide_eq_true (not_not.mp howner), (Bool.not_eq_false _).mp hprovider,
      (Bool.not_eq_false _).mp henv⟩

theorem validateValue_ok (h : validateValue value = .ok u) : keyIsPresent value = true := by
  rw [validateValue] at h
  split_ifs at h with hvalue
  exact hvalue

theorem validateExpiresAt_ok {x : Option Number} (h : validateExpiresAt x = .ok u) :
    x.all validTimestamp = true := by
  rw [validateExpiresAt] at h
  split_ifs at h with hx
  exact hx

theorem writeTime_ok {found : Number} (h : writeTime now = .ok found) :
    found = now ∧ validTimestamp now = true := by
  rw [writeTime] at h
  split_ifs at h with hnow
  cases h
  exact ⟨rfl, hnow⟩

/-- **Adding a row.** -/
theorem holds_addEntry {provider : Text} {expiresAt : Option Number} (hfile : Holds crypto file)
    (hnow : IsJsNumber now) (hexpires : ∀ x ∈ expiresAt, IsJsNumber x)
    (h : addEntry crypto custody now file id provider envName value expiresAt = .ok file') :
    Holds crypto (some file') := by
  rw [addEntry, bind_eq_ok] at h
  obtain ⟨_, hidentity, h⟩ := h
  rw [bind_eq_ok] at h
  obtain ⟨_, hvalue, h⟩ := h
  rw [bind_eq_ok] at h
  obtain ⟨_, hvalid, h⟩ := h
  rw [bind_eq_ok] at h
  obtain ⟨now', hwrite, h⟩ := h
  rw [bind_eq_ok] at h
  obtain ⟨⟨store, kek⟩, hopen, h⟩ := h
  obtain ⟨rfl, hvalidNow⟩ := writeTime_ok hwrite
  obtain ⟨hsound, hnew⟩ := openStoreForNewEntry_spec hfile hopen
  obtain ⟨hid, hprovider, henv⟩ := validateEntryIdentity_ok hidentity
  cases h
  rintro t ht
  cases ht
  refine ⟨kek, _, rfl, hsound.append ⟨toWellFormed value, sealedAs_sealEntry ?_ ?_
    (validateValue_ok hvalue)⟩ hnew⟩
  · intro fp hfp
    simp [KeystoreEntryDescriptor.valid, hid, hprovider, henv, hfp, hvalidNow,
      validateExpiresAt_ok hvalid]
  · simp only [KeystoreEntryDescriptor.times, List.forall_mem_cons, List.forall_mem_append,
      Option.mem_toList]
    exact ⟨hnow, ⟨(fun _ h => by cases h), hexpires⟩, fun _ h => by cases h⟩

/-! ## Changed rows -/

theorem map_modify {α β : Type} {f : α → α} {g : α → β} (hfg : ∀ a, g (f a) = g a) (l : List α)
    (i : Nat) : (l.modify i f).map g = l.map g := by
  induction l generalizing i with
  | nil => cases i <;> rfl
  | cons a l ih =>
    cases i with
    | zero => rw [List.modify_zero_cons, List.map_cons, hfg, List.map_cons]
    | succ i => rw [List.modify_succ_cons, List.map_cons, ih, List.map_cons]

theorem mem_modify {α : Type} {f : α → α} {l : List α} {i : Nat} {b : α} (h : b ∈ l.modify i f) :
    b ∈ l ∨ ∃ a ∈ l, b = f a := by
  induction l generalizing i with
  | nil => cases i <;> exact .inl h
  | cons a l ih =>
    cases i with
    | zero =>
      rcases List.mem_cons.mp h with rfl | h
      · exact .inr ⟨a, List.mem_cons_self, rfl⟩
      · exact .inl (List.mem_cons_of_mem _ h)
    | succ i =>
      rcases List.mem_cons.mp h with rfl | h
      · exact .inl List.mem_cons_self
      · rcases ih h with h | ⟨c, hc, rfl⟩
        · exact .inl (List.mem_cons_of_mem _ h)
        · exact .inr ⟨c, List.mem_cons_of_mem _ hc, rfl⟩

/-- **A changed row** keeps its id and its name. -/
theorem Sound.edit (h : Sound crypto kek store) {entryId : Text} {edit : StoredEntry → StoredEntry}
    {edited : StoredKeystore} (hedited : editEntry store entryId edit = .ok edited)
    (hid : ∀ entry, (edit entry).id = entry.id)
    (hname : ∀ entry, (edit entry).envName = entry.envName)
    (hrow : ∀ entry value, SealedAs crypto kek store.fpSalt entry value →
      ∃ value, SealedAs crypto kek store.fpSalt (edit entry) value) : Sound crypto kek edited := by
  rw [editEntry] at hedited
  split at hedited
  · cases hedited
  · rename_i i _
    cases hedited
    refine ⟨fun entry hentry => ?_, ?_, ?_, h.fpSalt, h.itemId, h.kekCheck⟩
    · rcases mem_modify hentry with hentry | ⟨other, hother, rfl⟩
      · exact h.rows entry hentry
      · obtain ⟨value, hvalue⟩ := h.rows other hother
        exact hrow other value hvalue
    · rw [map_modify hid]
      exact h.ids
    · rw [map_modify hname]
      exact h.envNames

/-- **A row less.** -/
theorem Sound.erase (h : Sound crypto kek store) (i : Nat) :
    Sound crypto kek { store with entries := store.entries.eraseIdx i } where
  rows entry hentry := h.rows entry (List.mem_of_mem_eraseIdx hentry)
  ids := h.ids.sublist ((List.eraseIdx_sublist _ _).map _)
  envNames := h.envNames.sublist ((List.eraseIdx_sublist _ _).map _)
  fpSalt := h.fpSalt
  itemId := h.itemId
  kekCheck := h.kekCheck

theorem requireStoreForMutation_ok (hfile : Holds crypto file)
    (h : requireStoreForMutation file = .ok store) : ∃ kek, Sound crypto kek store := by
  cases file with
  | none => cases h
  | some t =>
    obtain ⟨kek, store', rfl, hsound⟩ := hfile t rfl
    rw [requireStoreForMutation, loadStore_persistStore hsound] at h
    cases h
    exact ⟨kek, hsound⟩

theorem SealedAs.relive {entry : StoredEntry} (h : SealedAs crypto kek fpSalt entry value)
    {revokedAt : Option Number} {disabled : Bool} (hvalid : revokedAt.all validTimestamp = true)
    (hrevoked : ∀ x ∈ revokedAt, IsJsNumber x) :
    SealedAs crypto kek fpSalt { entry with revokedAt := revokedAt, disabled := disabled } value where
  valid := by
    have hentry := h.valid
    simp only [KeystoreEntryDescriptor.valid, Bool.and_eq_true] at hentry ⊢
    exact ⟨hentry.1, hvalid⟩
  times := by
    obtain ⟨hadded, hrotated, hexpires, -⟩ := isJsNumber_of_times h.times
    simp only [KeystoreEntryDescriptor.times, List.forall_mem_cons, List.forall_mem_append,
      Option.mem_toList]
    exact ⟨hadded, ⟨hrotated, hexpires⟩, hrevoked⟩
  present := h.present
  wellFormed := h.wellFormed
  box := h.box

theorem holds_persistStore (h : Sound crypto kek store) : Holds crypto (some (persistStore store)) := by
  rintro t ht
  cases ht
  exact ⟨kek, store, rfl, h⟩

variable (hfile : Holds crypto file)

include hfile

/-- **Rotating a row.** -/
theorem holds_rotateEntry {expiresAt : Option (Option Number)}
    (hnow : IsJsNumber now) (hexpires : ∀ x ∈ expiresAt.getD none, IsJsNumber x)
    (h : rotateEntry crypto custody now file entryId value expiresAt = .ok file') :
    Holds crypto (some file') := by
  rw [rotateEntry, bind_eq_ok] at h
  obtain ⟨_, -, h⟩ := h
  rw [bind_eq_ok] at h
  obtain ⟨_, hvalue, h⟩ := h
  rw [bind_eq_ok] at h
  obtain ⟨_, hvalid, h⟩ := h
  rw [bind_eq_ok] at h
  obtain ⟨now', hwrite, h⟩ := h
  rw [bind_eq_ok] at h
  obtain ⟨store, hstore, h⟩ := h
  obtain ⟨rfl, hvalidNow⟩ := writeTime_ok hwrite
  obtain ⟨kek, hsound⟩ := requireStoreForMutation_ok hfile hstore
  split_ifs at h
  rw [bind_eq_ok] at h
  obtain ⟨kek', hunlock, h⟩ := h
  rw [bind_eq_ok] at h
  obtain ⟨edited, hedited, h⟩ := h
  obtain ⟨-, rfl⟩ := (unlockStoreForWrite_eq_ok_iff hsound).mp hunlock
  cases h
  refine holds_persistStore (hsound.edit hedited (fun _ => rfl) (fun _ => rfl) fun entry old hold => ?_)
  refine ⟨toWellFormed value, sealedAs_sealEntry ?_ ?_ (validateValue_ok hvalue)⟩
  · intro fp hfp
    have hentry := hold.valid
    have hexpiry : (expiresAt.getD entry.expiresAt).all validTimestamp = true := by
      cases expiresAt with
      | none => exact (validTimestamp_of_valid hold.valid).2.2.1
      | some x => exact validateExpiresAt_ok hvalid
    simp only [KeystoreEntryDescriptor.valid, Bool.and_eq_true] at hentry ⊢
    exact ⟨⟨⟨⟨⟨hentry.1.1.1.1.1, hfp⟩, hentry.1.1.1.2⟩, hvalidNow⟩, hexpiry⟩, rfl⟩
  · obtain ⟨hadded, -, hexpires', -⟩ := isJsNumber_of_times hold.times
    have hexpiry : ∀ x ∈ expiresAt.getD entry.expiresAt, IsJsNumber x := by
      cases expiresAt with
      | none => exact hexpires'
      | some x => exact hexpires
    simp only [KeystoreEntryDescriptor.times, List.forall_mem_cons, List.forall_mem_append,
      Option.mem_toList]
    exact ⟨hadded, ⟨fun x hx => by cases hx; exact hnow, hexpiry⟩, fun _ h => by cases h⟩

/-- **Revoking a row.** -/
theorem holds_revokeEntry (hnow : IsJsNumber now)
    (h : revokeEntry crypto custody now file entryId = .ok file') : Holds crypto (some file') := by
  rw [revokeEntry, bind_eq_ok] at h
  obtain ⟨_, -, h⟩ := h
  rw [bind_eq_ok] at h
  obtain ⟨now', hwrite, h⟩ := h
  rw [bind_eq_ok] at h
  obtain ⟨store, hstore, h⟩ := h
  rw [bind_eq_ok] at h
  obtain ⟨edited, hedited, h⟩ := h
  rw [bind_eq_ok] at h
  obtain ⟨_, -, h⟩ := h
  obtain ⟨rfl, hvalidNow⟩ := writeTime_ok hwrite
  obtain ⟨kek, hsound⟩ := requireStoreForMutation_ok hfile hstore
  cases h
  refine holds_persistStore
    (hsound.edit hedited (fun _ => rfl) (fun _ => rfl) fun entry value hvalue => ?_)
  exact ⟨value, hvalue.relive hvalidNow fun x hx => by cases hx; exact hnow⟩

/-- **Removing a row.** -/
theorem holds_removeEntry
    (h : removeEntry crypto custody file entryId = .ok file') : Holds crypto (some file') := by
  rw [removeEntry, bind_eq_ok] at h
  obtain ⟨_, -, h⟩ := h
  rw [bind_eq_ok] at h
  obtain ⟨store, hstore, h⟩ := h
  obtain ⟨kek, hsound⟩ := requireStoreForMutation_ok hfile hstore
  split at h
  · cases h
  · rw [bind_eq_ok] at h
    obtain ⟨_, -, h⟩ := h
    cases h
    exact holds_persistStore (hsound.erase _)

/-- **Disabling a row**, or enabling it. -/
theorem holds_setDisabled {disabled : Bool}
    (h : setDisabled crypto custody file entryId disabled = .ok file') :
    Holds crypto (some file') := by
  rw [setDisabled, bind_eq_ok] at h
  obtain ⟨_, -, h⟩ := h
  rw [bind_eq_ok] at h
  obtain ⟨store, hstore, h⟩ := h
  rw [bind_eq_ok] at h
  obtain ⟨edited, hedited, h⟩ := h
  rw [bind_eq_ok] at h
  obtain ⟨_, -, h⟩ := h
  obtain ⟨kek, hsound⟩ := requireStoreForMutation_ok hfile hstore
  cases h
  refine holds_persistStore
    (hsound.edit hedited (fun _ => rfl) (fun _ => rfl) fun entry value hvalue => ?_)
  exact ⟨value, hvalue.relive (validTimestamp_of_valid hvalue.valid).2.2.2
    (isJsNumber_of_times hvalue.times).2.2.2⟩

end LlmRelay.Keystore
