import LlmRelay.Keystore.Writes

/-!
# The identity of a row

A value is sealed under its row's version, provider, id and name, joined by bars. No part of an
identity that a keystore takes holds a bar, so the joined text tells identities apart, and a row
that is moved under another one does not open.

## Main results

* `aad_inj`: the associated data tell admitted identities apart;
* `decryptEntryBytes_moved`: a row under another admitted identity does not open.
-/

namespace LlmRelay.Keystore

open Ecma Cipher Facts

/-- The identity that a row is bound to. -/
structure Identity where
  provider : Text
  id : Text
  envName : Text
  deriving DecidableEq

def StoredEntry.identity (entry : StoredEntry) : Identity where
  provider := entry.provider
  id := entry.id
  envName := entry.envName

/-- The row with another identity, and the rest of it as it was. -/
def StoredEntry.movedTo (entry : StoredEntry) (identity : Identity) : StoredEntry :=
  { entry with provider := identity.provider, id := identity.id, envName := identity.envName }

/-- A keystore takes rows of the identity. -/
def Identity.Admitted (identity : Identity) : Prop :=
  validateEntryIdentity identity.id identity.provider identity.envName = .ok ()

def Identity.aad (identity : Identity) : Bytes :=
  Keystore.aad identity.provider identity.id identity.envName

/-- The separator of the associated data. -/
def bar : CodeUnit := 0x7C

/-- ASCII, and no bar. -/
def IsPlain (t : Text) : Prop :=
  ∀ c ∈ t, c < 0x80 ∧ c ≠ bar

variable {t : Text} {identity : Identity}

theorem IsPlain.bar_notMem (h : IsPlain t) : bar ∉ t :=
  fun hbar => (h bar hbar).2 rfl

/-! ## The parts of an identity are plain -/

theorem plain_of_isLabelUnit {c : CodeUnit} (h : isLabelUnit c = true) : c < 0x80 ∧ c ≠ bar := by
  simp only [isLabelUnit, Bool.or_eq_true, Bool.and_eq_true, decide_eq_true_eq, beq_iff_eq,
    UInt16.le_iff_toNat_le, ← UInt16.toNat_inj, UInt16.reduceToNat] at h
  simp only [bar, UInt16.lt_iff_toNat_lt, ne_eq, ← UInt16.toNat_inj, UInt16.reduceToNat]
  omega

theorem plain_of_isWordUnit {c : CodeUnit} (h : isWordUnit c = true) : c < 0x80 ∧ c ≠ bar := by
  refine plain_of_isLabelUnit ?_
  simp only [isWordUnit, isLabelUnit, Bool.or_eq_true] at h ⊢
  tauto

theorem isPlain_of_providerPattern (h : PROVIDER_PATTERN t = true) : IsPlain t := by
  rw [PROVIDER_PATTERN, Bool.and_eq_true] at h
  exact fun c hc => plain_of_isLabelUnit (List.all_eq_true.mp h.2 c hc)

theorem isPlain_of_envNamePattern (h : ENV_NAME_PATTERN t = true) : IsPlain t := by
  cases t with
  | nil => cases h
  | cons c rest =>
    simp only [ENV_NAME_PATTERN, Bool.and_eq_true] at h
    refine List.forall_mem_cons.mpr ⟨plain_of_isWordUnit h.1.1.1, fun d hd => ?_⟩
    exact plain_of_isWordUnit (List.all_eq_true.mp h.2 d hd)

theorem isPlain_of_parseCredentialId {value p label : Text}
    (h : Facts.parseCredentialId value = some (p, label)) (hp : IsPlain p) : IsPlain value := by
  obtain ⟨hvalue, -, -⟩ := Facts.parseCredentialId_spec h
  have hlabel : label.all isLabelUnit = true := by
    unfold Facts.parseCredentialId at h
    dsimp only at h
    split at h
    · cases h
    · split_ifs at h with _ hlabel
      cases h
      exact (Bool.and_eq_true _ _ ▸ hlabel).2
  rw [hvalue]
  intro c hc
  rcases List.mem_append.mp hc with hc | hc
  · exact hp c hc
  · rcases List.mem_cons.mp hc with rfl | hc
    · exact ⟨by decide, by decide⟩
    · exact plain_of_isLabelUnit (List.all_eq_true.mp hlabel c hc)

theorem Identity.Admitted.plain (h : identity.Admitted) :
    IsPlain identity.provider ∧ IsPlain identity.id ∧ IsPlain identity.envName := by
  obtain ⟨hid, hprovider, henvName⟩ := validateEntryIdentity_ok h
  have hplain := isPlain_of_providerPattern hprovider
  obtain ⟨⟨p, label⟩, hparse, howner⟩ := (Option.any_eq_true _ _).mp hid
  obtain rfl : p = identity.provider := of_decide_eq_true howner
  exact ⟨hplain, isPlain_of_parseCredentialId hparse hplain, isPlain_of_envNamePattern henvName⟩

/-! ## The associated data -/

theorem aad_eq (provider entryId envName : Text) :
    aad provider entryId envName = encodeUtf8 (0x31 :: bar :: (provider ++ bar :: (entryId
      ++ bar :: envName))) := by
  have hone : Number.natText STORE_VERSION = [0x31] := by decide
  have hbar : text "|" = [bar] := by decide
  rw [aad, hone, hbar]
  simp only [List.append_assoc, List.cons_append, List.nil_append]

theorem encodeUtf8_inj {u : Text} (ht : WellFormed t) (hu : WellFormed u)
    (h : encodeUtf8 t = encodeUtf8 u) : t = u := by
  have hread := congrArg bytesToText h
  rwa [bytesToText_encodeUtf8, bytesToText_encodeUtf8, ht.toWellFormed_eq, hu.toWellFormed_eq]
    at hread

theorem wellFormed_joined {provider entryId envName : Text} (hprovider : IsPlain provider)
    (hid : IsPlain entryId) (henvName : IsPlain envName) :
    WellFormed (0x31 :: bar :: (provider ++ bar :: (entryId ++ bar :: envName))) := by
  refine wellFormed_of_ascii fun c hc => ?_
  simp only [List.mem_cons, List.mem_append] at hc
  rcases hc with rfl | rfl | hc | rfl | hc | rfl | hc
  · decide
  · decide
  · exact (hprovider c hc).1
  · decide
  · exact (hid c hc).1
  · decide
  · exact (henvName c hc).1

/-- **The associated data** tell admitted identities apart. -/
theorem aad_inj {identity' : Identity} (h : identity.Admitted) (h' : identity'.Admitted)
    (haad : identity.aad = identity'.aad) : identity = identity' := by
  obtain ⟨hprovider, hid, henvName⟩ := h.plain
  obtain ⟨hprovider', hid', henvName'⟩ := h'.plain
  rw [Identity.aad, Identity.aad, aad_eq, aad_eq] at haad
  have hjoined := encodeUtf8_inj (wellFormed_joined hprovider hid henvName)
    (wellFormed_joined hprovider' hid' henvName') haad
  -- no part holds a bar, so each ends at the first one
  obtain ⟨hp, hrest⟩ := append_sep_inj hprovider.bar_notMem hprovider'.bar_notMem
    (List.cons.inj (List.cons.inj hjoined).2).2
  obtain ⟨hi, he⟩ := append_sep_inj hid.bar_notMem hid'.bar_notMem hrest
  cases identity
  cases hp
  cases hi
  cases he
  rfl

/-! ## A moved row -/

variable {crypto : Crypto} {kek : FixedBytes 32} {fpSalt : Text} {entry : StoredEntry} {value : Text}

/-- The identity of a sealed row is admitted. -/
theorem SealedAs.admitted (h : SealedAs crypto kek fpSalt entry value) :
    entry.identity.Admitted := by
  have hvalid := h.valid
  simp only [KeystoreEntryDescriptor.valid, Bool.and_eq_true] at hvalid
  obtain ⟨parts, hparse, howner⟩ := (Option.any_eq_true _ _).mp hvalid.1.1.1.1.1.1.1
  have howner : parts.1 = entry.provider := of_decide_eq_true howner
  rw [Identity.Admitted, validateEntryIdentity, StoredEntry.identity]
  rw [hparse]
  dsimp only
  rw [hvalid.1.1.1.1.1.1.2, hvalid.1.1.1.1.1.2, if_neg Bool.true_eq_false_eq_False,
    if_neg (not_not.mpr howner), if_neg Bool.true_eq_false_eq_False]

/-- **A row under another identity** does not open. -/
theorem decryptEntryBytes_moved (h : SealedAs crypto kek fpSalt entry value)
    (hadmitted : identity.Admitted) (hne : identity ≠ entry.identity) :
    decryptEntryBytes crypto (entry.movedTo identity) kek fpSalt = none := by
  obtain ⟨iv, hct, hiv, htag, -⟩ := decoded_of_sealedAs h
  rw [decryptEntryBytes, StoredEntry.movedTo]
  rw [hct, hiv, htag]
  show (crypto.decrypt _ _ _ _ _).bind _ = _
  cases hopen : crypto.decrypt kek.1 iv (aad identity.provider identity.id identity.envName)
      (crypto.encrypt kek.1 iv (aad entry.provider entry.id entry.envName) (encodeUtf8 value)).1
      (crypto.encrypt kek.1 iv (aad entry.provider entry.id entry.envName) (encodeUtf8 value)).2 with
  | none => rfl
  | some found => exact absurd (aad_inj hadmitted h.admitted (crypto.binds hopen)) hne

end LlmRelay.Keystore
