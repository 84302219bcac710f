import LlmRelay.Ecma.Json

/-!
# Sealing bytes

What is assumed of the primitives that custody of secrets rests on: authenticated encryption that
opens what it sealed and nothing under other associated data, a keyed digest that tells keys apart,
and a key derivation.

## Main definitions

* `Crypto`: the primitives, with what is assumed of them;
* `Crypto.ideal`: primitives that satisfy it.

## Main results

* `frame_append_inj`: bytes that say how many they are, are read back from what follows them.
-/

namespace Cipher

open Ecma

abbrev Bytes := List UInt8

/-- Bytes of a fixed number, such as random ones. -/
abbrev FixedBytes (n : Nat) := { bytes : Bytes // bytes.length = n }

def IsLowerHex (c : CodeUnit) : Prop :=
  ∃ d < 16, c = Json.hexUnit d

/-- Authenticated encryption with associated data, a keyed digest in hexadecimal, and a key
derivation. -/
structure Crypto where
  encrypt : (key iv aad plaintext : Bytes) → Bytes × Bytes
  decrypt : (key iv aad ciphertext tag : Bytes) → Option Bytes
  hmacHex : (key message : Bytes) → Text
  scrypt : (passphrase salt : Bytes) → FixedBytes 32
  decrypt_encrypt : ∀ key iv aad plaintext, decrypt key iv aad (encrypt key iv aad plaintext).1
    (encrypt key iv aad plaintext).2 = some plaintext
  /-- What is sealed opens under its own associated data only. -/
  binds : ∀ {key iv aad aad' plaintext found}, decrypt key iv aad' (encrypt key iv aad plaintext).1
    (encrypt key iv aad plaintext).2 = some found → aad' = aad
  length_tag : ∀ key iv aad plaintext, (encrypt key iv aad plaintext).2.length = 16
  ciphertext_ne_nil : ∀ key iv aad {plaintext}, plaintext ≠ [] →
    (encrypt key iv aad plaintext).1 ≠ []
  length_hmacHex : ∀ key message, (hmacHex key message).length = 64
  hmacHex_lower : ∀ key message, ∀ c ∈ hmacHex key message, IsLowerHex c
  /-- The digest of one message tells keys apart. -/
  key_of_hmacHex : ∀ {message} (key key' : FixedBytes 32),
    hmacHex key.1 message = hmacHex key'.1 message → key = key'

/-! ## Primitives that satisfy it -/

/-- Bytes behind a count of them in ones. -/
def frame (a : Bytes) : Bytes :=
  List.replicate a.length 1 ++ 0 :: a

/-- Bytes that say how many they are, are read back from what follows them. -/
theorem frame_append_inj {a b x y : Bytes} (h : frame a ++ x = frame b ++ y) : a = b ∧ x = y := by
  have hcount : ∀ c z : Bytes, ((frame c ++ z).takeWhile (· = 1)).length = c.length := by
    intro c z
    rw [frame, List.append_assoc]
    simp
  have hlength : a.length = b.length := by
    rw [← hcount a x, h, hcount b y]
  simp only [frame, hlength, List.append_assoc] at h
  have hrest := (List.cons.inj (List.append_cancel_left h)).2
  exact List.append_inj hrest hlength

/-- What an ideal ciphertext starts with. -/
def header (key iv aad : Bytes) : Bytes :=
  frame key ++ (frame iv ++ frame aad)

theorem header_append_inj {key iv aad key' iv' aad' x y : Bytes}
    (h : header key iv aad ++ x = header key' iv' aad' ++ y) : aad = aad' ∧ x = y := by
  simp only [header, List.append_assoc] at h
  exact frame_append_inj (frame_append_inj (frame_append_inj h).2).2

def hexText (bytes : Bytes) : Text :=
  bytes.flatMap fun b => [Json.hexUnit (b.toNat / 16), Json.hexUnit (b.toNat % 16)]

theorem length_hexText (bytes : Bytes) : (hexText bytes).length = 2 * bytes.length := by
  induction bytes with
  | nil => rfl
  | cons b bytes ih =>
    rw [hexText] at ih ⊢
    rw [List.flatMap_cons, List.length_append, List.length_cons, List.length_cons,
      List.length_cons, List.length_nil]
    omega

theorem hexText_lower (bytes : Bytes) : ∀ c ∈ hexText bytes, IsLowerHex c := by
  intro c hc
  obtain ⟨b, -, hc⟩ := List.mem_flatMap.mp hc
  have hb := b.toNat_lt
  rcases List.mem_cons.mp hc with rfl | hc
  · exact ⟨_, by omega, rfl⟩
  · rcases List.mem_singleton.mp hc with rfl
    exact ⟨_, by omega, rfl⟩

theorem hexText_injective : Function.Injective hexText := by
  have hunit : ∀ i < 16, ∀ j < 16, Json.hexUnit i = Json.hexUnit j → i = j := by decide
  intro a b h
  induction a generalizing b with
  | nil =>
    have hlength := congrArg List.length h
    rw [length_hexText, length_hexText, List.length_nil] at hlength
    exact (List.eq_nil_of_length_eq_zero (by omega)).symm
  | cons c a ih =>
    cases b with
    | nil => cases h
    | cons d b =>
      have hc := c.toNat_lt
      have hd := d.toNat_lt
      obtain ⟨hhigh, h⟩ := List.cons.inj h
      obtain ⟨hlow, h⟩ := List.cons.inj h
      have hhigh := hunit _ (by omega) _ (by omega) hhigh
      have hlow := hunit _ (by omega) _ (by omega) hlow
      rw [ih h, UInt8.toNat_inj.mp (show c.toNat = d.toNat by omega)]

/-- A ciphertext is the plaintext behind everything it is sealed under, and a digest is the key. -/
def Crypto.ideal : Crypto where
  encrypt key iv aad plaintext := (header key iv aad ++ plaintext, List.replicate 16 0)
  decrypt key iv aad ciphertext _ :=
    if header key iv aad <+: ciphertext then some (ciphertext.drop (header key iv aad).length)
    else none
  hmacHex key _ := hexText ((key ++ List.replicate 32 0).take 32)
  scrypt passphrase salt := ⟨(passphrase ++ salt ++ List.replicate 32 0).take 32, by simp; omega⟩
  decrypt_encrypt key iv aad plaintext := by
    rw [if_pos (List.prefix_append _ _), List.drop_left]
  binds h := by
    split_ifs at h with hstarts
    obtain ⟨rest, hrest⟩ := hstarts
    exact (header_append_inj hrest).1
  length_tag _ _ _ _ := List.length_replicate
  ciphertext_ne_nil _ _ _ _ h := List.append_ne_nil_of_right_ne_nil _ h
  length_hmacHex _ _ := by
    rw [length_hexText]
    simp
  hmacHex_lower _ _ := hexText_lower _
  key_of_hmacHex key key' h := by
    have htake : ∀ k : FixedBytes 32, (k.1 ++ List.replicate 32 0).take 32 = k.1 := fun k =>
      List.take_left' k.2
    have hkeys := hexText_injective h
    rw [htake, htake] at hkeys
    exact Subtype.ext hkeys

end Cipher
