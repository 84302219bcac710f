import LlmRelay.Ecma.Strings
import Mathlib.Data.List.TakeWhile

/-!
# Strings as UTF-8 bytes and back

A well formed string, whose surrogates are paired, is read back from its bytes; of any other string
the unpaired surrogates come back as replacement characters.

## Main definitions

* `bytesToText`: `Buffer.prototype.toString('utf8')`, which keeps a byte order mark;
* `toWellFormed`: `String.prototype.toWellFormed`;
* `WellFormed`: the string is one of code points.

## Main results

* `bytesToText_encodeUtf8`: what bytes of a string are read back as;
* `WellFormed.append`: well formed strings, one after the other.
-/

namespace Ecma

/-- The decoder of a `Buffer`, for which a byte order mark is a character. -/
def bufferDecoder : Utf8Decoder :=
  { Utf8Decoder.new with bomSeen := true }

/-- `buffer.toString("utf8")`. -/
def bytesToText (bytes : List UInt8) : Text :=
  (bufferDecoder.decode bytes).2 ++ (bufferDecoder.decode bytes).1.flush

/-- `text.toWellFormed()`. -/
def toWellFormed (t : Text) : Text :=
  (codePoints t).flatMap ofCodePoint

/-- A code point that is no surrogate. -/
def IsScalar (p : Nat) : Prop :=
  p < 0xD800 ∨ 0xDFFF < p ∧ p < 0x110000

/-- A string of code points. -/
def WellFormed (t : Text) : Prop :=
  ∃ ps : List Nat, (∀ p ∈ ps, IsScalar p) ∧ t = ps.flatMap ofCodePoint

/-! ## Code points -/

theorem isScalar_codePoints (t : Text) : ∀ p ∈ codePoints t, IsScalar p := by
  have hreplacement : IsScalar replacementCharacter := by
    unfold IsScalar replacementCharacter
    omega
  have hplain : ∀ c : CodeUnit, isHighSurrogate c = false → isLowSurrogate c = false →
      IsScalar c.toNat := by
    intro c hhigh hlow
    have hc := c.toNat_lt
    simp only [isHighSurrogate, isLowSurrogate, Bool.and_eq_false_iff, decide_eq_false_iff_not,
      UInt16.le_iff_toNat_le, UInt16.reduceToNat] at hhigh hlow
    unfold IsScalar
    omega
  have hpair : ∀ c d : CodeUnit, isHighSurrogate c = true → isLowSurrogate d = true →
      IsScalar (0x10000 + (c.toNat - 0xD800) * 0x400 + (d.toNat - 0xDC00)) := by
    intro c d hhigh hlow
    simp only [isHighSurrogate, isLowSurrogate, Bool.and_eq_true, decide_eq_true_eq,
      UInt16.le_iff_toNat_le, UInt16.reduceToNat] at hhigh hlow
    unfold IsScalar
    omega
  induction t using codePoints.induct with
  | case1 => exact fun _ h => by cases h
  | case2 c hc =>
    rw [codePoints_lone hc fun _ _ h => by cases h]
    exact List.forall_mem_cons.mpr ⟨hreplacement, fun _ h => by cases h⟩
  | case3 c hc d rest hd ih =>
    rw [codePoints_pair hc hd]
    exact List.forall_mem_cons.mpr ⟨hpair c d hc hd, ih⟩
  | case4 c hc d rest hd ih =>
    rw [codePoints_lone hc fun e r h => by
      rw [← (List.cons.inj h).1]
      exact Bool.eq_false_iff.mpr hd]
    exact List.forall_mem_cons.mpr ⟨hreplacement, ih⟩
  | case5 c rest hc hlow ih =>
    rw [codePoints_plain (Bool.eq_false_iff.mpr hc), if_pos hlow]
    exact List.forall_mem_cons.mpr ⟨hreplacement, ih⟩
  | case6 c rest hc hlow ih =>
    rw [codePoints_plain (Bool.eq_false_iff.mpr hc), if_neg hlow]
    exact List.forall_mem_cons.mpr
      ⟨hplain c (Bool.eq_false_iff.mpr hc) (Bool.eq_false_iff.mpr hlow), ih⟩

theorem codePoints_ofScalar {p : Nat} (hp : IsScalar p) (rest : Text) :
    codePoints (ofCodePoint p ++ rest) = p :: codePoints rest := by
  unfold IsScalar at hp
  unfold ofCodePoint
  split
  · exact codePoints_basic ‹_› (by omega) rest
  · exact codePoints_supplementary (by omega) (by omega) rest

/-- **Code points** are read back. -/
theorem codePoints_flatMap {ps : List Nat} (hps : ∀ p ∈ ps, IsScalar p) (rest : Text) :
    codePoints (ps.flatMap ofCodePoint ++ rest) = ps ++ codePoints rest := by
  induction ps with
  | nil => rfl
  | cons p ps ih =>
    obtain ⟨hp, hps⟩ := List.forall_mem_cons.mp hps
    rw [List.flatMap_cons, List.append_assoc, codePoints_ofScalar hp, ih hps, List.cons_append]

/-! ## Well formed strings -/

theorem wellFormed_toWellFormed (t : Text) : WellFormed (toWellFormed t) :=
  ⟨codePoints t, isScalar_codePoints t, rfl⟩

variable {t : Text} {c d : CodeUnit} {n : Nat}

theorem WellFormed.toWellFormed_eq (h : WellFormed t) : toWellFormed t = t := by
  obtain ⟨ps, hps, rfl⟩ := h
  have hpoints := codePoints_flatMap hps []
  rw [List.append_nil, codePoints, List.append_nil] at hpoints
  rw [toWellFormed, hpoints]

theorem wellFormed_nil : WellFormed [] :=
  ⟨[], (fun _ h => by cases h), rfl⟩

theorem WellFormed.append {u : Text} (ht : WellFormed t) (hu : WellFormed u) :
    WellFormed (t ++ u) := by
  obtain ⟨ps, hps, rfl⟩ := ht
  obtain ⟨qs, hqs, rfl⟩ := hu
  refine ⟨ps ++ qs, fun p hp => ?_, by rw [List.flatMap_append]⟩
  rcases List.mem_append.mp hp with hp | hp
  · exact hps p hp
  · exact hqs p hp

theorem ofCodePoint_toNat (c : CodeUnit) : ofCodePoint c.toNat = [c] := by
  have hc : c.toNat < 0x10000 := c.toNat_lt
  rw [ofCodePoint, if_pos hc]
  simp

theorem ofCodePoint_pair (hc : isHighSurrogate c = true) (hd : isLowSurrogate d = true) :
    ofCodePoint (0x10000 + (c.toNat - 0xD800) * 0x400 + (d.toNat - 0xDC00)) = [c, d] := by
  simp only [isHighSurrogate, isLowSurrogate, Bool.and_eq_true, decide_eq_true_eq,
    UInt16.le_iff_toNat_le, UInt16.reduceToNat] at hc hd
  have hfirst : 0xD800 + (0x10000 + (c.toNat - 0xD800) * 0x400 + (d.toNat - 0xDC00) - 0x10000) / 0x400
      = c.toNat := by omega
  have hsecond : 0xDC00
      + (0x10000 + (c.toNat - 0xD800) * 0x400 + (d.toNat - 0xDC00) - 0x10000) % 0x400
      = d.toNat := by omega
  rw [ofCodePoint, if_neg (by omega), hfirst, hsecond]
  simp

theorem toWellFormed_cons (hhigh : isHighSurrogate c = false) (hlow : isLowSurrogate c = false)
    (rest : Text) : toWellFormed (c :: rest) = c :: toWellFormed rest := by
  rw [toWellFormed, codePoints_plain hhigh, hlow, if_neg Bool.false_ne_true, List.flatMap_cons,
    ofCodePoint_toNat]
  rfl

theorem toWellFormed_pair (hc : isHighSurrogate c = true) (hd : isLowSurrogate d = true)
    (rest : Text) : toWellFormed (c :: d :: rest) = c :: d :: toWellFormed rest := by
  rw [toWellFormed, codePoints_pair hc hd, List.flatMap_cons, ofCodePoint_pair hc hd]
  rfl

theorem wellFormed_unit (hhigh : isHighSurrogate c = false) (hlow : isLowSurrogate c = false) :
    WellFormed [c] := by
  have hwell := wellFormed_toWellFormed [c]
  rwa [toWellFormed_cons hhigh hlow] at hwell

theorem wellFormed_pair (hc : isHighSurrogate c = true) (hd : isLowSurrogate d = true) :
    WellFormed [c, d] := by
  have hwell := wellFormed_toWellFormed [c, d]
  rwa [toWellFormed_pair hc hd] at hwell

theorem wellFormed_of_forall (h : ∀ c ∈ t, isHighSurrogate c = false ∧ isLowSurrogate c = false) :
    WellFormed t := by
  induction t with
  | nil => exact wellFormed_nil
  | cons c t ih =>
    obtain ⟨hc, ht⟩ := List.forall_mem_cons.mp h
    exact (wellFormed_unit hc.1 hc.2).append (ih ht)

theorem codePoints_toWellFormed (t : Text) : codePoints (toWellFormed t) = codePoints t := by
  have hpoints := codePoints_flatMap (isScalar_codePoints t) []
  rwa [List.append_nil, codePoints, List.append_nil] at hpoints

theorem encodeUtf8_toWellFormed (t : Text) : encodeUtf8 (toWellFormed t) = encodeUtf8 t := by
  rw [encodeUtf8, codePoints_toWellFormed, encodeUtf8]

/-! ## White space -/

theorem trim_eq_nil_iff : t.trim = [] ↔ ∀ c ∈ t, isWhitespace c = true := by
  rw [Text.trim, Text.trimEnd, List.reverse_eq_nil_iff, List.dropWhile_eq_nil_iff]
  constructor
  · intro h c hc
    rw [← List.takeWhile_append_dropWhile (p := isWhitespace) (l := t), List.mem_append] at hc
    rcases hc with hc | hc
    · exact List.all_eq_true.mp List.all_takeWhile c hc
    · exact h c (List.mem_reverse.mpr hc)
  · intro h c hc
    exact h c ((List.dropWhile_suffix _).subset (List.mem_reverse.mp hc))

theorem trim_toWellFormed_ne_nil (h : t.trim ≠ []) : (toWellFormed t).trim ≠ [] := by
  refine fun hnil => h (trim_eq_nil_iff.mpr ?_)
  rw [trim_eq_nil_iff] at hnil
  clear h
  induction t using codePoints.induct with
  | case1 => exact fun _ h => by cases h
  | case2 c hc =>
    rw [toWellFormed, codePoints_lone hc fun _ _ h => by cases h] at hnil
    exact absurd (hnil 0xFFFD List.mem_cons_self) (by decide)
  | case3 c hc d rest hd ih =>
    rw [toWellFormed_pair hc hd] at hnil
    obtain ⟨hc, hnil⟩ := List.forall_mem_cons.mp hnil
    obtain ⟨hd, hrest⟩ := List.forall_mem_cons.mp hnil
    exact List.forall_mem_cons.mpr ⟨hc, List.forall_mem_cons.mpr ⟨hd, ih hrest⟩⟩
  | case4 c hc d rest hd ih =>
    rw [toWellFormed, codePoints_lone hc fun e r h => by
      rw [← (List.cons.inj h).1]
      exact Bool.eq_false_iff.mpr hd] at hnil
    exact absurd (hnil 0xFFFD List.mem_cons_self) (by decide)
  | case5 c rest hc hlow ih =>
    rw [toWellFormed, codePoints_plain (Bool.eq_false_iff.mpr hc), if_pos hlow] at hnil
    exact absurd (hnil 0xFFFD List.mem_cons_self) (by decide)
  | case6 c rest hc hlow ih =>
    rw [toWellFormed_cons (Bool.eq_false_iff.mpr hc) (Bool.eq_false_iff.mpr hlow)] at hnil
    obtain ⟨hc, hrest⟩ := List.forall_mem_cons.mp hnil
    exact List.forall_mem_cons.mpr ⟨hc, ih hrest⟩

/-! ## Bytes -/

theorem decode_cons (d : Utf8Decoder) (b : UInt8) (bs : List UInt8) :
    d.decode (b :: bs)
      = (((d.decodeByte b).1.decode bs).1, (d.decodeByte b).2 ++ ((d.decodeByte b).1.decode bs).2) := by
  have hone : d.decode [b] = d.decodeByte b := by
    exact congrArg (Prod.mk _) (List.append_nil _)
  rw [← List.singleton_append, Utf8Decoder.decode_append, hone]

theorem toNat_toUInt8 (h : n < 0x100) : n.toUInt8.toNat = n := by
  simpa using Nat.mod_eq_of_lt h

theorem decodeByte_continues {codePoint needed lower upper : Nat} (hn : n < 0x100)
    (hlower : lower ≤ n) (hupper : n ≤ upper) :
    Utf8Decoder.decodeByte ⟨codePoint, needed + 2, lower, upper, true⟩ n.toUInt8
      = (⟨codePoint * 0x40 + n % 0x40, needed + 1, 0x80, 0xBF, true⟩, []) := by
  unfold Utf8Decoder.decodeByte
  rw [toNat_toUInt8 hn]
  dsimp only
  rw [if_neg (by omega), if_neg (by omega)]
  rfl

theorem decodeByte_ends {codePoint lower upper : Nat} (hn : n < 0x100) (hlower : lower ≤ n)
    (hupper : n ≤ upper) :
    Utf8Decoder.decodeByte ⟨codePoint, 1, lower, upper, true⟩ n.toUInt8
      = (bufferDecoder, ofCodePoint (codePoint * 0x40 + n % 0x40)) := by
  unfold Utf8Decoder.decodeByte
  rw [toNat_toUInt8 hn]
  dsimp only
  rw [if_neg (by omega), if_neg (by omega)]
  rfl

theorem decodeByte_leads (hn : n < 0x100) :
    bufferDecoder.decodeByte n.toUInt8 = bufferDecoder.leadByte n := by
  unfold Utf8Decoder.decodeByte
  rw [toNat_toUInt8 hn]
  rfl

/-- **The bytes of a code point** are read back as its code units. -/
theorem decode_encodeCodePoint {p : Nat} (hp : IsScalar p) :
    bufferDecoder.decode (encodeCodePoint p) = (bufferDecoder, ofCodePoint p) := by
  unfold IsScalar at hp
  unfold encodeCodePoint
  split
  · -- one byte
    have hlead : bufferDecoder.leadByte p = (bufferDecoder, ofCodePoint p) := by
      rw [Utf8Decoder.leadByte, if_pos (by omega)]
      rfl
    rw [decode_cons, decodeByte_leads (by omega), hlead, Utf8Decoder.decode_nil, List.append_nil]
  split
  · -- two bytes
    have hlead : bufferDecoder.leadByte (0xC0 + p / 0x40)
        = (⟨p / 0x40, 1, 0x80, 0xBF, true⟩, []) := by
      rw [Utf8Decoder.leadByte, if_neg (by omega), if_pos (by omega),
        show (0xC0 + p / 0x40) % 0x20 = p / 0x40 by omega]
      rfl
    have hpoint : p / 0x40 * 0x40 + (0x80 + p % 0x40) % 0x40 = p := by omega
    rw [decode_cons, decodeByte_leads (by omega), hlead, decode_cons,
      decodeByte_ends (by omega) (by omega) (by omega), hpoint, Utf8Decoder.decode_nil,
      List.append_nil, List.nil_append]
  split
  · -- three bytes; the second one tells overlong forms and surrogates
    have hlead : bufferDecoder.leadByte (0xE0 + p / 0x1000)
        = (⟨p / 0x1000, 2, if 0xE0 + p / 0x1000 = 0xE0 then 0xA0 else 0x80,
            if 0xE0 + p / 0x1000 = 0xED then 0x9F else 0xBF, true⟩, []) := by
      rw [Utf8Decoder.leadByte, if_neg (by omega), if_neg (by omega), if_pos (by omega),
        show (0xE0 + p / 0x1000) % 0x10 = p / 0x1000 by omega]
      rfl
    have hpoint : (p / 0x1000 * 0x40 + (0x80 + p / 0x40 % 0x40) % 0x40) * 0x40
        + (0x80 + p % 0x40) % 0x40 = p := by omega
    rw [decode_cons, decodeByte_leads (by omega), hlead, decode_cons,
      decodeByte_continues (by omega) (by split <;> omega) (by split <;> omega), decode_cons,
      decodeByte_ends (by omega) (by omega) (by omega), hpoint, Utf8Decoder.decode_nil,
      List.append_nil, List.nil_append, List.nil_append]
  · -- four bytes
    have hlead : bufferDecoder.leadByte (0xF0 + p / 0x40000)
        = (⟨p / 0x40000, 3, if 0xF0 + p / 0x40000 = 0xF0 then 0x90 else 0x80,
            if 0xF0 + p / 0x40000 = 0xF4 then 0x8F else 0xBF, true⟩, []) := by
      rw [Utf8Decoder.leadByte, if_neg (by omega), if_neg (by omega), if_neg (by omega),
        if_pos (by omega), show (0xF0 + p / 0x40000) % 0x08 = p / 0x40000 by omega]
      rfl
    have hpoint : ((p / 0x40000 * 0x40 + (0x80 + p / 0x1000 % 0x40) % 0x40) * 0x40
        + (0x80 + p / 0x40 % 0x40) % 0x40) * 0x40 + (0x80 + p % 0x40) % 0x40 = p := by omega
    rw [decode_cons, decodeByte_leads (by omega), hlead, decode_cons,
      decodeByte_continues (by omega) (by split <;> omega) (by split <;> omega), decode_cons,
      decodeByte_continues (by omega) (by omega) (by omega), decode_cons,
      decodeByte_ends (by omega) (by omega) (by omega), hpoint, Utf8Decoder.decode_nil,
      List.append_nil, List.nil_append, List.nil_append, List.nil_append]

/-- **The bytes of a string** are read back, its unpaired surrogates replaced. -/
theorem bytesToText_encodeUtf8 (t : Text) : bytesToText (encodeUtf8 t) = toWellFormed t := by
  have hdecode : ∀ ps : List Nat, (∀ p ∈ ps, IsScalar p) →
      bufferDecoder.decode (ps.flatMap encodeCodePoint) = (bufferDecoder, ps.flatMap ofCodePoint) := by
    intro ps hps
    induction ps with
    | nil => rfl
    | cons p ps ih =>
      obtain ⟨hp, hps⟩ := List.forall_mem_cons.mp hps
      rw [List.flatMap_cons, Utf8Decoder.decode_append, decode_encodeCodePoint hp, ih hps,
        List.flatMap_cons]
  rw [bytesToText, encodeUtf8, hdecode _ (isScalar_codePoints t)]
  exact List.append_nil _

end Ecma
