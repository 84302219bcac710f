import LlmRelay.Ecma.Text
import LlmRelay.Transition.Run

/-!
# UTF-8

`TextDecoder` in its default mode: malformed sequences become U+FFFD, a leading
byte order mark is dropped, and a sequence may be cut anywhere between two calls
that pass `stream: true`.

## Main definitions

* `Utf8Decoder`: the decoder between two bytes;
* `Utf8Decoder.decodeByte`, `Utf8Decoder.decode`: one byte, and one streamed call;
* `Utf8Decoder.flush`: the last call, which ends a pending sequence;
* `Utf8Decoder.fatalDecode`, `Utf8Decoder.fatalFlush`: the calls of a decoder in the mode
  `fatal: true`;
* `encodeUtf8`: `TextEncoder.encode`.

## Main results

* `Utf8Decoder.decode_append`: decoding does not see where the bytes are cut.
-/

namespace Ecma

/-- The replacement character. -/
def replacementCharacter : Nat := 0xFFFD

/-- The byte order mark. -/
def byteOrderMark : Nat := 0xFEFF

/-- The decoder between two bytes. The continuation bytes still owed are
`bytesNeeded`, and the next of them lies between `lower` and `upper`. -/
structure Utf8Decoder where
  codePoint : Nat
  bytesNeeded : Nat
  lower : Nat
  upper : Nat
  bomSeen : Bool
  deriving DecidableEq, Repr

namespace Utf8Decoder

/-- A new decoder. -/
def new : Utf8Decoder :=
  ⟨0, 0, 0x80, 0xBF, false⟩

/-- Between two sequences. -/
def reset (d : Utf8Decoder) : Utf8Decoder :=
  { d with codePoint := 0, bytesNeeded := 0, lower := 0x80, upper := 0xBF }

/-- A code point leaves the decoder; the first one is dropped when it is the
byte order mark. -/
def emit (d : Utf8Decoder) (p : Nat) : Utf8Decoder × Text :=
  if !d.bomSeen && p == byteOrderMark then
    ({ d with bomSeen := true }, [])
  else
    ({ d with bomSeen := true }, ofCodePoint p)

/-- The first byte of a sequence. -/
def leadByte (d : Utf8Decoder) (b : Nat) : Utf8Decoder × Text :=
  if b ≤ 0x7F then
    d.emit b
  else if 0xC2 ≤ b ∧ b ≤ 0xDF then
    ({ d with bytesNeeded := 1, codePoint := b % 0x20 }, [])
  else if 0xE0 ≤ b ∧ b ≤ 0xEF then
    -- no overlong forms after E0, no surrogates after ED
    ({ d with
        bytesNeeded := 2, codePoint := b % 0x10,
        lower := if b = 0xE0 then 0xA0 else d.lower,
        upper := if b = 0xED then 0x9F else d.upper }, [])
  else if 0xF0 ≤ b ∧ b ≤ 0xF4 then
    ({ d with
        bytesNeeded := 3, codePoint := b % 0x08,
        lower := if b = 0xF0 then 0x90 else d.lower,
        upper := if b = 0xF4 then 0x8F else d.upper }, [])
  else
    d.emit replacementCharacter

/-- One byte. -/
def decodeByte (d : Utf8Decoder) (byte : UInt8) : Utf8Decoder × Text :=
  let b := byte.toNat
  if d.bytesNeeded = 0 then
    d.leadByte b
  else if b < d.lower ∨ d.upper < b then
    -- the sequence is malformed, and the byte is read again as a first byte
    let failed := d.reset.emit replacementCharacter
    let again := failed.1.leadByte b
    (again.1, failed.2 ++ again.2)
  else
    let codePoint := d.codePoint * 0x40 + b % 0x40
    if d.bytesNeeded = 1 then
      d.reset.emit codePoint
    else
      ({ d with
          codePoint := codePoint, bytesNeeded := d.bytesNeeded - 1,
          lower := 0x80, upper := 0xBF }, [])

/-- `decoder.decode(bytes, { stream: true })`. -/
def decode (d : Utf8Decoder) (bytes : List UInt8) : Utf8Decoder × Text :=
  (Transition.finalState decodeByte d bytes,
    (Transition.history decodeByte d bytes).flatMap Prod.snd)

/-- `decoder.decode()`: a sequence still pending is malformed. -/
def flush (d : Utf8Decoder) : Text :=
  if d.bytesNeeded = 0 then [] else (d.reset.emit replacementCharacter).2

@[simp] theorem decode_nil (d : Utf8Decoder) : d.decode [] = (d, []) := rfl

/-- **Decoding does not see where the bytes are cut**. -/
theorem decode_append (d : Utf8Decoder) (as bs : List UInt8) :
    d.decode (as ++ bs)
      = (((d.decode as).1.decode bs).1, (d.decode as).2 ++ ((d.decode as).1.decode bs).2) := by
  simp [decode, Transition.finalState_append, Transition.history_append]

end Utf8Decoder

/-! ## Fatal decoding -/

namespace Utf8Decoder

/-- The byte does not continue what was read. -/
def rejects (d : Utf8Decoder) (byte : UInt8) : Bool :=
  let b := byte.toNat
  if d.bytesNeeded = 0 then decide (0x7F < b ∧ b < 0xC2 ∨ 0xF4 < b)
  else decide (b < d.lower ∨ d.upper < b)

/-- A streamed call of a fatal decoder, absent where it throws. -/
def fatalDecode (d : Utf8Decoder) (bytes : List UInt8) : Option Utf8Decoder :=
  bytes.foldlM (fun d byte => if d.rejects byte then none else some (d.decodeByte byte).1) d

/-- The last call of a fatal decoder: whether it returns. -/
def fatalFlush (d : Utf8Decoder) : Bool :=
  d.bytesNeeded == 0

theorem fatalDecode_append (d : Utf8Decoder) (as bs : List UInt8) :
    d.fatalDecode (as ++ bs) = (d.fatalDecode as).bind (·.fatalDecode bs) := by
  unfold fatalDecode
  rw [List.foldlM_append]
  rfl

end Utf8Decoder

/-- The byte sequence is UTF-8. -/
def wellFormedUtf8 (bytes : List UInt8) : Bool :=
  (Utf8Decoder.new.fatalDecode bytes).any (·.fatalFlush)

/-- The text of a whole byte sequence. -/
def decodeUtf8 (bytes : List UInt8) : Text :=
  (Utf8Decoder.new.decode bytes).2 ++ (Utf8Decoder.new.decode bytes).1.flush

/-! ## Encoding -/

/-- A high surrogate. -/
def isHighSurrogate (c : CodeUnit) : Bool :=
  decide (0xD800 ≤ c) && decide (c ≤ 0xDBFF)

/-- A low surrogate. -/
def isLowSurrogate (c : CodeUnit) : Bool :=
  decide (0xDC00 ≤ c) && decide (c ≤ 0xDFFF)

/-- The code points of a string; an unpaired surrogate is the replacement
character. -/
def codePoints : Text → List Nat
  | [] => []
  | c :: rest =>
    if isHighSurrogate c then
      match rest with
      | [] => [replacementCharacter]
      | d :: rest' =>
        if isLowSurrogate d then
          (0x10000 + (c.toNat - 0xD800) * 0x400 + (d.toNat - 0xDC00)) :: codePoints rest'
        else replacementCharacter :: codePoints (d :: rest')
    else if isLowSurrogate c then replacementCharacter :: codePoints rest
    else c.toNat :: codePoints rest

/-- The bytes of a code point. -/
def encodeCodePoint (p : Nat) : List UInt8 :=
  if p ≤ 0x7F then [p.toUInt8]
  else if p ≤ 0x7FF then [(0xC0 + p / 0x40).toUInt8, (0x80 + p % 0x40).toUInt8]
  else if p ≤ 0xFFFF then
    [(0xE0 + p / 0x1000).toUInt8, (0x80 + p / 0x40 % 0x40).toUInt8, (0x80 + p % 0x40).toUInt8]
  else
    [(0xF0 + p / 0x40000).toUInt8, (0x80 + p / 0x1000 % 0x40).toUInt8,
      (0x80 + p / 0x40 % 0x40).toUInt8, (0x80 + p % 0x40).toUInt8]

/-- `TextEncoder.encode`. -/
def encodeUtf8 (t : Text) : List UInt8 :=
  (codePoints t).flatMap encodeCodePoint

variable {c : CodeUnit}

theorem codePoints_plain (hc : isHighSurrogate c = false) (rest : Text) :
    codePoints (c :: rest)
      = (if isLowSurrogate c then replacementCharacter else c.toNat) :: codePoints rest := by
  rw [codePoints.eq_def]
  simp only [hc, Bool.false_eq_true, if_false]
  split <;> rfl

theorem codePoints_pair {d : CodeUnit} (hc : isHighSurrogate c = true)
    (hd : isLowSurrogate d = true) (rest : Text) :
    codePoints (c :: d :: rest)
      = (0x10000 + (c.toNat - 0xD800) * 0x400 + (d.toNat - 0xDC00)) :: codePoints rest := by
  rw [codePoints.eq_def]
  simp only [hc, hd, if_true]

theorem codePoints_lone (hc : isHighSurrogate c = true) {rest : Text}
    (hrest : ∀ d r, rest = d :: r → isLowSurrogate d = false) :
    codePoints (c :: rest) = replacementCharacter :: codePoints rest := by
  rw [codePoints.eq_def]
  cases rest with
  | nil => simp [hc, codePoints]
  | cons d r => simp [hc, hrest d r rfl]

theorem encodeUtf8_length_cons (p : Nat) (ps : List Nat) :
    ((p :: ps).flatMap encodeCodePoint).length
      = (encodeCodePoint p).length + (ps.flatMap encodeCodePoint).length := by
  rw [List.flatMap_cons, List.length_append]

theorem encodeUtf8_length_append (t u : Text) :
    (encodeUtf8 t).length ≤ (encodeUtf8 (t ++ u)).length := by
  unfold encodeUtf8
  have hreplacement : (encodeCodePoint replacementCharacter).length = 3 := by decide
  have hpair : ∀ q, 0x10000 ≤ q → (encodeCodePoint q).length = 4 := by
    intro q hq
    rw [encodeCodePoint, if_neg (by omega), if_neg (by omega), if_neg (by omega)]
    rfl
  induction t using codePoints.induct with
  | case1 => exact Nat.zero_le _
  | case2 c hc =>
    -- the pair of an unpaired surrogate may come with the longer string
    rw [codePoints_lone hc (fun _ _ h => by cases h), List.cons_append, List.nil_append, encodeUtf8_length_cons,
      hreplacement]
    by_cases hlone : ∀ d r, u = d :: r → isLowSurrogate d = false
    · rw [codePoints_lone hc hlone, encodeUtf8_length_cons]
      exact Nat.add_le_add_left (Nat.zero_le _) 3
    · obtain ⟨d, r, rfl, hd⟩ : ∃ d r, u = d :: r ∧ isLowSurrogate d = true := by
        simpa using hlone
      rw [codePoints_pair hc hd, encodeUtf8_length_cons, hpair _ (by omega)]
      exact Nat.le_trans (by decide : 3 + 0 ≤ 4) (Nat.le_add_right 4 _)
  | case3 c hc d rest hd ih =>
    rw [List.cons_append, List.cons_append, codePoints_pair hc hd, codePoints_pair hc hd,
      encodeUtf8_length_cons, encodeUtf8_length_cons]
    exact Nat.add_le_add_left ih _
  | case4 c hc d rest hd ih =>
    have hlone : ∀ r d' r', d :: r = d' :: r' → isLowSurrogate d' = false := by
      intro r d' r' h
      rw [← (List.cons.inj h).1]
      simpa using hd
    rw [List.cons_append, codePoints_lone hc (hlone rest),
      List.cons_append, codePoints_lone hc (hlone (rest ++ u)),
      encodeUtf8_length_cons, encodeUtf8_length_cons]
    exact Nat.add_le_add_left ih _
  | case5 c rest hc _ ih =>
    rw [List.cons_append, codePoints_plain (by simpa using hc),
      codePoints_plain (by simpa using hc), encodeUtf8_length_cons, encodeUtf8_length_cons]
    exact Nat.add_le_add_left ih _
  | case6 c rest hc _ ih =>
    rw [List.cons_append, codePoints_plain (by simpa using hc),
      codePoints_plain (by simpa using hc), encodeUtf8_length_cons, encodeUtf8_length_cons]
    exact Nat.add_le_add_left ih _

theorem codePoints_snoc (t : Text) (hhigh : isHighSurrogate c = false)
    (hlow : isLowSurrogate c = false) : codePoints (t ++ [c]) = codePoints t ++ [c.toNat] := by
  have hc : codePoints [c] = [c.toNat] := by
    rw [codePoints_plain hhigh, hlow]
    rfl
  induction t using codePoints.induct with
  | case1 => exact hc
  | case2 d hd =>
    have hlone : ∀ e r, [c] = e :: r → isLowSurrogate e = false := by
      rintro e r h
      cases h
      exact hlow
    rw [List.cons_append, List.nil_append, codePoints_lone hd hlone, hc,
      codePoints_lone hd (fun _ _ h => by cases h)]
    rfl
  | case3 d hd e rest he ih =>
    rw [List.cons_append, List.cons_append, codePoints_pair hd he, ih, codePoints_pair hd he,
      List.cons_append]
  | case4 d hd e rest he ih =>
    have hlone : ∀ r e' r', e :: r = e' :: r' → isLowSurrogate e' = false := by
      intro r e' r' h
      rw [← (List.cons.inj h).1]
      simpa using he
    rw [List.cons_append, codePoints_lone hd (hlone rest),
      List.cons_append, codePoints_lone hd (hlone (rest ++ [c])), ← List.cons_append, ih,
      List.cons_append]
  | case5 d rest hd _ ih =>
    rw [List.cons_append, codePoints_plain (by simpa using hd),
      codePoints_plain (by simpa using hd), ih, List.cons_append]
  | case6 d rest hd _ ih =>
    rw [List.cons_append, codePoints_plain (by simpa using hd),
      codePoints_plain (by simpa using hd), ih, List.cons_append]

-- a byte order mark, `é`, a stray continuation byte, and a cut-off sequence
example :
    decodeUtf8 [0xEF, 0xBB, 0xBF, 0xC3, 0xA9, 0x80, 0x61, 0xE2, 0x82]
      = [0xE9, 0xFFFD, 0x61, 0xFFFD] := by
  decide

end Ecma
