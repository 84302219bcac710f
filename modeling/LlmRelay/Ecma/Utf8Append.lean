import LlmRelay.Ecma.Utf8RoundTrip

/-!
# Bytes put after a file

What a file holds may end in the middle of a sequence. An ASCII byte after it ends the sequence,
so bytes that begin with one are read as they are read alone.

## Main definitions

* `Utf8Decoder.Ready d`: `d` is a state in which a decoder of a `Buffer` can be.

## Main results

* `Utf8Decoder.decodeByte_ascii`: what an ASCII byte does to every such state;
* `bytesToText_append`: the text of a file to which a string was appended;
* `toWellFormed_induction`: how unpaired surrogates are replaced, and from it `length_toWellFormed`
  and `mem_toWellFormed`;
* `toWellFormed_append_cons`: a string is read on both sides of an ASCII character alone.
-/

namespace Ecma

namespace Utf8Decoder

/-- A state of a decoder that keeps byte order marks. -/
structure Ready (d : Utf8Decoder) : Prop where
  idle : d.bytesNeeded = 0 → d = bufferDecoder
  lower : 0x80 ≤ d.lower
  bomSeen : d.bomSeen = true

theorem ready_bufferDecoder : bufferDecoder.Ready where
  idle := fun _ => rfl
  lower := Nat.le_refl _
  bomSeen := rfl

variable {d : Utf8Decoder}

theorem Ready.reset_eq (h : d.Ready) : d.reset = bufferDecoder := by
  rw [reset, h.bomSeen]
  rfl

theorem emit_bufferDecoder (p : Nat) : bufferDecoder.emit p = (bufferDecoder, ofCodePoint p) := rfl

theorem ready_leadByte (b : Nat) : (bufferDecoder.leadByte b).1.Ready := by
  rw [leadByte]
  split
  · exact ready_bufferDecoder
  split
  · exact ⟨fun h => (by cases h), Nat.le_refl _, rfl⟩
  split
  · exact ⟨fun h => (by cases h), by dsimp only [bufferDecoder, new]; split <;> omega, rfl⟩
  split
  · exact ⟨fun h => (by cases h), by dsimp only [bufferDecoder, new]; split <;> omega, rfl⟩
  · exact ready_bufferDecoder

/-- **One byte** leaves the decoder in one of its states. -/
theorem Ready.decodeByte (h : d.Ready) (byte : UInt8) : (d.decodeByte byte).1.Ready := by
  unfold Utf8Decoder.decodeByte
  dsimp only
  split
  · rename_i hidle
    rw [h.idle hidle]
    exact ready_leadByte _
  split
  · rw [h.reset_eq]
    exact ready_leadByte _
  split
  · rw [h.reset_eq]
    exact ready_bufferDecoder
  · rename_i hmore hone
    exact ⟨fun hnone => by dsimp only at hnone; omega, Nat.le_refl _, h.bomSeen⟩

theorem Ready.decode (h : d.Ready) (bytes : List UInt8) : (d.decode bytes).1.Ready := by
  induction bytes generalizing d with
  | nil => exact h
  | cons b bytes ih =>
    exact ih (h.decodeByte b)

/-- An ASCII byte ends the sequence that is pending, and stands for itself. -/
theorem Ready.decodeByte_ascii (h : d.Ready) {n : Nat} (hn : n < 0x80) :
    d.decodeByte n.toUInt8 = (bufferDecoder, d.flush ++ ofCodePoint n) := by
  have hlead : bufferDecoder.leadByte n = (bufferDecoder, ofCodePoint n) := by
    rw [leadByte, if_pos (by omega)]
    rfl
  unfold Utf8Decoder.decodeByte flush
  rw [toNat_toUInt8 (by omega)]
  dsimp only
  split
  · rename_i hidle
    rw [h.idle hidle, hlead, List.nil_append]
  · rw [if_pos (.inl (Nat.lt_of_lt_of_le hn h.lower)), h.reset_eq, emit_bufferDecoder, hlead]

end Utf8Decoder

/-! ## Appending to a file -/

variable {c : CodeUnit}

/-- **An appended string** that begins with an ASCII character is read as it is read alone, after
what the file held. -/
theorem bytesToText_append (bytes : List UInt8) (hc : c < 0x80) (t : Text) :
    bytesToText (bytes ++ encodeUtf8 (c :: t)) = bytesToText bytes ++ c :: toWellFormed t := by
  have hn : c.toNat < 0x80 := UInt16.lt_iff_toNat_lt.mp hc
  have hhigh : isHighSurrogate c = false := by
    simp only [isHighSurrogate, Bool.and_eq_false_iff, decide_eq_false_iff_not,
      UInt16.le_iff_toNat_le, UInt16.reduceToNat]
    omega
  have hlow : isLowSurrogate c = false := by
    simp only [isLowSurrogate, Bool.and_eq_false_iff, decide_eq_false_iff_not,
      UInt16.le_iff_toNat_le, UInt16.reduceToNat]
    omega
  have hencode : encodeUtf8 (c :: t) = c.toNat.toUInt8 :: encodeUtf8 t := by
    rw [encodeUtf8, codePoints_plain hhigh, hlow, if_neg Bool.false_ne_true, List.flatMap_cons,
      encodeCodePoint, if_pos (by omega)]
    rfl
  have hready := Utf8Decoder.ready_bufferDecoder.decode bytes
  have htail := bytesToText_encodeUtf8 t
  rw [bytesToText] at htail
  rw [hencode, bytesToText, Utf8Decoder.decode_append, decode_cons, hready.decodeByte_ascii hn,
    ofCodePoint_toNat, bytesToText, ← htail]
  simp only [List.append_assoc, List.nil_append, List.cons_append]

/-! ## Unpaired surrogates -/

theorem toWellFormed_lone (hc : isHighSurrogate c = true) {rest : Text}
    (hrest : ∀ d r, rest = d :: r → isLowSurrogate d = false) :
    toWellFormed (c :: rest) = 0xFFFD :: toWellFormed rest := by
  rw [toWellFormed, codePoints_lone hc hrest]
  rfl

theorem toWellFormed_low (hhigh : isHighSurrogate c = false) (hlow : isLowSurrogate c = true)
    (rest : Text) : toWellFormed (c :: rest) = 0xFFFD :: toWellFormed rest := by
  rw [toWellFormed, codePoints_plain hhigh, if_pos hlow]
  rfl

/-- What is shown of a string unit by unit, where an unpaired surrogate comes out as the replacement
character. -/
theorem toWellFormed_induction {P : Text → Text → Prop} (hnil : P [] [])
    (hpair : ∀ c d t u, P t u → P (c :: d :: t) (c :: d :: u))
    (hreplaced : ∀ c t u, P t u → P (c :: t) (0xFFFD :: u))
    (hkept : ∀ c t u, P t u → P (c :: t) (c :: u)) (t : Text) : P t (toWellFormed t) := by
  induction t using codePoints.induct with
  | case1 => exact hnil
  | case2 c hc =>
    rw [toWellFormed_lone hc fun _ _ h => by cases h]
    exact hreplaced c [] [] hnil
  | case3 c hc d rest hd ih =>
    rw [toWellFormed_pair hc hd]
    exact hpair c d rest _ ih
  | case4 c hc d rest hd ih =>
    rw [toWellFormed_lone hc fun e r h => by
      rw [← (List.cons.inj h).1]
      exact Bool.eq_false_iff.mpr hd]
    exact hreplaced c _ _ ih
  | case5 c rest hc hlow ih =>
    rw [toWellFormed_low (Bool.eq_false_iff.mpr hc) hlow]
    exact hreplaced c rest _ ih
  | case6 c rest hc hlow ih =>
    rw [toWellFormed_cons (Bool.eq_false_iff.mpr hc) (Bool.eq_false_iff.mpr hlow)]
    exact hkept c rest _ ih

/-- Replaced units are units. -/
theorem length_toWellFormed (t : Text) : (toWellFormed t).length = t.length := by
  refine toWellFormed_induction (P := fun t u => u.length = t.length) rfl ?_ ?_ ?_ t
  · intro c d t u h
    rw [List.length_cons, List.length_cons, h]
    rfl
  · intro c t u h
    exact congrArg Nat.succ h
  · intro c t u h
    exact congrArg Nat.succ h

/-- A unit of the result stood in the string, or replaces one. -/
theorem mem_toWellFormed (t : Text) : ∀ c ∈ toWellFormed t, c ∈ t ∨ c = 0xFFFD := by
  refine toWellFormed_induction (P := fun t u => ∀ c ∈ u, c ∈ t ∨ c = 0xFFFD) ?_ ?_ ?_ ?_ t
  · exact fun c h => by cases h
  · intro c d t u ih x hx
    rcases List.mem_cons.mp hx with rfl | hx
    · exact .inl List.mem_cons_self
    rcases List.mem_cons.mp hx with rfl | hx
    · exact .inl (List.mem_cons_of_mem _ List.mem_cons_self)
    · exact (ih x hx).imp_left fun h => List.mem_cons_of_mem _ (List.mem_cons_of_mem _ h)
  · intro c t u ih x hx
    rcases List.mem_cons.mp hx with rfl | hx
    · exact .inr rfl
    · exact (ih x hx).imp_left (List.mem_cons_of_mem _)
  · intro c t u ih x hx
    rcases List.mem_cons.mp hx with rfl | hx
    · exact .inl List.mem_cons_self
    · exact (ih x hx).imp_left (List.mem_cons_of_mem _)

/-- A code unit that is no surrogate parts a string. -/
theorem toWellFormed_append_cons (hhigh : isHighSurrogate c = false)
    (hlow : isLowSurrogate c = false) (t u : Text) :
    toWellFormed (t ++ c :: u) = toWellFormed t ++ c :: toWellFormed u := by
  induction t using codePoints.induct with
  | case1 => exact toWellFormed_cons hhigh hlow u
  | case2 x hx =>
    -- the surrogate at the end of `t` stays unpaired
    rw [toWellFormed_lone hx (fun _ _ h => by cases h), List.cons_append, List.nil_append,
      toWellFormed_lone hx (fun d r h => by rwa [← (List.cons.inj h).1]),
      toWellFormed_cons hhigh hlow]
    rfl
  | case3 x hx d rest hd ih =>
    rw [List.cons_append, List.cons_append, toWellFormed_pair hx hd, toWellFormed_pair hx hd, ih]
    rfl
  | case4 x hx d rest hd ih =>
    have hfirst : ∀ rest' e r, d :: rest' = e :: r → isLowSurrogate e = false := by
      intro rest' e r h
      rw [← (List.cons.inj h).1]
      exact Bool.eq_false_iff.mpr hd
    rw [toWellFormed_lone hx (hfirst _), List.cons_append, List.cons_append,
      toWellFormed_lone hx (hfirst _), ← List.cons_append, ih]
    rfl
  | case5 x rest hx hxlow ih =>
    rw [List.cons_append, toWellFormed_low (Bool.eq_false_iff.mpr hx) hxlow,
      toWellFormed_low (Bool.eq_false_iff.mpr hx) hxlow, ih]
    rfl
  | case6 x rest hx hxlow ih =>
    rw [List.cons_append, toWellFormed_cons (Bool.eq_false_iff.mpr hx) (Bool.eq_false_iff.mpr hxlow),
      toWellFormed_cons (Bool.eq_false_iff.mpr hx) (Bool.eq_false_iff.mpr hxlow), ih]
    rfl

end Ecma
