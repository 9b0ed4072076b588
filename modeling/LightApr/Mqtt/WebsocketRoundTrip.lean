import LightApr.Mqtt.FrameStream

/-! A frame written by the broker or by a client is read back, and no part of it is taken
for a frame. -/
namespace LightApr.Mqtt.WebsocketRoundTrip
open LightApr.Core WebsocketCodec

/-- The masking key of a client. -/
structure MaskKey where
  bytes : Bytes
  length : bytes.length = 4

/-- The length field with the mask bit set. -/
def maskedHeader (len : Nat) : Bytes := (frameHeader len).modifyHead (· ||| 0x80)

/-- The frame that `encode_frame` writes, in the form a client sends it: the mask bit is set, the key
follows the length, and the payload is combined with the key. -/
def maskedFrame (key : MaskKey) (payload : Bytes) (opcode : UInt8) : Bytes :=
  (0x80 ||| (opcode &&& 0x0F)) :: (maskedHeader payload.length ++ (key.bytes ++ unmask key.bytes payload))

theorem length_unmask (mask payload : Bytes) : (unmask mask payload).length = payload.length := List.length_mapIdx

/-- Masking twice with one key changes nothing. -/
theorem unmask_unmask (mask payload : Bytes) : unmask mask (unmask mask payload) = payload := by
  refine List.ext_getElem (by rw [length_unmask, length_unmask]) fun i _ _ => ?_
  simp only [unmask, List.getElem_mapIdx]
  rw [UInt8.xor_assoc, UInt8.xor_self, UInt8.xor_zero]

private theorem maskBit (b : UInt8) : (b ||| 0x80) &&& 0x80 ≠ 0 ∧ (b ||| 0x80) &&& 0x7F = b &&& 0x7F := by
  have h : ∀ n < 256, (UInt8.ofNat n ||| 0x80) &&& 0x80 ≠ 0 ∧
      (UInt8.ofNat n ||| 0x80) &&& 0x7F = UInt8.ofNat n &&& 0x7F := by decide +kernel
  simpa using h b.toNat b.toNat_lt

private theorem opcodeBits (b : UInt8) : (0x80 ||| (b &&& 0x0F)) &&& 0x0F = b &&& 0x0F ∧
    (0x80 ||| (b &&& 0x0F)) &&& 0x80 ≠ 0 ∧ b &&& 0x0F = b % 16 := by
  have h : ∀ n < 256, (0x80 ||| (UInt8.ofNat n &&& 0x0F)) &&& 0x0F = UInt8.ofNat n &&& 0x0F ∧
      (0x80 ||| (UInt8.ofNat n &&& 0x0F)) &&& 0x80 ≠ 0 ∧ UInt8.ofNat n &&& 0x0F = UInt8.ofNat n % 16 := by
    decide +kernel
  simpa using h b.toNat b.toNat_lt

/-- The mask bit is no part of the length. -/
theorem frameLength_masked (b0 b1 : UInt8) (t : Bytes) :
    frameLength (b0 :: (b1 ||| 0x80) :: t) = frameLength (b0 :: b1 :: t) := by
  simp [frameLength, substr, (maskBit b1).2]

private theorem exists_frameHeader (len : Nat) : ∃ b1 rest, frameHeader len = b1 :: rest := by
  unfold frameHeader
  split
  · exact ⟨_, _, rfl⟩
  · split
    · exact ⟨_, _, rfl⟩
    · exact ⟨_, _, rfl⟩

private theorem length_frameHeader_le (len : Nat) : (frameHeader len).length ≤ 9 := by
  unfold frameHeader
  split
  · exact Nat.le_add_left 1 8
  · split
    · exact Nat.le_add_left 3 6
    · exact Nat.le_refl 9

theorem length_maskedFrame (key : MaskKey) (payload : Bytes) (opcode : UInt8) :
    (maskedFrame key payload opcode).length = 1 + (frameHeader payload.length).length + 4 + payload.length := by
  rw [maskedFrame, maskedHeader, List.length_cons, List.length_append, List.length_modifyHead, List.length_append,
    key.length, length_unmask]
  omega

/-- A complete masked frame is decoded. -/
theorem decodeFrame_of_masked {data : Bytes} {payloadLen lenEnd : Nat}
    (hl : frameLength data = some (payloadLen, lenEnd))
    (hm : data.getD 1 0 &&& 0x80 ≠ 0) (hfit : lenEnd + 4 + payloadLen ≤ data.length)
    (hsize : lenEnd + 4 + payloadLen < sizeMax) :
    decodeFrame data = .frame ⟨data.getD 0 0 &&& 0x0F, data.getD 0 0 &&& 0x80 ≠ 0,
      unmask (substr data lenEnd 4) (substr data (lenEnd + 4) payloadLen)⟩ (lenEnd + 4 + payloadLen) := by
  unfold decodeFrame
  rw [hl]
  dsimp only
  rw [if_neg (by rintro ⟨-, h⟩; omega)]
  simp only [if_pos hm]
  rw [Nat.mod_eq_of_lt hsize, if_neg (by omega), if_neg (by omega)]

/-- A frame of a client decodes to its payload, whatever follows it. -/
theorem decodeFrame_maskedFrame (key : MaskKey) (payload : Bytes) (opcode : UInt8) (t : Bytes)
    (h : (maskedFrame key payload opcode).length < sizeMax) :
    decodeFrame (maskedFrame key payload opcode ++ t) =
      .frame ⟨opcode &&& 0x0F, true, payload⟩ (maskedFrame key payload opcode).length := by
  obtain ⟨b1, rest, hheader⟩ := exists_frameHeader payload.length
  obtain ⟨hbit, -⟩ := maskBit b1
  obtain ⟨hop, hfin, -⟩ := opcodeBits opcode
  generalize hb0 : (0x80 : UInt8) ||| (opcode &&& 0x0F) = b0 at hop hfin
  -- the frame, byte by byte
  have hmasked : maskedFrame key payload opcode ++ t =
      b0 :: (b1 ||| 0x80) :: (rest ++ (key.bytes ++ (unmask key.bytes payload ++ t))) := by
    rw [maskedFrame, maskedHeader, hheader, hb0, List.modifyHead_cons, List.cons_append, List.cons_append,
      List.cons_append, List.append_assoc, List.append_assoc]
  have hlength := length_maskedFrame key payload opcode
  rw [hheader] at hlength
  have hlen : frameLength (b0 :: (b1 ||| 0x80) :: (rest ++ (key.bytes ++ (unmask key.bytes payload ++ t)))) =
      some (payload.length, 1 + (b1 :: rest).length) := by
    obtain ⟨hlen, -⟩ := frameLength_frameHeader b0 (key.bytes ++ (unmask key.bytes payload ++ t))
      (show payload.length < sizeMax by omega)
    rw [hheader, List.cons_append] at hlen
    rw [frameLength_masked, hlen]
  have hkey : substr (b0 :: (b1 ||| 0x80) :: (rest ++ (key.bytes ++ (unmask key.bytes payload ++ t))))
      (1 + (b1 :: rest).length) 4 = key.bytes := by
    rw [substr, Nat.add_comm 1, List.length_cons, List.drop_succ_cons, List.drop_succ_cons, List.drop_left,
      ← key.length, List.take_left]
  have hpayload : substr (b0 :: (b1 ||| 0x80) :: (rest ++ (key.bytes ++ (unmask key.bytes payload ++ t))))
      (1 + (b1 :: rest).length + 4) payload.length = unmask key.bytes payload := by
    rw [substr, ← List.drop_drop, Nat.add_comm 1, List.length_cons, List.drop_succ_cons, List.drop_succ_cons,
      List.drop_left, ← key.length, List.drop_left, ← length_unmask key.bytes payload, List.take_left]
  rw [hlength] at h ⊢
  rw [hmasked, decodeFrame_of_masked hlen hbit _ h, hkey, hpayload, unmask_unmask, List.getD_cons_zero, hop]
  · simp [hfin]
  · rw [← hmasked, List.length_append, hlength]
    omega

/-- Before a frame is complete nothing is decoded. -/
theorem decodeFrame_incomplete {p t : Bytes} {f : WsFrame} {n : Nat} (h : decodeFrame (p ++ t) = .frame f n)
    (hshort : p.length < n) : decodeFrame p = .incomplete := by
  cases hp : decodeFrame p with
  | incomplete => rfl
  | threw => cases (FrameStream.decodeFrame_threw_append hp t).symm.trans h
  | frame g m =>
    have hm := (decodeFrame_within hp).2
    have hpt := FrameStream.decodeFrame_take hp (p.drop m ++ t)
    rw [← List.append_assoc, List.take_append_drop, h] at hpt
    obtain ⟨-, rfl⟩ := DecodeResult.frame.inj hpt
    omega

private theorem strict_prefix_incomplete {p whole : Bytes} {f : WsFrame}
    (h : decodeFrame (whole ++ []) = .frame f whole.length) (hp : List.IsPrefix p whole) (hne : p ≠ whole) :
    decodeFrame p = .incomplete := by
  obtain ⟨t, rfl⟩ := hp
  rw [List.append_nil] at h
  refine decodeFrame_incomplete h ?_
  have ht : 0 < t.length := List.length_pos_of_ne_nil fun ht => hne (by rw [ht, List.append_nil])
  rw [List.length_append]
  omega

/-- **A frame, unmasked or masked, decodes to its length, its opcode modulo 16 and its payload, and every
strict prefix of it is incomplete.** -/
theorem frames_round_trip (payload : Bytes) (opcode : UInt8) (key : MaskKey) (trailing : Bytes)
    (h : payload.length < 2 ^ 63) :
    decodeFrame (encodeFrame payload opcode ++ trailing) =
        .frame ⟨opcode % 16, true, payload⟩ (encodeFrame payload opcode).length ∧
      decodeFrame (maskedFrame key payload opcode ++ trailing) =
        .frame ⟨opcode % 16, true, payload⟩ (maskedFrame key payload opcode).length ∧
      (∀ p, List.IsPrefix p (encodeFrame payload opcode) → p ≠ encodeFrame payload opcode →
        decodeFrame p = .incomplete) ∧
      ∀ p, List.IsPrefix p (maskedFrame key payload opcode) → p ≠ maskedFrame key payload opcode →
        decodeFrame p = .incomplete := by
  obtain ⟨-, -, hop⟩ := opcodeBits opcode
  have hheader := length_frameHeader_le payload.length
  have hplain (t : Bytes) := decodeFrame_encodeFrame payload opcode t (by
    rw [encodeFrame_eq, List.length_cons, List.length_append, sizeMax]
    omega)
  have hmasked (t : Bytes) := decodeFrame_maskedFrame key payload opcode t (by
    rw [length_maskedFrame, sizeMax]
    omega)
  rw [← hop]
  exact ⟨hplain trailing, hmasked trailing, fun p hp hne => strict_prefix_incomplete (hplain []) hp hne,
    fun p hp hne => strict_prefix_incomplete (hmasked []) hp hne⟩

private def helloKey : MaskKey := ⟨[0x37, 0xFA, 0x21, 0x3D], rfl⟩

/-- The masked "Hello", followed by the beginning of another frame. -/
theorem hello_round_trips :
    decodeFrame (encodeFrame (ascii "Hello") 0x11 ++ [0x82]) = .frame ⟨0x01, true, ascii "Hello"⟩ 7 ∧
      decodeFrame (maskedFrame helloKey (ascii "Hello") 0x11 ++ [0x82]) = .frame ⟨0x01, true, ascii "Hello"⟩ 11 := by
  obtain ⟨hplain, hmasked, -⟩ := frames_round_trip (ascii "Hello") 0x11 helloKey [0x82] (by decide +kernel)
  have hop : (0x11 : UInt8) % 16 = 0x01 := by decide
  have hlen : (encodeFrame (ascii "Hello") 0x11).length = 7 ∧
      (maskedFrame helloKey (ascii "Hello") 0x11).length = 11 := by decide +kernel
  rw [hop, hlen.1] at hplain
  rw [hop, hlen.2] at hmasked
  exact ⟨hplain, hmasked⟩

end LightApr.Mqtt.WebsocketRoundTrip
