import LightApr.Lib.Access
import LightApr.Mqtt.WebsocketCodec

/-! `decode_frame` with its index arithmetic: 64-bit sums wrap, every byte is taken through a
checked access, and `resize` throws above the largest size of a string. -/
namespace LightApr.Mqtt.WebsocketBounds
open LightApr.Core LightApr.Lib LightApr.Lib.Access
open WebsocketCodec (WsFrame)

/-- A frame, the length of its header and the number that is returned. -/
structure Decoded where
  frame : WsFrame
  headerLen : Nat
  consumed : Nat
  deriving DecidableEq, Repr

/-- `payload_len = (payload_len << 8) | data[pos + i]` for `n` bytes. -/
def lengthBytes (data : Bytes) : Nat → Nat → Nat → Access Nat
  | _, 0, payloadLen => pure payloadLen
  | pos, n + 1, payloadLen => do
    let b ← read data pos
    lengthBytes data (pos + 1) n ((payloadLen * 256 + b.toNat) % sizeMax)

/-- Payload length and header length before the mask; none: 0 is returned. -/
def frameLength (data : Bytes) (b1 : UInt8) : Access (Option (Nat × Nat)) :=
  let len7 := (b1 &&& 0x7F).toNat
  if len7 = 126 then
    if data.length < 4 then pure none
    else do
      let payloadLen ← lengthBytes data 2 2 0
      pure (some (payloadLen, 4))
  else if len7 = 127 then
    if data.length < 10 then pure none
    else do
      let payloadLen ← lengthBytes data 2 8 0
      pure (some (payloadLen, 10))
  else pure (some (len7, 2))

/-- The four bytes of `mask`, and the header length with them. -/
def readMask (data : Bytes) (masked : Bool) (headerLen : Nat) : Access (Option (Bytes × Nat)) :=
  if masked then
    if data.length < (headerLen + 4) % sizeMax then pure none
    else do
      let mask ← slice data headerLen 4
      pure (some (mask, (headerLen + 4) % sizeMax))
  else pure (some ([0, 0, 0, 0], headerLen))

/-- `payload[i] = payload_src[i] ^ mask[i % 4]` for `n` bytes from `i` on. -/
def unmaskFrom (data : Bytes) (payloadSrc : Nat) (mask : Bytes) : Nat → Nat → Access Bytes
  | 0, _ => pure []
  | n + 1, i => do
    let b ← read data (payloadSrc + i)
    let m ← read mask (i % 4)
    let rest ← unmaskFrom data payloadSrc mask n (i + 1)
    pure ((b ^^^ m) :: rest)

/-- The payload, unmasked or copied. -/
def copyPayload (data : Bytes) (masked : Bool) (payloadLen : Nat) (mask : Bytes) (headerLen : Nat) : Access Bytes :=
  if masked then unmaskFrom data headerLen mask payloadLen 0 else slice data headerLen payloadLen

/-- The part of `decode_frame` behind the header; `maxSize` is `std::string::max_size()`. -/
def framePayload (maxSize : Nat) (data : Bytes) (b0 : UInt8) (masked : Bool) (payloadLen : Nat) (mask : Bytes)
    (headerLen : Nat) : Access (Option Decoded) :=
  if data.length < (headerLen + payloadLen) % sizeMax then pure none
  else do
    throwIf (payloadLen > maxSize)
    let payload ← copyPayload data masked payloadLen mask headerLen
    pure (some ⟨⟨b0 &&& 0x0F, b0 &&& 0x80 ≠ 0, payload⟩, headerLen, (headerLen + payloadLen) % sizeMax⟩)

/-- none: 0 is returned. -/
def decodeFrame (maxSize : Nat) (data : Bytes) : Access (Option Decoded) :=
  if data.length < 2 then pure none
  else do
    let b0 ← read data 0
    let b1 ← read data 1
    let masked : Bool := b1 &&& 0x80 ≠ 0
    (frameLength data b1).unlessNone fun (payloadLen, headerLen) =>
      (readMask data masked headerLen).unlessNone fun (mask, headerLen) =>
        framePayload maxSize data b0 masked payloadLen mask headerLen

/-- The code has ended without an exception and has read inside the array only. It returns 0, or a number
of bytes between the header and the end of the array, and a payload of what lies behind the header. -/
def InOrder (data : Bytes) (m : Access (Option Decoded)) : Prop :=
  m.outcome = .returned none ∨ ∃ d, m.outcome = .returned (some d) ∧ d.headerLen ≤ d.consumed ∧
    d.consumed ≤ data.length ∧ d.frame.payload.length = d.consumed - d.headerLen

/-- The payload length and the header length that a complete header announces. -/
def announced (data : Bytes) : Option (Nat × Nat) :=
  match WebsocketCodec.frameLength data with
  | none => none
  | some (payloadLen, lenEnd) =>
    if data.getD 1 0 &&& 0x80 = 0 then some (payloadLen, lenEnd)
    else if data.length < lenEnd + 4 then none
    else some (payloadLen, lenEnd + 4)

/-- Eight bytes at most, so nothing is shifted out. -/
theorem lengthBytes_eq {data : Bytes} {pos n k payloadLen : Nat} (h : pos + n ≤ data.length)
    (hlen : payloadLen < 256 ^ k) (hk : n + k ≤ 8) :
    lengthBytes data pos n payloadLen = pure ((substr data pos n).foldl (fun n b => n * 256 + b.toNat) payloadLen) := by
  induction n generalizing pos k payloadLen with
  | zero => simp [lengthBytes, substr]
  | succ n ih =>
    have hb (b : UInt8) : payloadLen * 256 + b.toNat < 256 ^ (k + 1) := by
      have := b.toNat_lt
      rw [Nat.pow_succ]
      omega
    have hpow : 256 ^ (k + 1) ≤ sizeMax := Nat.pow_le_pow_right (by decide) (by omega : k + 1 ≤ 8)
    rw [lengthBytes, read_eq (by omega) 0, pure_bind', substr, List.drop_eq_getElem_cons (by omega),
      List.take_succ_cons, List.foldl_cons, List.getD_eq_getElem?_getD, List.getElem?_eq_getElem (by omega),
      Option.getD_some, Nat.mod_eq_of_lt (Nat.lt_of_lt_of_le (hb _) hpow)]
    exact ih (by omega) (hb _) (by omega)

/-- The header parser returns what is announced. -/
theorem frameLength_eq (data : Bytes) (h : 2 ≤ data.length) :
    (frameLength data (data.getD 1 0)).outcome = .returned (WebsocketCodec.frameLength data) := by
  have hvalue (n : Nat) (hn : 2 + n ≤ data.length) (h8 : n ≤ 8) :
      lengthBytes data 2 n 0 = pure (WebsocketCodec.beValue (substr data 2 n)) :=
    lengthBytes_eq (k := 0) hn (by decide) h8
  unfold frameLength WebsocketCodec.frameLength
  dsimp only
  rw [if_neg (Nat.not_lt.mpr h)]
  generalize (data.getD 1 0 &&& 127).toNat = len7
  by_cases h126 : len7 = 126
  · simp only [if_pos h126]
    split
    · rfl
    · rw [hvalue 2 (by omega) (by decide)]
      rfl
  · simp only [if_neg h126]
    by_cases h127 : len7 = 127
    · simp only [if_pos h127]
      split
      · rfl
      · rw [hvalue 8 (by omega) (by decide)]
        rfl
    · simp only [if_neg h127]
      rfl

/-- The loop over the payload, where the array holds all of it. -/
theorem unmaskFrom_eq {data mask : Bytes} {src n i : Nat} (hmask : mask.length = 4)
    (h : src + i + n ≤ data.length) :
    unmaskFrom data src mask n i =
      pure ((substr data (src + i) n).mapIdx fun k b => b ^^^ mask.getD ((i + k) % 4) 0) := by
  induction n generalizing i with
  | zero => simp [unmaskFrom, substr]
  | succ n ih =>
    have hm : i % 4 < mask.length := by
      rw [hmask]
      exact Nat.mod_lt i (by decide)
    have hlt : src + i < data.length := by omega
    rw [unmaskFrom, read_eq hlt 0, pure_bind', read_eq hm 0, pure_bind', ih (by omega), pure_bind', substr,
      substr, List.drop_eq_getElem_cons hlt, List.take_succ_cons, List.mapIdx_cons,
      List.getD_eq_getElem?_getD, List.getElem?_eq_getElem hlt]
    simp only [Option.getD_some, Nat.add_zero, ← Nat.add_assoc, Nat.add_right_comm i 1]

/-- The payload of an announced frame. -/
def payloadOf (data : Bytes) (payloadLen headerLen : Nat) : Bytes :=
  if data.getD 1 0 &&& 0x80 = 0 then substr data headerLen payloadLen
  else WebsocketCodec.unmask (substr data (headerLen - 4) 4) (substr data headerLen payloadLen)

theorem payloadOf_length {data : Bytes} {payloadLen headerLen : Nat} (h : headerLen + payloadLen ≤ data.length) :
    (payloadOf data payloadLen headerLen).length = payloadLen := by
  have hsub : (substr data headerLen payloadLen).length = payloadLen := by
    rw [substr, List.length_take, List.length_drop]
    omega
  rw [payloadOf]
  split
  · exact hsub
  · rw [WebsocketCodec.unmask, List.length_mapIdx, hsub]

theorem frameLength_le_ten {data : Bytes} {payloadLen lenEnd : Nat}
    (h : WebsocketCodec.frameLength data = some (payloadLen, lenEnd)) : lenEnd ≤ 10 := by
  unfold WebsocketCodec.frameLength at h
  dsimp only at h
  split at h
  · cases h
  · split at h
    · split at h
      · cases h
      · obtain ⟨-, rfl⟩ := Prod.mk.inj (Option.some.inj h)
        decide
    · split at h
      · split at h
        · cases h
        · obtain ⟨-, rfl⟩ := Prod.mk.inj (Option.some.inj h)
          decide
      · obtain ⟨-, rfl⟩ := Prod.mk.inj (Option.some.inj h)
        decide

theorem announced_le {data : Bytes} {payloadLen headerLen : Nat}
    (h : announced data = some (payloadLen, headerLen)) : headerLen ≤ 14 := by
  unfold announced at h
  split at h
  · cases h
  · rename_i n lenEnd hl
    have hten := frameLength_le_ten hl
    split at h
    · obtain ⟨rfl, rfl⟩ := Prod.mk.inj (Option.some.inj h)
      omega
    · split at h
      · cases h
      · obtain ⟨rfl, rfl⟩ := Prod.mk.inj (Option.some.inj h)
        omega

/-- A length that a string can have does not make the sum wrap. -/
theorem framePayload_outcome {maxSize : Nat} (hmax : maxSize < 2 ^ 63) {data mask : Bytes} (b0 : UInt8)
    {masked : Bool} {payloadLen headerLen : Nat} (hheader : headerLen ≤ 14) {payload : Bytes}
    (hpayload : headerLen + payloadLen ≤ data.length →
      copyPayload data masked payloadLen mask headerLen = pure payload) :
    (framePayload maxSize data b0 masked payloadLen mask headerLen).outcome =
      if data.length < (headerLen + payloadLen) % sizeMax then .returned none
      else if payloadLen > maxSize then .threw
      else .returned (some ⟨⟨b0 &&& 0x0F, b0 &&& 0x80 ≠ 0, payload⟩, headerLen, headerLen + payloadLen⟩) := by
  rw [framePayload]
  split
  · rfl
  · rename_i hshort
    rw [throwIf_bind]
    split
    · rfl
    · have hsum : (headerLen + payloadLen) % sizeMax = headerLen + payloadLen :=
        Nat.mod_eq_of_lt (show _ < 2 ^ 64 by omega)
      rw [hsum] at hshort ⊢
      rw [hpayload (Nat.le_of_not_lt hshort)]
      rfl

/-- How the decoder ends, by what the header announces. -/
theorem decodeFrame_outcome {maxSize : Nat} (hmax : maxSize < 2 ^ 63) (data : Bytes) :
    (decodeFrame maxSize data).outcome = (match announced data with
      | none => .returned none
      | some (payloadLen, headerLen) =>
        if data.length < (headerLen + payloadLen) % sizeMax then .returned none
        else if payloadLen > maxSize then .threw
        else .returned (some ⟨⟨data.getD 0 0 &&& 0x0F, data.getD 0 0 &&& 0x80 ≠ 0,
          payloadOf data payloadLen headerLen⟩, headerLen, headerLen + payloadLen⟩)) := by
  by_cases h2 : data.length < 2
  · have hnone : announced data = none := by
      rw [announced, WebsocketCodec.frameLength, if_pos h2]
    rw [decodeFrame, if_pos h2, hnone]
    rfl
  · have hframe := frameLength_eq data (by omega)
    rw [decodeFrame, if_neg h2, read_eq (by omega) 0, pure_bind', read_eq (by omega) 0, pure_bind']
    cases hl : WebsocketCodec.frameLength data with
    | none =>
      rw [hl] at hframe
      rw [unlessNone_none _ hframe, announced, hl]
    | some l =>
      obtain ⟨payloadLen, lenEnd⟩ := l
      obtain ⟨-, hle⟩ := WebsocketCodec.frameLength_le hl
      have hann : announced data = (if data.getD 1 0 &&& 0x80 = 0 then some (payloadLen, lenEnd)
          else if data.length < lenEnd + 4 then none else some (payloadLen, lenEnd + 4)) := by
        rw [announced, hl]
      have hten := frameLength_le_ten hl
      have hsum : (lenEnd + 4) % sizeMax = lenEnd + 4 := Nat.mod_eq_of_lt (show _ < 2 ^ 64 by omega)
      rw [hl] at hframe
      rw [unlessNone_some _ hframe]
      dsimp only
      by_cases hm : data.getD 1 0 &&& 0x80 = 0
      · rw [if_pos hm] at hann
        rw [hann, readMask, if_neg (by simpa using hm), unlessNone_some _ rfl]
        refine framePayload_outcome hmax _ (by omega) fun hlen => ?_
        rw [copyPayload, if_neg (by simpa using hm), slice_eq hlen, payloadOf, if_pos hm]
        rfl
      · rw [if_neg hm] at hann
        rw [hann, readMask, if_pos (by simpa using hm), hsum]
        by_cases hshort : data.length < lenEnd + 4
        · rw [if_pos hshort, if_pos hshort, unlessNone_none _ rfl]
        · rw [if_neg hshort, if_neg hshort, slice_eq (by omega), pure_bind', unlessNone_some _ rfl]
          refine framePayload_outcome hmax _ (by omega) fun hlen => ?_
          have hfour : ((data.drop lenEnd).take 4).length = 4 := by
            rw [List.length_take, List.length_drop]
            omega
          rw [copyPayload, if_pos (by simpa using hm), unmaskFrom_eq hfour (by omega), payloadOf, if_neg hm,
            WebsocketCodec.unmask, Nat.add_sub_cancel, Nat.add_zero]
          simp only [Nat.zero_add, substr]

/-- The decoder keeps to the array and returns a sound length unless the announced length is longer than a
string can be while the sum of both lengths, taken modulo 2^64, does not exceed the array. -/
theorem decodeFrame_inOrder_iff {maxSize : Nat} (hmax : maxSize < 2 ^ 63) (data : Bytes) :
    InOrder data (decodeFrame maxSize data) ↔ ∀ payloadLen headerLen, announced data = some (payloadLen, headerLen) →
      (headerLen + payloadLen) % sizeMax ≤ data.length → payloadLen ≤ maxSize := by
  rw [InOrder, decodeFrame_outcome hmax]
  cases hann : announced data with
  | none => simp
  | some l =>
    obtain ⟨payloadLen, headerLen⟩ := l
    have hheader := announced_le hann
    dsimp only
    by_cases hshort : data.length < (headerLen + payloadLen) % sizeMax
    · rw [if_pos hshort]
      refine iff_of_true (.inl rfl) ?_
      rintro p h hph hle
      obtain ⟨rfl, rfl⟩ := Prod.mk.inj (Option.some.inj hph)
      omega
    · rw [if_neg hshort]
      by_cases hlong : payloadLen > maxSize
      · rw [if_pos hlong]
        refine iff_of_false ?_ fun hall => ?_
        · rintro (h | ⟨d, h, -⟩) <;> cases h
        · exact Nat.not_le_of_gt hlong (hall _ _ rfl (Nat.le_of_not_lt hshort))
      · rw [if_neg hlong]
        have hsum : (headerLen + payloadLen) % sizeMax = headerLen + payloadLen :=
          Nat.mod_eq_of_lt (show _ < 2 ^ 64 by omega)
        rw [hsum] at hshort
        refine iff_of_true (.inr ⟨_, rfl, Nat.le_add_right _ _, Nat.le_of_not_lt hshort, ?_⟩) ?_
        · rw [payloadOf_length (Nat.le_of_not_lt hshort), Nat.add_sub_cancel_left]
        · rintro p h hph -
          obtain ⟨rfl, rfl⟩ := Prod.mk.inj (Option.some.inj hph)
          exact Nat.le_of_not_lt hlong

theorem inOrder_short_frame : 2 ^ 63 - 2 < 2 ^ 63 ∧
    (InOrder [0x82, 0x01, 65] (decodeFrame (2 ^ 63 - 2) [0x82, 0x01, 65]) ↔
      ∀ payloadLen headerLen, announced [0x82, 0x01, 65] = some (payloadLen, headerLen) →
        (headerLen + payloadLen) % sizeMax ≤ 3 → payloadLen ≤ 2 ^ 63 - 2) :=
  ⟨by decide, decodeFrame_inOrder_iff (by decide) [0x82, 0x01, 65]⟩

/-- A frame of ten bytes whose length field is the largest there is. -/
private def longest : Bytes := [0x82, 0x7F, 0xFF, 0xFF, 0xFF, 0xFF, 0xFF, 0xFF, 0xFF, 0xFF]

/-- 10 + (2^64 - 1) wraps to 9, and `resize` throws. -/
theorem longest_length_throws : (decodeFrame (2 ^ 63 - 2) longest).outcome = .threw ∧
    ¬ InOrder longest (decodeFrame (2 ^ 63 - 2) longest) := by
  have hthrew : (decodeFrame (2 ^ 63 - 2) longest).outcome = .threw := by decide +kernel
  refine ⟨hthrew, ?_⟩
  rintro (h | ⟨d, h, -⟩) <;> rw [hthrew] at h <;> cases h

/-! The decoder of the sessions is this one, on arrays that a string can hold. -/

theorem codec_eq (data : Bytes) : WebsocketCodec.decodeFrame data = (match announced data with
    | none => .incomplete
    | some (payloadLen, headerLen) =>
      if data.length < (headerLen + payloadLen) % sizeMax then .incomplete
      else if sizeMax ≤ headerLen + payloadLen then .threw
      else .frame ⟨data.getD 0 0 &&& 0x0F, data.getD 0 0 &&& 0x80 ≠ 0, payloadOf data payloadLen headerLen⟩
        (headerLen + payloadLen)) := by
  rw [WebsocketCodec.decodeFrame, announced]
  cases WebsocketCodec.frameLength data with
  | none => rfl
  | some l =>
    obtain ⟨payloadLen, lenEnd⟩ := l
    dsimp only
    by_cases hm : data.getD 1 0 &&& 0x80 = 0
    · simp only [hm, payloadOf, ne_eq, not_true_eq_false, false_and, if_false, if_true]
    · by_cases hshort : data.length < lenEnd + 4
      · simp only [hm, hshort, ne_eq, not_false_eq_true, and_self, if_true, if_false]
      · simp only [hm, hshort, payloadOf, ne_eq, not_false_eq_true, and_false, if_false, if_true,
          Nat.add_sub_cancel]

theorem decodeFrame_refines {maxSize : Nat} (hmax : maxSize < 2 ^ 63) {data : Bytes} (hlen : data.length ≤ maxSize) :
    match WebsocketCodec.decodeFrame data with
    | .incomplete => (decodeFrame maxSize data).outcome = .returned none
    | .threw => (decodeFrame maxSize data).outcome = .threw
    | .frame f n => ∃ headerLen, (decodeFrame maxSize data).outcome = .returned (some ⟨f, headerLen, n⟩) := by
  rw [codec_eq, decodeFrame_outcome hmax]
  cases hann : announced data with
  | none => rfl
  | some l =>
    obtain ⟨payloadLen, headerLen⟩ := l
    have hheader := announced_le hann
    dsimp only
    by_cases hshort : data.length < (headerLen + payloadLen) % sizeMax
    · simp only [if_pos hshort]
    · simp only [if_neg hshort]
      have hwrap : sizeMax ≤ headerLen + payloadLen ↔ payloadLen > maxSize := by
        constructor
        · intro h
          have : 2 ^ 64 ≤ headerLen + payloadLen := h
          omega
        · intro h
          by_contra hlt
          rw [Nat.mod_eq_of_lt (Nat.lt_of_not_le hlt)] at hshort
          omega
      by_cases hlong : payloadLen > maxSize
      · simp only [if_pos hlong, if_pos (hwrap.mpr hlong)]
      · simp only [if_neg hlong, if_neg (fun h => hlong (hwrap.mp h))]
        exact ⟨headerLen, rfl⟩

end LightApr.Mqtt.WebsocketBounds
