import LightApr.Lib.Access
import LightApr.Mqtt.Packet

/-! The decoders of the MQTT codec with their index arithmetic: 64-bit sums wrap, and
every byte, string and length is taken through a checked access. -/
namespace LightApr.Mqtt.PacketBounds
open LightApr.Core LightApr.Lib LightApr.Lib.Access
variable {α : Type}

/-- The loop of `decode_remaining_length`, on `maxLen` bytes that stand in `data` from `start` on. -/
def decodeRemainingLengthFrom (data : Bytes) (start maxLen : Nat) :
    Nat → Nat → Nat → Nat → Access (Nat × Nat)
  | 0, _, _, _ => running
  | fuel + 1, multiplier, value, bytesRead => do
    field (start + bytesRead) 1
    throwIf (bytesRead ≥ maxLen)
    let encodedByte ← read data (start + bytesRead)
    let bytesRead := (bytesRead + 1) % sizeMax
    let value := (value + (encodedByte &&& 127).toNat * multiplier) % sizeMax
    let multiplier := multiplier * 128 % sizeMax
    throwIf (multiplier > 128 * 128 * 128)
    if encodedByte &&& 128 ≠ 0 then decodeRemainingLengthFrom data start maxLen fuel multiplier value bytesRead
    else pure (value, bytesRead)

def decodeRemainingLength (fuel : Nat) (data : Bytes) (start maxLen : Nat) : Access (Nat × Nat) :=
  decodeRemainingLengthFrom data start maxLen fuel 1 0 0

def readU8 (data : Bytes) (bufLen offset : Nat) : Access (UInt8 × Nat) := do
  field offset 1
  throwIf ((offset + 1) % sizeMax > bufLen)
  let v ← read data offset
  pure (v, (offset + 1) % sizeMax)

def readU16 (data : Bytes) (bufLen offset : Nat) : Access (Nat × Nat) := do
  field offset 2
  throwIf ((offset + 2) % sizeMax > bufLen)
  let hi ← read data offset
  let lo ← read data (offset + 1)
  pure (hi.toNat * 256 + lo.toNat, (offset + 2) % sizeMax)

def readString (data : Bytes) (bufLen offset : Nat) : Access (Bytes × Nat) := do
  let (len, offset) ← readU16 data bufLen offset
  field offset len
  throwIf ((offset + len) % sizeMax > bufLen)
  let str ← slice data offset len
  pure (str, (offset + len) % sizeMax)

/-- Fixed header of at least two bytes: the remaining length and the offset behind it. -/
def readFixedHeader (fuel : Nat) (data : Bytes) : Access (Option (Nat × Nat)) := do
  let len := data.length
  let maxLen ← minus len 1
  let (remLen, bytesRead) ← decodeRemainingLength fuel data 1 maxLen
  let offset := (1 + bytesRead) % sizeMax
  field offset remLen
  if len < (offset + remLen) % sizeMax then pure none else pure (some (remLen, offset))

/-- A field that is present when its flag is set. -/
def readFlagged (flag : Bool) (data : Bytes) (bufLen offset : Nat) : Access (Bytes × Nat) :=
  if flag then readString data bufLen offset else pure ([], offset)

/-- The part of `decode_connect` behind the fixed header; none: `false` is returned. -/
def connectFields (data : Bytes) (offset : Nat) : Access (Option Packet.MqttConnect) := do
  let len := data.length
  let (protoName, offset) ← readString data len offset
  if protoName ≠ ascii "MQTT" ∧ protoName ≠ ascii "MQIsdp" then pure none
  else do
    let (_, offset) ← readU8 data len offset
    let (connFlags, offset) ← readU8 data len offset
    let (keepAlive, offset) ← readU16 data len offset
    let (clientId, offset) ← readString data len offset
    let will := connFlags &&& 0x04 ≠ 0
    let (_, offset) ← readFlagged will data len offset
    let (_, offset) ← readFlagged will data len offset
    let (username, offset) ← readFlagged (connFlags &&& 0x80 ≠ 0) data len offset
    let (password, _) ← readFlagged (connFlags &&& 0x40 ≠ 0) data len offset
    pure (some { clientId, username, password, keepAlive })

def decodeConnect (fuel : Nat) (data : Bytes) : Access (Option Packet.MqttConnect) :=
  (if data.length < 2 then pure none
  else (readFixedHeader fuel data).unlessNone fun (_, offset) => connectFields data offset).orElse none

/-- A packet id stands behind the topic when the QoS is not 0. -/
def readPacketId (qos : Nat) (data : Bytes) (bufLen offset : Nat) : Access (Nat × Nat) :=
  if qos > 0 then readU16 data bufLen offset else pure (0, offset)

/-- The part of `decode_publish` behind the fixed header. -/
def publishFields (data : Bytes) (header : UInt8) (remLen bodyStart : Nat) :
    Access (Option Packet.MqttPublish) := do
  let len := data.length
  let qos := ((header >>> 1) &&& 0x03).toNat
  let retain := header &&& 0x01 ≠ 0
  let (topic, offset) ← readString data len bodyStart
  let (packetId, offset) ← readPacketId qos data len offset
  let endOffset := (bodyStart + remLen) % sizeMax
  if offset > endOffset then pure none
  else do
    let payloadLen ← minus endOffset offset
    field offset payloadLen
    let payload ← slice data offset payloadLen
    pure (some { topic, payload, packetId, qos, retain })

def decodePublish (fuel : Nat) (data : Bytes) : Access (Option Packet.MqttPublish) :=
  (if data.length < 2 then pure none
  else do
    let header ← read data 0
    (readFixedHeader fuel data).unlessNone fun (remLen, bodyStart) =>
      publishFields data header remLen bodyStart).orElse none

/-- The loop over the topic filters. -/
def readTopics (data : Bytes) (bufLen endOffset : Nat) : Nat → Nat → Access (List Bytes)
  | 0, _ => running
  | fuel + 1, offset =>
    if offset < endOffset then do
      let (topic, offset) ← readString data bufLen offset
      let (_, offset) ← readU8 data bufLen offset
      let topics ← readTopics data bufLen endOffset fuel offset
      pure (topic :: topics)
    else pure []

/-- The part of `decode_subscribe` behind the fixed header. -/
def subscribeFields (fuel : Nat) (data : Bytes) (remLen bodyStart : Nat) :
    Access (Option Packet.MqttSubscribe) := do
  let len := data.length
  let (packetId, offset) ← readU16 data len bodyStart
  let topics ← readTopics data len ((bodyStart + remLen) % sizeMax) fuel offset
  pure (some { packetId, topics })

def decodeSubscribe (fuel : Nat) (data : Bytes) : Access (Option Packet.MqttSubscribe) :=
  (if data.length < 2 then pure none
  else (readFixedHeader fuel data).unlessNone fun (remLen, bodyStart) =>
    subscribeFields fuel data remLen bodyStart).orElse none

/-! Offsets stay far below the size of an address, so no sum wraps. -/

private theorem unwrapped {n : Nat} (h : n < 2 ^ 64) : n % sizeMax = n := Nat.mod_eq_of_lt h

theorem readU8_follows {data : Bytes} {offset : Nat} (h : offset < 2 ^ 63) :
    Follows data.length (readU8 data data.length offset) (Packet.readU8 data offset) := by
  have hsum : (offset + 1) % sizeMax = offset + 1 := unwrapped (by omega)
  rw [readU8, Packet.readU8, hsum]
  refine .field (fun hne => ?_) (.throwIf fun hlt => ?_)
  · by_contra hlt
    exact hne (if_pos (by omega))
  · rw [read_eq (by omega) 0]
    exact .pure _

theorem readU16_follows {data : Bytes} {offset : Nat} (h : offset < 2 ^ 63) :
    Follows data.length (readU16 data data.length offset) (Packet.readU16 data offset) := by
  have hsum : (offset + 2) % sizeMax = offset + 2 := unwrapped (by omega)
  rw [readU16, Packet.readU16, hsum]
  refine .field (fun hne => ?_) (.throwIf fun hlt => ?_)
  · by_contra hlt
    exact hne (if_pos (by omega))
  · rw [read_eq (by omega) 0, pure_bind', read_eq (by omega) 0]
    exact .pure _

theorem readString_follows {data : Bytes} {offset : Nat} (h : offset < 2 ^ 63) :
    Follows data.length (readString data data.length offset) (Packet.readString data offset) := by
  refine (readU16_follows h).bind ?_
  rintro ⟨len, offset'⟩ hu
  obtain ⟨-, hlen, rfl, -⟩ := Packet.readU16_some hu
  have hsum : (offset + 2 + len) % sizeMax = offset + 2 + len := unwrapped (by omega)
  dsimp only
  rw [hsum]
  refine .field (fun hne => ?_) (.throwIf fun hlt => ?_)
  · by_contra hlt
    exact hne (if_pos (by omega))
  · rw [slice_eq (by omega)]
    exact .pure _

theorem readFlagged_follows {data : Bytes} {offset : Nat} (flag : Bool) (h : offset < 2 ^ 63) :
    Follows data.length (readFlagged flag data data.length offset) (Packet.readFlagged flag data offset) := by
  cases flag with
  | true => exact readString_follows h
  | false => exact .pure _

/-- The loop reads one byte for each power of 128 and ends at the fourth. -/
theorem decodeRemainingLengthFrom_follows {data : Bytes} {start maxLen : Nat}
    (hlen : start + maxLen = data.length) {fuel j value : Nat} (hj : j ≤ 3) (hle : j ≤ maxLen)
    (hv : value < 128 ^ j) (hfuel : maxLen < fuel + j) :
    Follows data.length (decodeRemainingLengthFrom data start maxLen fuel (128 ^ j) value j)
      (Packet.decodeRemainingLengthFrom (128 ^ j) value j (data.drop (start + j))) := by
  induction fuel generalizing j value with
  | zero => omega
  | succ fuel ih =>
    rw [decodeRemainingLengthFrom]
    by_cases hend : j = maxLen
    · rw [List.drop_of_length_le (by omega), Packet.decodeRemainingLengthFrom]
      refine .field (fun hne => absurd rfl hne) ?_
      rw [throwIf_bind, if_pos (Nat.le_of_eq hend.symm)]
      exact ⟨rfl, fun hne => absurd rfl hne⟩
    · have hlt : start + j < data.length := by omega
      rw [List.drop_eq_getElem_cons hlt, Packet.decodeRemainingLengthFrom]
      refine .field (fun _ => hlt) ?_
      rw [throwIf_bind, if_neg (by omega), read_eq hlt 0, pure_bind', List.getD_eq_getElem?_getD,
        List.getElem?_eq_getElem hlt, Option.getD_some]
      generalize data[start + j] = b
      have hb : (b &&& 127).toNat < 128 := by
        have hb := UInt8.le_iff_toNat_le.mp (UInt8.and_le_right : b &&& 127 ≤ 127)
        exact Nat.lt_succ_of_le hb
      have hnext : value + (b &&& 127).toNat * 128 ^ j < 128 ^ (j + 1) := by
        have hmul : ((b &&& 127).toNat + 1) * 128 ^ j ≤ 128 * 128 ^ j := Nat.mul_le_mul_right _ hb
        rw [Nat.add_mul, Nat.one_mul] at hmul
        rw [Nat.pow_succ, Nat.mul_comm (128 ^ j) 128]
        omega
      have hpow : 128 ^ (j + 1) ≤ 128 ^ 4 := Nat.pow_le_pow_right (by decide) (by omega)
      have hval : value + (b &&& 127).toNat * 128 ^ j < 2 ^ 64 := by omega
      rw [← Nat.pow_succ, unwrapped (by omega : 128 ^ (j + 1) < 2 ^ 64), unwrapped hval,
        unwrapped (by omega : j + 1 < 2 ^ 64)]
      refine .throwIf fun hmul => ?_
      split
      · have hj' : j + 1 ≤ 3 := by
          by_contra hj'
          have hge : 128 ^ 4 ≤ 128 ^ (j + 1) := Nat.pow_le_pow_right (by decide) (by omega)
          omega
        rw [Nat.add_assoc]
        exact ih hj' (by omega) hnext (by omega)
      · exact .pure _

theorem readFixedHeader_decides {data : Bytes} {fuel : Nat} (h : 2 ≤ data.length) (hfuel : data.length ≤ fuel) :
    Decides data.length (readFixedHeader fuel data) (Packet.readFixedHeader data) := by
  rw [readFixedHeader, Packet.readFixedHeader, if_neg (by omega)]
  dsimp only
  rw [minus_eq (by omega), pure_bind', decodeRemainingLength, Packet.decodeRemainingLength]
  refine (decodeRemainingLengthFrom_follows (j := 0) (by omega) (by decide) (by omega) (by decide : 0 < 128 ^ 0)
    (by omega)).decides ?_
  rintro ⟨remLen, bytesRead⟩ hr
  have hread := Packet.decodeRemainingLengthFrom_read (j := 0) hr
  have hlt := Packet.decodeRemainingLengthFrom_lt (j := 0) (by decide) hr
  dsimp only at hread hlt ⊢
  rw [unwrapped (by omega : 1 + bytesRead < 2 ^ 64), unwrapped (by omega : 1 + bytesRead + remLen < 2 ^ 64)]
  refine .field (fun hne => ?_) ?_
  · by_contra hlong
    exact hne (if_pos (by omega))
  · split
    · exact .pure none
    · exact .pure (some _)

/-- A string field ends at most 65537 bytes further on. -/
private theorem string_next {data str : Bytes} {offset offset' : Nat}
    (h : Packet.readString data offset = some (str, offset')) : offset' ≤ offset + 65537 := by
  obtain ⟨-, hlen, rfl, -⟩ := Packet.readString_some h
  omega

private theorem flagged_next {data str : Bytes} {flag : Bool} {offset offset' : Nat}
    (h : Packet.readFlagged flag data offset = some (str, offset')) : offset' ≤ offset + 65537 := by
  cases flag with
  | true => exact string_next h
  | false =>
    obtain ⟨-, rfl⟩ := Prod.mk.inj (Option.some.inj h)
    exact Nat.le_add_right offset 65537

theorem connectFields_decides {data : Bytes} {remLen start : Nat}
    (h : Packet.readFixedHeader data = some (remLen, start)) :
    Decides data.length (connectFields data start) (Packet.decodeConnect data) := by
  obtain ⟨-, hstart, -⟩ := Packet.readFixedHeader_some h
  rw [Packet.decodeConnect, h, connectFields]
  refine (readString_follows (by omega)).decides ?_
  rintro ⟨protoName, o1⟩ h1
  have hb1 := string_next h1
  dsimp only
  split
  · exact .pure none
  · refine (readU8_follows (by omega)).decides ?_
    rintro ⟨protoLevel, o2⟩ h2
    obtain ⟨-, hb2, -⟩ := Packet.readU8_some h2
    refine (readU8_follows (by omega)).decides ?_
    rintro ⟨connFlags, o3⟩ h3
    obtain ⟨-, hb3, -⟩ := Packet.readU8_some h3
    refine (readU16_follows (by omega)).decides ?_
    rintro ⟨keepAlive, o4⟩ h4
    obtain ⟨-, -, hb4, -⟩ := Packet.readU16_some h4
    refine (readString_follows (by omega)).decides ?_
    rintro ⟨clientId, o5⟩ h5
    have hb5 := string_next h5
    refine (readFlagged_follows _ (by omega)).decides ?_
    rintro ⟨willTopic, o6⟩ h6
    have hb6 := flagged_next h6
    refine (readFlagged_follows _ (by omega)).decides ?_
    rintro ⟨willMessage, o7⟩ h7
    have hb7 := flagged_next h7
    refine (readFlagged_follows _ (by omega)).decides ?_
    rintro ⟨username, o8⟩ h8
    have hb8 := flagged_next h8
    refine (readFlagged_follows _ (by omega)).decides ?_
    rintro ⟨password, o9⟩ h9
    exact .pure (some _)

theorem readPacketId_follows {data : Bytes} {offset : Nat} (qos : Nat) (h : offset < 2 ^ 63) :
    Follows data.length (readPacketId qos data data.length offset)
      (if qos > 0 then Packet.readU16 data offset else some (0, offset)) := by
  rw [readPacketId]
  split
  · exact readU16_follows h
  · exact .pure _

theorem publishFields_decides {data : Bytes} {remLen start : Nat}
    (h : Packet.readFixedHeader data = some (remLen, start)) :
    Decides data.length (publishFields data (data.getD 0 0) remLen start) (Packet.decodePublish data) := by
  obtain ⟨-, hstart, hrem, hend⟩ := Packet.readFixedHeader_some h
  have hsum : (start + remLen) % sizeMax = start + remLen := unwrapped (by omega)
  rw [Packet.decodePublish_chain, h, publishFields]
  refine (readString_follows (by omega)).decides ?_
  rintro ⟨topic, o1⟩ h1
  have hb1 := string_next h1
  refine (readPacketId_follows _ (by omega)).decides ?_
  rintro ⟨packetId, o2⟩ h2
  dsimp only
  rw [hsum]
  split
  · exact .pure none
  · rw [minus_eq (by omega), pure_bind']
    refine .field (fun _ => by omega) ?_
    rw [slice_eq (by omega)]
    exact .pure (some _)

/-- A filter takes three bytes at least, so the loop ends before its fuel does. -/
theorem readTopics_follows {data : Bytes} {endOffset : Nat} (hend : endOffset < 2 ^ 62) {fuel k offset : Nat}
    (hfuel : endOffset ≤ offset + 3 * fuel) (hk : endOffset ≤ offset + 3 * k) :
    Follows data.length (readTopics data data.length endOffset (fuel + 1) offset)
      (Packet.readTopics data endOffset k offset) := by
  induction fuel generalizing k offset with
  | zero =>
    have hdone : ¬ offset < endOffset := by omega
    have hnone : Packet.readTopics data endOffset k offset = some [] := by
      cases k with
      | zero => rfl
      | succ k => exact if_neg hdone
    rw [readTopics, if_neg hdone, hnone]
    exact .pure []
  | succ fuel ih =>
    rw [readTopics]
    by_cases hlt : offset < endOffset
    · obtain ⟨k, rfl⟩ : ∃ k', k = k' + 1 := Nat.exists_eq_succ_of_ne_zero (by omega)
      rw [if_pos hlt, Packet.readTopics, if_pos hlt]
      refine (readString_follows (by omega)).bind ?_
      rintro ⟨topic, o1⟩ h1
      obtain ⟨-, hlen, rfl, -⟩ := Packet.readString_some h1
      refine (readU8_follows (by omega)).bind ?_
      rintro ⟨requestedQos, o2⟩ h2
      obtain ⟨-, rfl, -⟩ := Packet.readU8_some h2
      refine (ih (by omega) (by omega)).bind ?_
      intro topics _
      exact .pure _
    · have hnone : Packet.readTopics data endOffset k offset = some [] := by
        cases k with
        | zero => rfl
        | succ k => exact if_neg hlt
      rw [if_neg hlt, hnone]
      exact .pure []

theorem subscribeFields_decides {data : Bytes} {fuel remLen start : Nat}
    (h : Packet.readFixedHeader data = some (remLen, start)) (hfuel : data.length ≤ fuel) :
    Decides data.length (subscribeFields fuel data remLen start) (Packet.decodeSubscribe data) := by
  obtain ⟨hmin, hstart, hrem, hend⟩ := Packet.readFixedHeader_some h
  have hsum : (start + remLen) % sizeMax = start + remLen := unwrapped (by omega)
  obtain ⟨fuel, rfl⟩ : ∃ fuel', fuel = fuel' + 1 := Nat.exists_eq_succ_of_ne_zero (by omega)
  rw [Packet.decodeSubscribe, h, subscribeFields, hsum]
  refine (readU16_follows (by omega)).decides ?_
  rintro ⟨packetId, o1⟩ h1
  obtain ⟨-, -, rfl, -⟩ := Packet.readU16_some h1
  refine (readTopics_follows (by omega) (by omega) (by omega)).decides ?_
  intro topics _
  exact .pure (some _)

/-- A decoder whose fields behind the fixed header are decided is itself. -/
theorem decides_of_header {data : Bytes} {fuel : Nat} {fields : Nat × Nat → Access (Option α)} {o : Option α}
    (hfuel : data.length ≤ fuel) (hnone : Packet.readFixedHeader data = none → o = none)
    (hsome : ∀ header, Packet.readFixedHeader data = some header → Decides data.length (fields header) o) :
    Decides data.length (if data.length < 2 then pure none
      else (readFixedHeader fuel data).unlessNone fields) o := by
  have ho : o = (Packet.readFixedHeader data).bind fun _ => o := by
    cases h : Packet.readFixedHeader data with
    | none => exact hnone h
    | some header => rfl
  split
  · rename_i hshort
    rw [hnone (if_pos hshort)]
    exact .pure none
  · rename_i hlong
    rw [ho]
    exact (readFixedHeader_decides (by omega) hfuel).unlessNone hsome

theorem decodeConnect_answers {data : Bytes} {fuel : Nat} (h : data.length ≤ fuel) :
    Answers data.length (decodeConnect fuel data) (Packet.decodeConnect data) := by
  refine (decides_of_header h (fun hnone => ?_) fun header hsome => ?_).orElse
  · rw [Packet.decodeConnect, hnone]
    rfl
  · exact connectFields_decides hsome

theorem decodePublish_answers {data : Bytes} {fuel : Nat} (h : data.length ≤ fuel) :
    Answers data.length (decodePublish fuel data) (Packet.decodePublish data) := by
  have hread : decodePublish fuel data = (if data.length < 2 then pure none
      else (readFixedHeader fuel data).unlessNone fun (remLen, bodyStart) =>
        publishFields data (data.getD 0 0) remLen bodyStart).orElse none := by
    rw [decodePublish]
    split
    · rfl
    · rw [read_eq (by omega) 0, pure_bind']
  rw [hread]
  refine (decides_of_header h (fun hnone => ?_) fun header hsome => ?_).orElse
  · rw [Packet.decodePublish, hnone]
    rfl
  · exact publishFields_decides hsome

theorem decodeSubscribe_answers {data : Bytes} {fuel : Nat} (h : data.length ≤ fuel) :
    Answers data.length (decodeSubscribe fuel data) (Packet.decodeSubscribe data) := by
  refine (decides_of_header h (fun hnone => ?_) fun header hsome => ?_).orElse
  · rw [Packet.decodeSubscribe, hnone]
    rfl
  · exact subscribeFields_decides hsome h

/-- Whatever the bytes are, the decoders end, read inside the array only, take no larger length
from a smaller one, let no exception out and refuse a packet with a field that is not there. -/
theorem decoders_answer (data : Bytes) {fuel : Nat} (h : data.length ≤ fuel) :
    Answers data.length (decodeConnect fuel data) (Packet.decodeConnect data) ∧
      Answers data.length (decodePublish fuel data) (Packet.decodePublish data) ∧
      Answers data.length (decodeSubscribe fuel data) (Packet.decodeSubscribe data) :=
  ⟨decodeConnect_answers h, decodePublish_answers h, decodeSubscribe_answers h⟩

/-- A protocol name of four bytes of which two are there. -/
private def cutName : Bytes := [0x10, 0x04, 0x00, 0x04, 77, 81]

theorem decoders_answer_cut : cutName.length ≤ 6 ∧
    Answers cutName.length (decodeConnect 6 cutName) (Packet.decodeConnect cutName) ∧
      Answers cutName.length (decodePublish 6 cutName) (Packet.decodePublish cutName) ∧
      Answers cutName.length (decodeSubscribe 6 cutName) (Packet.decodeSubscribe cutName) :=
  ⟨by decide, decoders_answer cutName (by decide)⟩

example : decodeConnect 6 cutName = ⟨[(1, 1), (2, 4), (2, 2), (4, 4)], .returned none⟩ := by decide

end LightApr.Mqtt.PacketBounds
