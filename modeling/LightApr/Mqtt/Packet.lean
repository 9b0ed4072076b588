import LightApr.Core.Bytes

/-! The MQTT packet codec of the broker. A decoder's `none` is an exception that
the decoder catches, or its `return false`. -/
namespace LightApr.Mqtt.Packet
open LightApr.Core

/-! Packet types, as they stand in the first byte. -/
def connect : UInt8 := 0x10
def connack : UInt8 := 0x20
def publish : UInt8 := 0x30
def puback : UInt8 := 0x40
def subscribe : UInt8 := 0x82
def suback : UInt8 := 0x90
def pingreq : UInt8 := 0xC0
def pingresp : UInt8 := 0xD0
def disconnect : UInt8 := 0xE0

structure MqttConnect where
  clientId : Bytes
  username : Bytes
  password : Bytes
  keepAlive : Nat
  deriving DecidableEq, Repr

structure MqttPublish where
  topic : Bytes
  payload : Bytes
  packetId : Nat
  qos : Nat
  retain : Bool
  deriving DecidableEq, Repr

structure MqttSubscribe where
  packetId : Nat
  topics : List Bytes
  deriving DecidableEq, Repr

/-- A 16-bit field, most significant byte first. -/
def u16 (n : Nat) : Bytes := [UInt8.ofNat (n / 256), UInt8.ofNat n]

def encodeRemainingLength (length : Nat) : Bytes :=
  let d := UInt8.ofNat (length % 128)
  if 0 < length / 128 then (d ||| 0x80) :: encodeRemainingLength (length / 128) else [d]
termination_by length

/-- The loop of `decode_remaining_length`: the value and the bytes read. -/
def decodeRemainingLengthFrom (multiplier value bytesRead : Nat) : Bytes → Option (Nat × Nat)
  | [] => none
  | b :: rest =>
    let value := value + (b &&& 127).toNat * multiplier
    if multiplier * 128 > 128 * 128 * 128 then none
    else if b &&& 128 ≠ 0 then
      decodeRemainingLengthFrom (multiplier * 128) value (bytesRead + 1) rest
    else some (value, bytesRead + 1)

def decodeRemainingLength (data : Bytes) : Option (Nat × Nat) := decodeRemainingLengthFrom 1 0 0 data

/-! The readers return the field and the offset behind it. -/

def readU8 (data : Bytes) (offset : Nat) : Option (UInt8 × Nat) :=
  if offset + 1 > data.length then none else some (data.getD offset 0, offset + 1)

def readU16 (data : Bytes) (offset : Nat) : Option (Nat × Nat) :=
  if offset + 2 > data.length then none
  else some ((data.getD offset 0).toNat * 256 + (data.getD (offset + 1) 0).toNat, offset + 2)

def readString (data : Bytes) (offset : Nat) : Option (Bytes × Nat) := do
  let (len, offset) ← readU16 data offset
  if offset + len > data.length then none
  else some (substr data offset len, offset + len)

/-- The length field keeps the low 16 bits of the size. -/
def writeString (str : Bytes) : Bytes := u16 (str.length % 65536) ++ str

def encodeConnack (returnCode : UInt8) : Bytes := [connack, 0x02, 0x00, returnCode]

def encodePuback (packetId : Nat) : Bytes := [puback, 0x02] ++ u16 packetId

def encodeSuback (packetId : Nat) (returnCodes : Bytes) : Bytes :=
  let payload := u16 packetId ++ returnCodes
  [suback] ++ encodeRemainingLength payload.length ++ payload

def encodePingresp : Bytes := [pingresp, 0x00]

/-- The variable header and payload of a PUBLISH. -/
def publishBody (topic payload : Bytes) (qos packetId : Nat) : Bytes :=
  writeString topic ++ (if qos > 0 then u16 packetId else []) ++ payload

def encodePublish (topic payload : Bytes) (qos packetId : Nat) : Bytes :=
  let body := publishBody topic payload qos packetId
  [publish ||| ((UInt8.ofNat qos &&& 0x03) <<< 1)] ++ encodeRemainingLength body.length ++ body

/-- Fixed header: the remaining length and the offset behind it. -/
def readFixedHeader (data : Bytes) : Option (Nat × Nat) := do
  if data.length < 2 then none
  let (remLen, bytesRead) ← decodeRemainingLength (data.drop 1)
  let offset := 1 + bytesRead
  if data.length < offset + remLen then none
  some (remLen, offset)

/-- A field that is present when its flag is set. -/
def readFlagged (flag : Bool) (data : Bytes) (offset : Nat) : Option (Bytes × Nat) :=
  if flag then readString data offset else some ([], offset)

def decodeConnect (data : Bytes) : Option MqttConnect := do
  let (_, offset) ← readFixedHeader data
  let (protoName, offset) ← readString data offset
  if protoName ≠ ascii "MQTT" ∧ protoName ≠ ascii "MQIsdp" then none
  let (_, offset) ← readU8 data offset
  let (connFlags, offset) ← readU8 data offset
  let (keepAlive, offset) ← readU16 data offset
  let (clientId, offset) ← readString data offset
  let will := connFlags &&& 0x04 ≠ 0
  let (_, offset) ← readFlagged will data offset
  let (_, offset) ← readFlagged will data offset
  let (username, offset) ← readFlagged (connFlags &&& 0x80 ≠ 0) data offset
  let (password, _) ← readFlagged (connFlags &&& 0x40 ≠ 0) data offset
  some { clientId, username, password, keepAlive }

def decodePublish (data : Bytes) : Option MqttPublish := do
  let (remLen, bodyStart) ← readFixedHeader data
  let header := data.getD 0 0
  let qos := ((header >>> 1) &&& 0x03).toNat
  let retain := header &&& 0x01 ≠ 0
  let (topic, offset) ← readString data bodyStart
  let (packetId, offset) ← if qos > 0 then readU16 data offset else some (0, offset)
  let endOffset := bodyStart + remLen
  if offset > endOffset then none
  some { topic, payload := substr data offset (endOffset - offset), packetId, qos, retain }

/-- The topic filters up to `endOffset`; `fuel` bounds the number of filters. -/
def readTopics (data : Bytes) (endOffset : Nat) : Nat → Nat → Option (List Bytes)
  | 0, _ => some []
  | fuel + 1, offset =>
    if offset < endOffset then do
      let (topic, offset) ← readString data offset
      let (_, offset) ← readU8 data offset
      let topics ← readTopics data endOffset fuel offset
      some (topic :: topics)
    else some []

def decodeSubscribe (data : Bytes) : Option MqttSubscribe := do
  let (remLen, bodyStart) ← readFixedHeader data
  let (packetId, offset) ← readU16 data bodyStart
  let topics ← readTopics data (bodyStart + remLen) data.length offset
  some { packetId, topics }

theorem encodeRemainingLength_lt {n : Nat} (h : n < 128) :
    encodeRemainingLength n = [UInt8.ofNat n] := by
  rw [encodeRemainingLength]
  simp [Nat.div_eq_of_lt h, Nat.mod_eq_of_lt h]

theorem encodeRemainingLength_ge {n : Nat} (h : 128 ≤ n) :
    encodeRemainingLength n = (UInt8.ofNat (n % 128) ||| 0x80) :: encodeRemainingLength (n / 128) := by
  rw [encodeRemainingLength]
  have : 0 < n / 128 := Nat.div_pos h (by decide)
  simp [this]

theorem encodeRemainingLength_ne_nil (n : Nat) : encodeRemainingLength n ≠ [] := by
  rw [encodeRemainingLength]
  split <;> simp

theorem continued_toNat (n : Nat) : (UInt8.ofNat (n % 128) ||| 0x80).toNat = n % 128 + 128 := by
  have h : n % 128 < 128 := Nat.mod_lt _ (by decide)
  rw [UInt8.toNat_or, UInt8.toNat_ofNat', Nat.mod_eq_of_lt (by omega)]
  have := Nat.two_pow_add_eq_or_of_lt (i := 7) h 1
  rw [Nat.or_comm]
  exact this.symm.trans (Nat.add_comm _ _)

/-- Every byte but the last announces another one. -/
theorem encodeRemainingLength_split (n : Nat) : ∃ front last, encodeRemainingLength n = front ++ [last] ∧
    (∀ b ∈ front, (0x80 : UInt8) ≤ b) ∧ ¬ (0x80 : UInt8) ≤ last := by
  induction n using Nat.strong_induction_on with
  | _ n ih =>
    by_cases hlt : n < 128
    · have hlast : ∀ m < 128, ¬ (0x80 : UInt8) ≤ UInt8.ofNat m := by decide +kernel
      exact ⟨[], UInt8.ofNat n, encodeRemainingLength_lt hlt, by simp, hlast n hlt⟩
    · have hcont : (0x80 : UInt8) ≤ UInt8.ofNat (n % 128) ||| 0x80 := by
        rw [UInt8.le_iff_toNat_le, continued_toNat]
        exact Nat.le_add_left _ _
      obtain ⟨front, last, he, hfront, hlast⟩ := ih (n / 128) (Nat.div_lt_self (by omega) (by decide))
      refine ⟨(UInt8.ofNat (n % 128) ||| 0x80) :: front, last, ?_, ?_, hlast⟩
      · rw [encodeRemainingLength_ge (Nat.le_of_not_lt hlt), he, List.cons_append]
      · rintro b (- | ⟨-, hb⟩)
        · exact hcont
        · exact hfront b hb

/-- Seven bits to a byte. -/
theorem length_encodeRemainingLength_le (n k : Nat) : (encodeRemainingLength n).length ≤ k + 1 ↔ n < 128 ^ (k + 1) := by
  induction k generalizing n with
  | zero =>
    by_cases h : n < 128
    · simp [encodeRemainingLength_lt h, h]
    · have hpos := List.length_pos_of_ne_nil (encodeRemainingLength_ne_nil (n / 128))
      rw [encodeRemainingLength_ge (Nat.le_of_not_lt h), List.length_cons]
      omega
  | succ k ih =>
    by_cases h : n < 128
    · have hpow : 128 ≤ 128 ^ (k + 1 + 1) := Nat.le_self_pow (by omega) 128
      rw [encodeRemainingLength_lt h, List.length_singleton]
      omega
    · rw [encodeRemainingLength_ge (Nat.le_of_not_lt h), List.length_cons, Nat.add_le_add_iff_right, ih,
        Nat.div_lt_iff_lt_mul (by decide), Nat.pow_succ 128 (k + 1)]

@[simp] theorem u16_length (n : Nat) : (u16 n).length = 2 := rfl

@[simp] theorem writeString_length (s : Bytes) : (writeString s).length = 2 + s.length := by
  simp [writeString, Nat.add_comm]

theorem publishBody_length (topic payload : Bytes) :
    (publishBody topic payload 0 0).length = 2 + topic.length + payload.length := by
  simp [publishBody]

/-- A QoS 0 packet as it goes out to subscribers. -/
theorem encodePublish_qos0 (topic payload : Bytes) :
    encodePublish topic payload 0 0 =
      publish :: (encodeRemainingLength (publishBody topic payload 0 0).length ++
        publishBody topic payload 0 0) := by
  simp [encodePublish]

/-! What the encoder writes, the decoder reads back. -/

theorem continued_bits (n : Nat) : ((UInt8.ofNat (n % 128) ||| 0x80) &&& 127).toNat = n % 128 ∧
    (UInt8.ofNat (n % 128) ||| 0x80) &&& 128 ≠ 0 := by
  have h : ∀ m < 128, ((UInt8.ofNat m ||| 0x80) &&& 127).toNat = m ∧ (UInt8.ofNat m ||| 0x80) &&& 128 ≠ 0 := by
    decide +kernel
  exact h (n % 128) (Nat.mod_lt _ (by decide))

theorem last_bits {n : Nat} (h : n < 128) : (UInt8.ofNat n &&& 127).toNat = n ∧ UInt8.ofNat n &&& 128 = 0 := by
  have hall : ∀ m < 128, (UInt8.ofNat m &&& 127).toNat = m ∧ UInt8.ofNat m &&& 128 = 0 := by decide +kernel
  exact hall n h

/-- The decoder takes remaining lengths of up to three bytes. -/
theorem decodeRemainingLengthFrom_encode (j n value bytesRead : Nat) (t : Bytes) (hj : j ≤ 2)
    (hn : n < 128 ^ (3 - j)) :
    decodeRemainingLengthFrom (128 ^ j) value bytesRead (encodeRemainingLength n ++ t) =
      some (value + n * 128 ^ j, bytesRead + (encodeRemainingLength n).length) := by
  induction n using Nat.strong_induction_on generalizing j value bytesRead with
  | _ n ih =>
    have hpow : ¬ 128 ^ j * 128 > 128 * 128 * 128 := by
      rw [← Nat.pow_succ, show 128 * 128 * 128 = 128 ^ 3 from rfl]
      exact Nat.not_lt.mpr (Nat.pow_le_pow_right (by decide) (by omega))
    by_cases hlt : n < 128
    · obtain ⟨hv, hc⟩ := last_bits hlt
      rw [encodeRemainingLength_lt hlt, List.singleton_append, decodeRemainingLengthFrom]
      simp only [hv, hc, if_neg hpow, ne_eq, not_true_eq_false, if_false]
      rfl
    · have hge := Nat.le_of_not_lt hlt
      obtain ⟨hv, hc⟩ := continued_bits n
      have hj' : j + 1 ≤ 2 := by
        by_contra h
        obtain rfl : j = 2 := by omega
        omega
      have hdiv : n / 128 < 128 ^ (3 - (j + 1)) := by
        rw [Nat.div_lt_iff_lt_mul (by decide), ← Nat.pow_succ, show (3 - (j + 1)).succ = 3 - j by omega]
        exact hn
      have hnext := ih (n / 128) (Nat.div_lt_self (by omega) (by decide)) (j + 1) (value + n % 128 * 128 ^ j)
        (bytesRead + 1) hj' hdiv
      rw [Nat.pow_succ] at hnext
      rw [encodeRemainingLength_ge hge, List.cons_append, decodeRemainingLengthFrom]
      simp only [hv, if_neg hpow, if_pos hc, hnext, List.length_cons]
      have hsum : n % 128 * 128 ^ j + n / 128 * (128 ^ j * 128) = n * 128 ^ j := by
        conv_rhs => rw [← Nat.mod_add_div n 128]
        rw [Nat.add_mul, Nat.mul_comm 128 (n / 128), Nat.mul_assoc, Nat.mul_comm 128 (128 ^ j)]
      rw [Nat.add_assoc, hsum, Nat.add_assoc, Nat.add_comm 1]

theorem decodeRemainingLength_encode {n : Nat} (t : Bytes) (h : n < 128 ^ 3) :
    decodeRemainingLength (encodeRemainingLength n ++ t) = some (n, (encodeRemainingLength n).length) := by
  have := decodeRemainingLengthFrom_encode 0 n 0 0 t (by decide) h
  simpa [decodeRemainingLength] using this

theorem u16_value (n : Nat) (h : n < 65536) : (UInt8.ofNat (n / 256)).toNat * 256 + (UInt8.ofNat n).toNat = n := by
  rw [UInt8.toNat_ofNat', UInt8.toNat_ofNat']
  omega

theorem readString_writeString (front str t : Bytes) (h : str.length < 65536) :
    readString (front ++ (writeString str ++ t)) front.length = some (str, front.length + 2 + str.length) := by
  have h0 : (front ++ (writeString str ++ t)).getD front.length 0 = UInt8.ofNat (str.length / 256) := by
    simp [writeString, u16, Nat.mod_eq_of_lt h, List.getD_eq_getElem?_getD]
  have h1 : (front ++ (writeString str ++ t)).getD (front.length + 1) 0 = UInt8.ofNat str.length := by
    simp [writeString, u16, Nat.mod_eq_of_lt h, List.getD_eq_getElem?_getD]
  have hu : readU16 (front ++ (writeString str ++ t)) front.length = some (str.length, front.length + 2) := by
    rw [readU16, if_neg (by simp; omega), h0, h1, u16_value _ h]
  have hsub : substr (front ++ (writeString str ++ t)) (front.length + 2) str.length = str := by
    rw [substr, ← List.drop_drop, List.drop_left, writeString, List.append_assoc,
      show (2 : Nat) = (u16 (str.length % 65536)).length from rfl, List.drop_left, List.take_left]
  rw [readString, hu]
  simp only [Option.bind_eq_bind, Option.bind_some, hsub]
  rw [if_neg (by simp; omega)]

theorem readFixedHeader_encode (first : UInt8) (body : Bytes) (h : body.length < 128 ^ 3) :
    readFixedHeader (first :: (encodeRemainingLength body.length ++ body)) =
      some (body.length, 1 + (encodeRemainingLength body.length).length) := by
  have hpos := List.length_pos_of_ne_nil (encodeRemainingLength_ne_nil body.length)
  simp only [readFixedHeader, List.drop_succ_cons, List.drop_zero, decodeRemainingLength_encode body h,
    List.length_cons, List.length_append, Option.bind_eq_bind, Option.bind_some]
  rw [if_neg (by omega), if_neg (by omega)]

/-- The two low bits of a QoS, shifted into the flags of the first byte. -/
theorem publish_flags {qos : Nat} (h : qos < 4) :
    (((publish ||| ((UInt8.ofNat qos &&& 0x03) <<< 1)) >>> 1) &&& 0x03).toNat = qos ∧
      (publish ||| ((UInt8.ofNat qos &&& 0x03) <<< 1)) &&& 0x01 = 0 := by
  have hall : ∀ q < 4, (((publish ||| ((UInt8.ofNat q &&& 0x03) <<< 1)) >>> 1) &&& 0x03).toNat = q ∧
      (publish ||| ((UInt8.ofNat q &&& 0x03) <<< 1)) &&& 0x01 = 0 := by decide +kernel
  exact hall qos h

theorem substr_append_right (front s : Bytes) : substr (front ++ s) front.length s.length = s := by
  rw [substr, List.drop_left, List.take_length]

theorem readU16_u16 (front t : Bytes) {n : Nat} (h : n < 65536) :
    readU16 (front ++ (u16 n ++ t)) front.length = some (n, front.length + 2) := by
  have h0 : (front ++ (u16 n ++ t)).getD front.length 0 = UInt8.ofNat (n / 256) := by
    simp [u16, List.getD_eq_getElem?_getD]
  have h1 : (front ++ (u16 n ++ t)).getD (front.length + 1) 0 = UInt8.ofNat n := by
    simp [u16, List.getD_eq_getElem?_getD]
  have hlen : (front ++ (u16 n ++ t)).length = front.length + (2 + t.length) := by
    rw [List.length_append, List.length_append]
    rfl
  rw [readU16, if_neg (by omega), h0, h1, u16_value _ h]

/-- The decoder as one chain of readers. -/
theorem decodePublish_chain (data : Bytes) :
    decodePublish data = (readFixedHeader data).bind fun (remLen, start) =>
      (readString data start).bind fun (topic, offset) =>
        (if ((data.getD 0 0 >>> 1) &&& 0x03).toNat > 0 then readU16 data offset else some (0, offset)).bind
          fun (packetId, offset') =>
            if offset' > start + remLen then none
            else some ⟨topic, substr data offset' (start + remLen - offset'), packetId,
              ((data.getD 0 0 >>> 1) &&& 0x03).toNat, data.getD 0 0 &&& 0x01 ≠ 0⟩ := by
  unfold decodePublish
  refine congrArg (Option.bind _) (funext fun ⟨remLen, start⟩ => ?_)
  refine congrArg (Option.bind _) (funext fun ⟨topic, offset⟩ => ?_)
  dsimp only
  split <;> rfl

/-- A PUBLISH of up to three length bytes decodes to what was encoded. -/
theorem decodePublish_encode {topic payload : Bytes} {qos packetId : Nat} (ht : topic.length < 65536)
    (hq : qos < 4) (hid : packetId < 65536) (hb : (publishBody topic payload qos packetId).length < 128 ^ 3) :
    decodePublish (encodePublish topic payload qos packetId) =
      some ⟨topic, payload, if qos > 0 then packetId else 0, qos, false⟩ := by
  have hfixed := readFixedHeader_encode (publish ||| ((UInt8.ofNat qos &&& 0x03) <<< 1)) _ hb
  obtain ⟨hqos, hretain⟩ := publish_flags hq
  rw [encodePublish, List.append_assoc, List.singleton_append]
  generalize publish ||| ((UInt8.ofNat qos &&& 0x03) <<< 1) = first at hfixed hqos hretain ⊢
  generalize encodeRemainingLength (publishBody topic payload qos packetId).length = rem at hfixed ⊢
  obtain ⟨idField, hidField⟩ : ∃ idField, idField = if qos > 0 then u16 packetId else [] := ⟨_, rfl⟩
  have hbody : publishBody topic payload qos packetId = writeString topic ++ (idField ++ payload) := by
    rw [publishBody, hidField, List.append_assoc]
  have htopic := readString_writeString (first :: rem) topic (idField ++ payload) ht
  have hread : (if qos > 0 then readU16 (first :: rem ++ (writeString topic ++ (idField ++ payload)))
        ((first :: rem).length + 2 + topic.length) else some (0, (first :: rem).length + 2 + topic.length)) =
      some (if qos > 0 then packetId else 0, (first :: rem).length + 2 + topic.length + idField.length) := by
    by_cases hpos : qos > 0
    · have hu16 := readU16_u16 (first :: rem ++ writeString topic) payload hid
      rw [List.append_assoc, List.length_append, writeString_length, ← Nat.add_assoc] at hu16
      simpa only [if_pos hpos, hidField, u16_length] using hu16
    · simp only [if_neg hpos, hidField, List.length_nil, Nat.add_zero]
  have hpay := substr_append_right (first :: rem ++ (writeString topic ++ idField)) payload
  rw [List.append_assoc, List.append_assoc, List.length_append, List.length_append, writeString_length] at hpay
  rw [hbody, show 1 + rem.length = (first :: rem).length from Nat.add_comm ..] at hfixed
  have hlen : (writeString topic ++ (idField ++ payload)).length =
      2 + topic.length + idField.length + payload.length := by
    simp only [List.length_append, writeString_length, Nat.add_assoc]
  have hfirst : (first :: rem ++ (writeString topic ++ (idField ++ payload))).getD 0 0 = first := rfl
  rw [← List.cons_append] at hfixed
  simp only [hbody, ← List.cons_append, decodePublish_chain, hfixed, htopic, hfirst, hqos, hread, Option.bind_some]
  rw [if_neg (by omega), hlen, show (first :: rem).length + (2 + topic.length + idField.length + payload.length) -
      ((first :: rem).length + 2 + topic.length + idField.length) = payload.length by omega,
    show (first :: rem).length + 2 + topic.length + idField.length =
      (first :: rem).length + (2 + topic.length + idField.length) by omega, hpay]
  simp [hretain]

/-- A packet of the broker decodes to its topic and payload. -/
theorem decodePublish_encodePublish {topic payload : Bytes} (ht : topic.length < 65536)
    (hb : 2 + topic.length + payload.length < 128 ^ 3) :
    decodePublish (encodePublish topic payload 0 0) = some ⟨topic, payload, 0, 0, false⟩ :=
  decodePublish_encode ht (by decide) (by decide) (by rwa [publishBody_length])

/-! The multiplier is compared after it has been multiplied, so a fourth length byte
is refused whatever it holds. -/

theorem decodeRemainingLengthFrom_encode_none (k j n value bytesRead : Nat) (t : Bytes) (hk : 3 ≤ j + k)
    (hn : 128 ^ k ≤ n) :
    decodeRemainingLengthFrom (128 ^ j) value bytesRead (encodeRemainingLength n ++ t) = none := by
  induction k generalizing j n value bytesRead with
  | zero =>
    obtain ⟨b, rest, hb⟩ := List.exists_cons_of_ne_nil (encodeRemainingLength_ne_nil n)
    have hpow : 128 ^ j * 128 > 128 * 128 * 128 := by
      have hlt : 128 ^ 3 < 128 ^ (j + 1) := Nat.pow_lt_pow_right (by decide) (by omega)
      rwa [Nat.pow_succ] at hlt
    rw [hb, List.cons_append, decodeRemainingLengthFrom]
    exact if_pos hpow
  | succ k ih =>
    have hge : 128 ≤ n := Nat.le_trans (Nat.le_self_pow (by omega) 128) hn
    have hdiv : 128 ^ k ≤ n / 128 := by
      rw [Nat.le_div_iff_mul_le (by decide), ← Nat.pow_succ]
      exact hn
    rw [encodeRemainingLength_ge hge, List.cons_append, decodeRemainingLengthFrom]
    split
    · rfl
    · rw [if_pos (continued_bits n).2, ← Nat.pow_succ]
      exact ih (j + 1) (n / 128) _ _ (by omega) hdiv

theorem decodePublish_encodePublish_none {topic payload : Bytes} {qos packetId : Nat}
    (hb : 128 ^ 3 ≤ (publishBody topic payload qos packetId).length) :
    decodePublish (encodePublish topic payload qos packetId) = none := by
  have hrem := decodeRemainingLengthFrom_encode_none 3 0 _ 0 0 (publishBody topic payload qos packetId)
    (by decide) hb
  have hfixed : readFixedHeader (encodePublish topic payload qos packetId) = none := by
    rw [readFixedHeader]
    split
    · rfl
    · rw [encodePublish, List.append_assoc, List.singleton_append, List.drop_succ_cons, List.drop_zero,
        decodeRemainingLength, show decodeRemainingLengthFrom 1 0 0 _ = none from hrem]
      rfl
  rw [decodePublish, hfixed]
  rfl

/-- The decoder gives back what was encoded, and the packet id where there is one. -/
def RoundTrips (topic payload : Bytes) (qos packetId : Nat) : Prop :=
  ∃ pub, decodePublish (encodePublish topic payload qos packetId) = some pub ∧ pub.topic = topic ∧
    pub.payload = payload ∧ pub.qos = qos ∧ (0 < qos → pub.packetId = packetId)

/-- The encoder writes four length bytes and more; the decoder takes three. -/
theorem roundTrips_iff {topic : Bytes} (payload : Bytes) {qos : Nat} (packetId : UInt16)
    (ht : topic.length ≤ 65535) (hq : qos ≤ 2) :
    RoundTrips topic payload qos packetId.toNat ↔
      (publishBody topic payload qos packetId.toNat).length < 2097152 := by
  constructor
  · rintro ⟨pub, hpub, -⟩
    by_contra hb
    rw [decodePublish_encodePublish_none (Nat.le_of_not_lt hb)] at hpub
    cases hpub
  · intro hb
    refine ⟨_, decodePublish_encode (by omega) (by omega) packetId.toNat_lt hb, rfl, rfl, rfl, ?_⟩
    intro hpos
    exact if_pos hpos

theorem roundTrips_hello : (ascii "t").length ≤ 65535 ∧ 1 ≤ 2 ∧
    RoundTrips (ascii "t") (ascii "hello") 1 (UInt16.toNat 7) :=
  ⟨by decide, by decide, (roundTrips_iff (ascii "hello") 7 (by decide) (by decide)).mpr (by decide)⟩

/-- One byte more than three length bytes can announce. -/
theorem roundTrip_fails_at_four_bytes : (ascii "t").length ≤ 65535 ∧
    (publishBody (ascii "t") (List.replicate 2097149 0) 0 0).length ≤ 268435455 ∧
    ¬ RoundTrips (ascii "t") (List.replicate 2097149 0) 0 0 := by
  have hlen : (publishBody (ascii "t") (List.replicate 2097149 0) 0 0).length = 2097152 := by
    rw [publishBody_length, List.length_replicate]
    rfl
  refine ⟨by decide, by omega, ?_⟩
  rintro ⟨pub, hpub, -⟩
  rw [decodePublish_encodePublish_none (Nat.le_of_eq hlen.symm)] at hpub
  cases hpub

/-! What the decoder takes is bounded. -/

theorem decodeRemainingLengthFrom_lt {data : Bytes} {j value bytesRead : Nat} {out : Nat × Nat}
    (hv : value < 128 ^ j) (h : decodeRemainingLengthFrom (128 ^ j) value bytesRead data = some out) :
    out.1 < 128 ^ 3 := by
  induction data generalizing j value bytesRead with
  | nil => cases h
  | cons b rest ih =>
    rw [decodeRemainingLengthFrom] at h
    have hb : (b &&& 127).toNat < 128 := by
      have hle : b &&& 127 ≤ 127 := UInt8.and_le_right
      have := UInt8.le_iff_toNat_le.mp hle
      have : (127 : UInt8).toNat = 127 := rfl
      omega
    have hnext : value + (b &&& 127).toNat * 128 ^ j < 128 ^ (j + 1) := by
      have hmul : ((b &&& 127).toNat + 1) * 128 ^ j ≤ 128 * 128 ^ j := Nat.mul_le_mul_right _ hb
      rw [Nat.add_mul, Nat.one_mul] at hmul
      rw [Nat.pow_succ, Nat.mul_comm (128 ^ j) 128]
      omega
    split at h
    · cases h
    · rename_i hpow
      split at h
      · exact ih (j := j + 1) hnext (by rw [Nat.pow_succ]; exact h)
      · obtain rfl := Option.some.inj h
        refine Nat.lt_of_lt_of_le hnext ?_
        rw [Nat.pow_succ]
        exact Nat.le_of_not_lt hpow

/-- One to three bytes are read, all of them there. -/
theorem decodeRemainingLengthFrom_read {data : Bytes} {j value : Nat} {out : Nat × Nat}
    (h : decodeRemainingLengthFrom (128 ^ j) value j data = some out) :
    j < out.2 ∧ out.2 ≤ 3 ∧ out.2 ≤ j + data.length := by
  induction data generalizing j value with
  | nil => cases h
  | cons b rest ih =>
    rw [decodeRemainingLengthFrom] at h
    split at h
    · cases h
    · rename_i hpow
      have hj : j < 3 := by
        by_contra hj
        have hle : 128 ^ 3 ≤ 128 ^ j := Nat.pow_le_pow_right (by decide) (by omega)
        omega
      rw [List.length_cons]
      split at h
      · have := ih (j := j + 1) (by rw [Nat.pow_succ]; exact h)
        omega
      · obtain rfl := Option.some.inj h
        dsimp only
        omega

theorem readFixedHeader_some {data : Bytes} {remLen start : Nat} (h : readFixedHeader data = some (remLen, start)) :
    2 ≤ start ∧ start ≤ 4 ∧ remLen < 128 ^ 3 ∧ start + remLen ≤ data.length := by
  unfold readFixedHeader at h
  split at h
  · cases h
  · obtain ⟨⟨v, n⟩, hr, h⟩ := Option.bind_eq_some_iff.mp h
    dsimp only at h
    split at h
    · cases h
    · obtain ⟨rfl, rfl⟩ := Prod.mk.inj (Option.some.inj h)
      have hv := decodeRemainingLengthFrom_lt (j := 0) (by decide) hr
      have hn := decodeRemainingLengthFrom_read (j := 0) hr
      exact ⟨by omega, by omega, hv, by omega⟩

theorem readU8_some {data : Bytes} {offset offset' : Nat} {b : UInt8}
    (h : readU8 data offset = some (b, offset')) :
    b = data.getD offset 0 ∧ offset' = offset + 1 ∧ offset' ≤ data.length := by
  unfold readU8 at h
  split at h
  · cases h
  · obtain ⟨rfl, rfl⟩ := Prod.mk.inj (Option.some.inj h)
    exact ⟨rfl, rfl, by omega⟩

theorem readU16_some {data : Bytes} {offset offset' v : Nat} (h : readU16 data offset = some (v, offset')) :
    v = (data.getD offset 0).toNat * 256 + (data.getD (offset + 1) 0).toNat ∧ v < 65536 ∧
      offset' = offset + 2 ∧ offset' ≤ data.length := by
  unfold readU16 at h
  split at h
  · cases h
  · obtain ⟨rfl, rfl⟩ := Prod.mk.inj (Option.some.inj h)
    have h1 := (data.getD offset 0).toNat_lt
    have h2 := (data.getD (offset + 1) 0).toNat_lt
    exact ⟨rfl, by omega, rfl, by omega⟩

theorem readString_some {data str : Bytes} {offset offset' : Nat}
    (h : readString data offset = some (str, offset')) :
    str = substr data (offset + 2) str.length ∧ str.length < 65536 ∧ offset' = offset + 2 + str.length ∧
      offset' ≤ data.length := by
  obtain ⟨⟨len, o⟩, hu, h⟩ := Option.bind_eq_some_iff.mp h
  obtain ⟨-, hlen, rfl, -⟩ := readU16_some hu
  dsimp only at h
  split at h
  · cases h
  · obtain ⟨rfl, rfl⟩ := Prod.mk.inj (Option.some.inj h)
    have hl : (substr data (offset + 2) len).length = len := by
      rw [substr, List.length_take, List.length_drop]
      omega
    rw [hl]
    exact ⟨rfl, hlen, rfl, by omega⟩

/-- The packet id stands between the topic and the payload, if there is one. -/
theorem packetId_le {data : Bytes} {qos offset packetId offset' : Nat}
    (h : (if qos > 0 then readU16 data offset else some (0, offset)) = some (packetId, offset')) :
    offset ≤ offset' := by
  split at h
  · obtain ⟨-, -, rfl, -⟩ := readU16_some h
    exact Nat.le_add_right offset 2
  · exact Nat.le_of_eq (Prod.mk.inj (Option.some.inj h)).2

/-- A decoded PUBLISH could be sent again. -/
theorem decodePublish_bounds {data : Bytes} {pub : MqttPublish} (h : decodePublish data = some pub) :
    pub.topic.length < 65536 ∧ 2 + pub.topic.length + pub.payload.length < 128 ^ 3 := by
  rw [decodePublish_chain] at h
  obtain ⟨⟨remLen, start⟩, hfixed, h⟩ := Option.bind_eq_some_iff.mp h
  obtain ⟨⟨topic, offset⟩, hstring, h⟩ := Option.bind_eq_some_iff.mp h
  obtain ⟨⟨packetId, offset'⟩, hid, h⟩ := Option.bind_eq_some_iff.mp h
  have hmono := packetId_le hid
  obtain ⟨-, -, hrem, -⟩ := readFixedHeader_some hfixed
  obtain ⟨-, ht, hoff, -⟩ := readString_some hstring
  dsimp only at h
  split at h
  · cases h
  · obtain rfl := Option.some.inj h
    have hlen : (substr data offset' (start + remLen - offset')).length ≤ start + remLen - offset' :=
      List.length_take_le _ _
    exact ⟨ht, by dsimp only; omega⟩

end LightApr.Mqtt.Packet
