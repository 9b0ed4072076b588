import LightApr.Sdk.Connect
import LightApr.Server.Replies

/-! The packets that the dashboard and the tester page build in the browser. Their `Uint8Array` keeps the low eight
bits of a number, and two of the three builders write the remaining length as one. -/
namespace LightApr.Sdk.Pages
open LightApr.Core Mqtt Mqtt.Packet Mqtt.PacketSuffix Connect

/-- A text is falsy when it is empty. -/
def connectFlags (username password : Bytes) : UInt8 :=
  0x02 ||| (if username ≠ [] then 0x80 else 0x00) ||| (if password ≠ [] then 0x40 else 0x00)

def remainingLen (clientId username password : Bytes) : Nat :=
  10 + (2 + clientId.length + (if username ≠ [] then 2 + username.length else 0) +
    (if password ≠ [] then 2 + password.length else 0))

def buildMqttConnectPacket (clientId username password : Bytes) (keepAlive : Nat) : Bytes :=
  [0x10, UInt8.ofNat (remainingLen clientId username password), 0x00, 0x04, 0x4D, 0x51, 0x54, 0x54, 0x04,
    connectFlags username password] ++ u16 keepAlive ++ u16 clientId.length ++ clientId ++
    (if username ≠ [] then u16 username.length ++ username else []) ++
    (if password ≠ [] then u16 password.length ++ password else [])

def buildMqttSubscribePacket (packetId : Nat) (topic : Bytes) : Bytes :=
  [0x82, UInt8.ofNat (2 + 2 + topic.length + 1)] ++ u16 packetId ++ u16 topic.length ++ topic ++ [0x00]

/-- The loop that writes the remaining length of a PUBLISH. -/
def remBytes (n : Nat) : Bytes :=
  let d := UInt8.ofNat (n % 128)
  if 0 < n / 128 then (d ||| 0x80) :: remBytes (n / 128) else [d]
termination_by n

/-- The tester's; the quality of service that it is given plays no part. -/
def buildMqttPublishPacket (topic payload : Bytes) : Bytes :=
  [0x30] ++ remBytes (2 + topic.length + payload.length) ++ u16 topic.length ++ topic ++ payload

variable {clientId username password topic payload : Bytes} {keepAlive packetId : Nat}

/-! The packets as the broker's codec has them. -/

/-- Two bytes hold a number up to its multiples of 65536. -/
theorem u16_mod (n : Nat) : u16 n = u16 (n % 65536) := by
  have h := writeStr_eq (List.replicate n 0)
  rw [writeStr, writeString, List.length_replicate] at h
  exact List.append_cancel_right h

theorem lengthPrefixed (s : Bytes) : u16 s.length ++ s = writeString s := by rw [u16_mod, writeString]

theorem remBytes_eq (n : Nat) : remBytes n = encodeRemainingLength n := by
  induction n using Nat.strong_induction_on with
  | _ n ih =>
    rw [remBytes, encodeRemainingLength]
    split
    · rename_i h
      rw [ih (n / 128) (Nat.div_lt_self (by omega) (by decide))]
    · rfl

theorem buildMqttPublishPacket_eq (topic payload : Bytes) :
    buildMqttPublishPacket topic payload = encodePublish topic payload 0 0 := by
  have hbody : publishBody topic payload 0 0 = u16 topic.length ++ topic ++ payload := by
    rw [publishBody, if_neg (Nat.lt_irrefl 0), List.append_nil, lengthPrefixed]
  rw [buildMqttPublishPacket, encodePublish_qos0, publishBody_length, remBytes_eq, hbody]
  simp only [List.append_assoc]
  rfl

theorem buildMqttSubscribePacket_eq (packetId : Nat) (topic : Bytes) : buildMqttSubscribePacket packetId topic =
    0x82 :: UInt8.ofNat (oneTopic packetId topic).length :: oneTopic packetId topic := by
  have hlen : 2 + 2 + topic.length + 1 = (oneTopic packetId topic).length := by
    rw [oneTopic_length]
    omega
  rw [buildMqttSubscribePacket, hlen, oneTopic, ← lengthPrefixed]
  simp only [List.append_assoc]
  rfl

/-- What the CONNECT says, behind its fixed header. -/
def connectFields (clientId username password : Bytes) (keepAlive : Nat) : ConnectFields where
  protoName := ascii "MQTT"
  protoLevel := 0x04
  connFlags := connectFlags username password
  keepAlive := keepAlive
  clientId := clientId
  willTopic := []
  willMessage := []
  username := username
  password := password

theorem connectFlags_bits (username password : Bytes) :
    connectFlags username password &&& 0x04 = 0 ∧
      (connectFlags username password &&& 0x80 ≠ 0 ↔ username ≠ []) ∧
      (connectFlags username password &&& 0x40 ≠ 0 ↔ password ≠ []) := by
  unfold connectFlags
  by_cases hu : username = [] <;> by_cases hp : password = [] <;> simp [hu, hp] <;> decide

/-- A field that is announced when it is not empty. -/
theorem flagged_nonempty {flag : Bool} {s : Bytes} (h : flag = true ↔ s ≠ []) :
    flagged flag s = if s ≠ [] then u16 s.length ++ s else [] := by
  rw [flagged, lengthPrefixed]
  by_cases hs : s ≠ []
  · rw [if_pos hs, if_pos (h.mpr hs)]
  · rw [if_neg hs, if_neg (mt h.mp hs)]

theorem connectFields_bytes (clientId username password : Bytes) (keepAlive : Nat) :
    ∃ rest, (connectFields clientId username password keepAlive).bytes = 0 :: 4 :: rest ∧
      remainingLen clientId username password = (connectFields clientId username password keepAlive).bytes.length ∧
      buildMqttConnectPacket clientId username password keepAlive =
        0x10 :: UInt8.ofNat (connectFields clientId username password keepAlive).bytes.length ::
          (connectFields clientId username password keepAlive).bytes := by
  obtain ⟨hwill, huser, hpass⟩ := connectFlags_bits username password
  have hname : writeString (ascii "MQTT") = [0x00, 0x04, 0x4D, 0x51, 0x54, 0x54] := by decide +kernel
  have hnone (s : Bytes) : flagged (connectFlags username password &&& 0x04 ≠ 0) s = [] := if_neg (by simp [hwill])
  have huserField := flagged_nonempty (decide_eq_true_iff.trans huser)
  have hpassField := flagged_nonempty (decide_eq_true_iff.trans hpass)
  have hbytes : (connectFields clientId username password keepAlive).bytes =
      [0x00, 0x04, 0x4D, 0x51, 0x54, 0x54, 0x04, connectFlags username password] ++ u16 keepAlive ++
        u16 clientId.length ++ clientId ++ (if username ≠ [] then u16 username.length ++ username else []) ++
        (if password ≠ [] then u16 password.length ++ password else []) := by
    have hflags : (connectFields clientId username password keepAlive).connFlags = connectFlags username password := rfl
    rw [ConnectFields.bytes, hflags, hnone, hnone]
    dsimp only [connectFields]
    rw [huserField, hpassField, hname, ← lengthPrefixed clientId]
    simp only [List.append_assoc]
    rfl
  have hlen : remainingLen clientId username password =
      (connectFields clientId username password keepAlive).bytes.length := by
    have hopt (s : Bytes) : (if s ≠ [] then u16 s.length ++ s else []).length = if s ≠ [] then 2 + s.length else 0 := by
      split
      · rw [List.length_append, u16_length]
      · rfl
    rw [hbytes, remainingLen]
    simp only [List.length_append, hopt, u16_length, List.length_cons, List.length_nil]
    omega
  refine ⟨(connectFields clientId username password keepAlive).bytes.drop 2, ?_, hlen, ?_⟩
  · rw [hbytes]
    rfl
  · rw [buildMqttConnectPacket, hlen, hbytes]
    rfl

theorem connectFields_wellFormed (hkeep : keepAlive < 65536) (hclient : clientId.length < 65536)
    (huser : username.length < 65536) (hpass : password.length < 65536) :
    (connectFields clientId username password keepAlive).WellFormed := by
  obtain ⟨-, huserFlag, hpassFlag⟩ := connectFlags_bits username password
  have hwill (flag : Bool) : ConnectFields.Sized flag [] := ⟨by decide, fun _ => rfl⟩
  have hunset {flag : Bool} {s : Bytes} (hf : flag = true ↔ s ≠ []) (h : flag = false) : s = [] := by
    by_contra hs
    cases h.symm.trans (hf.mpr hs)
  have hname : (ascii "MQTT").length < 65536 := by decide +kernel
  exact ⟨hname, hkeep, hclient, hwill _, hwill _, ⟨huser, hunset (decide_eq_true_iff.trans huserFlag)⟩,
    ⟨hpass, hunset (decide_eq_true_iff.trans hpassFlag)⟩⟩

theorem connect_read (hkeep : keepAlive < 65536) (hclient : clientId.length < 65536) (huser : username.length < 65536)
    (hpass : password.length < 65536) :
    decodeConnect (buildMqttConnectPacket clientId username password keepAlive) =
      if remainingLen clientId username password % 256 < 128 then some ⟨clientId, username, password, keepAlive⟩
      else none := by
  obtain ⟨rest, hfront, hlen, hpacket⟩ := connectFields_bytes clientId username password keepAlive
  rw [hpacket, hlen]
  split
  · rename_i hshort
    exact decodeConnect_single (connectFields_wellFormed hkeep hclient huser hpass) List.mem_cons_self hshort
  · rename_i hlong
    exact decodeConnect_shifted hfront (Nat.le_of_not_lt hlong)

/-- **Of what the pages send, the broker reads as it was meant: a CONNECT exactly if its length byte ends the length,
a SUBSCRIBE if it moreover covers more than the packet id, and a PUBLISH, whose length has as many bytes as it needs,
if these are at most three.** -/
theorem page_packets_read_iff (hkeep : keepAlive < 65536) (hclient : clientId.length < 65536)
    (huser : username.length < 65536) (hpass : password.length < 65536) (hid : packetId < 65536)
    (htopic : topic.length < 65536) :
    (decodeConnect (buildMqttConnectPacket clientId username password keepAlive) =
        some ⟨clientId, username, password, keepAlive⟩ ↔ remainingLen clientId username password % 256 < 128) ∧
      (decodeSubscribe (buildMqttSubscribePacket packetId topic) = some ⟨packetId, [topic]⟩ ↔
        3 ≤ (topic.length + 5) % 256 ∧ (topic.length + 5) % 256 < 128) ∧
      (decodePublish (buildMqttPublishPacket topic payload) = some ⟨topic, payload, 0, 0, false⟩ ↔
        2 + topic.length + payload.length < 128 ^ 3) := by
  rw [connect_read hkeep hclient huser hpass, buildMqttSubscribePacket_eq, buildMqttPublishPacket_eq]
  refine ⟨⟨fun h => ?_, fun h => if_pos h⟩, ⟨fun h => ⟨?_, ?_⟩, fun h => ?_⟩, ⟨fun h => ?_, fun h => ?_⟩⟩
  · by_contra hlong
    rw [if_neg hlong] at h
    cases h
  · by_contra hlow
    rw [decodeSubscribe_uncovered hid (Nat.lt_of_not_le hlow)] at h
    cases h
  · by_contra hlong
    exact decodeSubscribe_shifted (Nat.le_of_not_lt hlong) h (List.mem_singleton_self topic)
  · exact decodeSubscribe_single hid htopic h.1 h.2
  · by_contra hlong
    rw [decodePublish_encodePublish_none (by rw [publishBody_length]; omega)] at h
    cases h
  · exact decodePublish_encodePublish htopic h

private def longKey : Bytes := List.replicate 100 107

/-- The tester is understood; a dashboard whose access key has a hundred bytes is not. -/
theorem short_key_read :
    decodeConnect (buildMqttConnectPacket (ascii "tester_tester_17") (ascii "tester_client")
      (ascii "keytester_client") 60) =
        some ⟨ascii "tester_tester_17", ascii "tester_client", ascii "keytester_client", 60⟩ ∧
      decodeSubscribe (buildMqttSubscribePacket 1 (ascii "apr/#")) = some ⟨1, [ascii "apr/#"]⟩ ∧
      decodeConnect (buildMqttConnectPacket (ascii "monitor_ws_17") (ascii "monitor_client")
        (longKey ++ ascii "monitor_client") 60) ≠
          some ⟨ascii "monitor_ws_17", ascii "monitor_client", longKey ++ ascii "monitor_client", 60⟩ := by
  obtain ⟨htester, hsub, -⟩ := @page_packets_read_iff (ascii "tester_tester_17") (ascii "tester_client")
    (ascii "keytester_client") (ascii "apr/#") [] 60 1 (by decide) (by decide +kernel) (by decide +kernel)
    (by decide +kernel) (by decide) (by decide +kernel)
  obtain ⟨hdashboard, -⟩ := @page_packets_read_iff (ascii "monitor_ws_17") (ascii "monitor_client")
    (longKey ++ ascii "monitor_client") (ascii "apr/#") [] 60 1 (by decide) (by decide +kernel) (by decide +kernel)
    (by decide +kernel) (by decide) (by decide +kernel)
  exact ⟨htester.mpr (by decide +kernel), hsub.mpr (by decide +kernel), mt hdashboard.mp (by decide +kernel)⟩

end LightApr.Sdk.Pages
