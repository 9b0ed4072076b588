import LightApr.Mqtt.PacketSuffix

/-! The packets with which the C++ client library opens its connection. It writes the remaining length as a
single byte; the broker reads one to three. -/
namespace LightApr.Sdk.Connect
open LightApr.Core Mqtt.Packet Mqtt.PacketSuffix

/-- `write_str`, with the two low bytes of the size. -/
def writeStr (s : Bytes) : Bytes := [UInt8.ofNat (s.length / 256), UInt8.ofNat s.length] ++ s

/-! `rand1` and `rand2` are what the two calls of `rand` return. -/

def username (role : Bytes) (rand1 : Nat) : Bytes := role ++ ascii "_" ++ decimal (rand1 % 10000)

def password (accessKey role : Bytes) (rand1 : Nat) : Bytes := accessKey ++ username role rand1

def clientId (role : Bytes) (rand2 : Nat) : Bytes := role ++ ascii "_sdk_" ++ decimal (rand2 % 10000)

def connectRemLen (accessKey role : Bytes) (rand1 rand2 : Nat) : Nat :=
  10 + (2 + (clientId role rand2).length) + (2 + (username role rand1).length) +
    (2 + (password accessKey role rand1).length)

def connectFlags : UInt8 := 0x02 ||| 0x80 ||| 0x40

def sendConnect (accessKey role : Bytes) (rand1 rand2 : Nat) : Bytes :=
  [0x10, UInt8.ofNat (connectRemLen accessKey role rand1 rand2)] ++
    ([0x00, 0x04] ++ ascii "MQTT" ++ [0x04] ++ [connectFlags] ++ [0x00, 0x3C] ++ writeStr (clientId role rand2) ++
      writeStr (username role rand1) ++ writeStr (password accessKey role rand1))

def subscribeBody (topic : Bytes) : Bytes :=
  [0x00, 0x01] ++ [UInt8.ofNat (topic.length / 256), UInt8.ofNat topic.length] ++ topic ++ [0x00]

def sendSubscribe (topic : Bytes) : Bytes :=
  [0x82, UInt8.ofNat (subscribeBody topic).length] ++ subscribeBody topic

/-! The fixed header as the broker reads it. -/

theorem writeStr_eq (s : Bytes) : writeStr s = writeString s := by
  have hhi : UInt8.ofNat (s.length / 256) = UInt8.ofNat (s.length % 65536 / 256) := by
    apply UInt8.toNat_inj.mp
    rw [UInt8.toNat_ofNat', UInt8.toNat_ofNat']
    omega
  have hlo : UInt8.ofNat s.length = UInt8.ofNat (s.length % 65536) := by
    apply UInt8.toNat_inj.mp
    rw [UInt8.toNat_ofNat', UInt8.toNat_ofNat']
    omega
  rw [writeStr, writeString, u16, hhi, hlo]

/-- Seven bits of a byte, and the bit that announces another one. -/
private theorem length_bits (n : Nat) : (UInt8.ofNat n &&& 127).toNat = n % 256 % 128 ∧
    (UInt8.ofNat n &&& 128 ≠ 0 ↔ 128 ≤ n % 256) := by
  have hall : ∀ m < 256, (UInt8.ofNat m &&& 127).toNat = m % 128 ∧ (UInt8.ofNat m &&& 128 ≠ 0 ↔ 128 ≤ m) := by
    decide +kernel
  have hmod : UInt8.ofNat n = UInt8.ofNat (n % 256) := by
    apply UInt8.toNat_inj.mp
    rw [UInt8.toNat_ofNat', UInt8.toNat_ofNat', Nat.mod_mod]
  rw [hmod]
  exact hall (n % 256) (Nat.mod_lt n (by decide))

theorem readFixedHeader_single (first : UInt8) (body : Bytes) (h : body.length % 256 < 128) :
    readFixedHeader (first :: UInt8.ofNat body.length :: body) = some (body.length % 256, 2) := by
  obtain ⟨hvalue, hmore⟩ := length_bits body.length
  have hlast : ¬ (UInt8.ofNat body.length &&& 128 ≠ 0) := fun hc => by
    have := hmore.mp hc
    omega
  rw [readFixedHeader, List.drop_succ_cons, List.drop_zero, decodeRemainingLength, decodeRemainingLengthFrom]
  rw [if_neg (by rw [List.length_cons, List.length_cons]; omega)]
  simp only [hlast, if_false, hvalue, Nat.zero_add, Nat.mul_one, Nat.one_mul, Option.bind_eq_bind]
  rw [if_neg (by decide), Nat.mod_eq_of_lt h]
  dsimp only [Option.bind_some]
  have hle := Nat.mod_le body.length 256
  rw [if_neg (by rw [List.length_cons, List.length_cons]; omega)]

/-- The high bit of the length takes the first byte of the body, a zero in both packets, into the length field. -/
theorem readFixedHeader_shifted (first : UInt8) {body rest : Bytes} (hbody : body = 0 :: rest)
    (h : 128 ≤ body.length % 256) :
    readFixedHeader (first :: UInt8.ofNat body.length :: body) = some (body.length % 256 - 128, 3) := by
  obtain ⟨hvalue, hmore⟩ := length_bits body.length
  have hcont := hmore.mpr h
  have hbits : body.length % 256 % 128 = body.length % 256 - 128 := by omega
  rw [readFixedHeader, List.drop_succ_cons, List.drop_zero, decodeRemainingLength, decodeRemainingLengthFrom]
  rw [if_neg (by rw [List.length_cons, List.length_cons]; omega)]
  simp only [hcont, if_true, hvalue, hbits, Nat.zero_add, Nat.mul_one, Nat.one_mul, Option.bind_eq_bind, ne_eq,
    not_false_eq_true]
  have hnext : decodeRemainingLengthFrom 128 (body.length % 256 - 128) 1 body =
      some (body.length % 256 - 128, 2) := by
    have hzero : ¬ ((0 : UInt8) &&& 128 ≠ 0) := by decide
    have hnone : ((0 : UInt8) &&& 127).toNat = 0 := by decide
    rw [hbody, decodeRemainingLengthFrom]
    simp only [hzero, hnone, if_false, Nat.zero_mul, Nat.add_zero]
    rw [if_neg (by decide)]
  rw [if_neg (by decide), hnext]
  dsimp only [Option.bind_some]
  have hle := Nat.mod_le body.length 256
  rw [if_neg (by rw [List.length_cons, List.length_cons]; omega)]

/-- More than one byte goes into the length field. -/
theorem start_of_continued (first : UInt8) {body : Bytes} {remLen start : Nat} (h : 128 ≤ body.length % 256)
    (hfixed : readFixedHeader (first :: UInt8.ofNat body.length :: body) = some (remLen, start)) : 3 ≤ start := by
  have hcont := (length_bits body.length).2.mpr h
  rw [readFixedHeader, List.drop_succ_cons, List.drop_zero] at hfixed
  obtain ⟨-, -, hfixed⟩ := Option.bind_eq_some_iff.mp hfixed
  obtain ⟨⟨v, n⟩, hrem, hfixed⟩ := Option.bind_eq_some_iff.mp hfixed
  rw [decodeRemainingLength, decodeRemainingLengthFrom, if_neg (by decide), if_pos hcont] at hrem
  have hread := decodeRemainingLengthFrom_read (j := 1) hrem
  dsimp only at hfixed
  split at hfixed
  · cases hfixed
  · obtain ⟨-, rfl⟩ := Prod.mk.inj (Option.some.inj hfixed)
    omega

/-! A CONNECT with one byte of length. -/

theorem decodeConnect_single {f : ConnectFields} (hwell : f.WellFormed) (hname : f.protoName ∈ protoNames)
    (hshort : f.bytes.length % 256 < 128) :
    decodeConnect (0x10 :: UInt8.ofNat f.bytes.length :: f.bytes) =
      some ⟨f.clientId, f.username, f.password, f.keepAlive⟩ := by
  rw [decodeConnect_eq_some (readFixedHeader_single 0x10 _ hshort)]
  exact ⟨f, hwell, hname, List.prefix_refl _, rfl⟩

/-- One byte further on, the length of the protocol name is 1101. -/
theorem decodeConnect_shifted {body rest : Bytes} (hfront : body = 0 :: 4 :: rest) (hlong : 128 ≤ body.length % 256) :
    decodeConnect (0x10 :: UInt8.ofNat body.length :: body) = none := by
  rw [Option.eq_none_iff_forall_ne_some]
  intro conn hconn
  rw [decodeConnect_eq_some (readFixedHeader_shifted 0x10 hfront hlong)] at hconn
  obtain ⟨f, -, hname, hbytes, -⟩ := hconn
  rw [hfront, List.drop_succ_cons, List.drop_succ_cons, List.drop_succ_cons, List.drop_zero,
    ConnectFields.bytes] at hbytes
  have hfirst : ∀ name ∈ protoNames, (writeString name).head? = some 0 := by decide +kernel
  obtain ⟨t, ht⟩ := (List.prefix_append (writeString f.protoName) _).trans hbytes
  have hhead := hfirst f.protoName hname
  cases hw : writeString f.protoName with
  | nil => exact writeString_ne_nil _ hw
  | cons b bs =>
    rw [hw] at ht hhead
    obtain rfl := Option.some.inj hhead
    exact absurd (List.cons.inj ht).1 (by decide)

/-! A SUBSCRIBE of one topic with one byte of length. -/

def oneTopic (packetId : Nat) (topic : Bytes) : Bytes := u16 packetId ++ (writeString topic ++ [0])

theorem oneTopic_length (packetId : Nat) (topic : Bytes) : (oneTopic packetId topic).length = topic.length + 5 := by
  simp only [oneTopic, List.length_append, u16_length, writeString_length, List.length_singleton]
  omega

section
variable {packetId : Nat} {topic : Bytes}

private theorem readTopics_done {data : Bytes} {endOffset offset : Nat} (h : endOffset ≤ offset) (fuel : Nat) :
    readTopics data endOffset fuel offset = some [] := by
  cases fuel with
  | zero => rfl
  | succ fuel => exact if_neg (Nat.not_lt.mpr h)

/-- Every filter that is read stands, with its length and its QoS, in front of the end of the data. -/
private theorem readTopics_room {data : Bytes} {endOffset fuel offset : Nat} {topics : List Bytes}
    (h : readTopics data endOffset fuel offset = some topics) :
    ∀ topic ∈ topics, offset + 2 + topic.length + 1 ≤ data.length := by
  induction fuel generalizing offset topics with
  | zero =>
    obtain rfl := Option.some.inj h
    exact fun _ hmem => absurd hmem List.not_mem_nil
  | succ fuel ih =>
    rw [readTopics] at h
    split at h
    · obtain ⟨⟨first, o1⟩, h1, h⟩ := Option.bind_eq_some_iff.mp h
      obtain ⟨⟨qos, o2⟩, h2, h⟩ := Option.bind_eq_some_iff.mp h
      obtain ⟨rest, h3, h⟩ := Option.bind_eq_some_iff.mp h
      obtain rfl := Option.some.inj h
      obtain ⟨-, -, ho1, -⟩ := readString_some h1
      obtain ⟨-, ho2, hle⟩ := readU8_some h2
      rintro topic (- | ⟨_, hmem⟩)
      · omega
      · have := ih h3 topic hmem
        omega
    · obtain rfl := Option.some.inj h
      exact fun _ hmem => absurd hmem List.not_mem_nil

theorem decodeSubscribe_single (hid : packetId < 65536) (h : topic.length < 65536)
    (hlong : 3 ≤ (topic.length + 5) % 256) (hshort : (topic.length + 5) % 256 < 128) :
    decodeSubscribe (0x82 :: UInt8.ofNat (oneTopic packetId topic).length :: oneTopic packetId topic) =
      some ⟨packetId, [topic]⟩ := by
  have hlen := oneTopic_length packetId topic
  obtain ⟨data, hdata⟩ : ∃ data, 0x82 :: UInt8.ofNat (oneTopic packetId topic).length :: oneTopic packetId topic = data :=
    ⟨_, rfl⟩
  have hfixed : readFixedHeader data = some ((oneTopic packetId topic).length % 256, 2) :=
    hdata ▸ readFixedHeader_single 0x82 _ (by rw [hlen]; exact hshort)
  have hpieces : u16 packetId <+: data.drop 2 ∧ writeString topic <+: data.drop 4 ∧
      [0] <+: data.drop (4 + (writeString topic).length) := by
    have hfront : u16 packetId ++ (writeString topic ++ [0]) <+: data.drop 2 := hdata ▸ List.prefix_refl _
    rwa [append_prefix_drop, append_prefix_drop, u16_length] at hfront
  have hsize : data.length = topic.length + 6 + 1 := by
    rw [← hdata, List.length_cons, List.length_cons, hlen]
  obtain ⟨hpid, htopic, hqos⟩ := hpieces
  have h1 := readU16_eq_some.mpr ⟨hid, rfl, hpid⟩
  have h2 := readString_eq_some.mpr ⟨h, rfl, htopic⟩
  have h3 := readU8_eq_some.mpr ⟨rfl, hqos⟩
  have hend : 2 + (oneTopic packetId topic).length % 256 ≤ 4 + (writeString topic).length + 1 := by
    rw [hlen, writeString_length]
    omega
  rw [hdata]
  refine (decodeSubscribe_eq_some hfixed).mpr ⟨h1, ?_⟩
  rw [hsize, readTopics, if_pos (by rw [hlen]; omega), h2]
  dsimp only [Option.bind_eq_bind, Option.bind_some]
  rw [h3]
  dsimp only [Option.bind_some]
  rw [readTopics_done hend]
  rfl

/-- No filter is read where the length byte covers at most the packet id. -/
theorem decodeSubscribe_uncovered (hid : packetId < 65536) (h : (topic.length + 5) % 256 < 3) :
    decodeSubscribe (0x82 :: UInt8.ofNat (oneTopic packetId topic).length :: oneTopic packetId topic) =
      some ⟨packetId, []⟩ := by
  have hlen := oneTopic_length packetId topic
  have hfixed : readFixedHeader (0x82 :: UInt8.ofNat (oneTopic packetId topic).length :: oneTopic packetId topic) =
      some ((oneTopic packetId topic).length % 256, 2) :=
    readFixedHeader_single 0x82 _ (by rw [hlen]; omega)
  have hpid : u16 packetId <+:
      (0x82 :: UInt8.ofNat (oneTopic packetId topic).length :: oneTopic packetId topic).drop 2 := List.prefix_append _ _
  have h1 := readU16_eq_some.mpr ⟨hid, rfl, hpid⟩
  exact (decodeSubscribe_eq_some hfixed).mpr ⟨h1, readTopics_done (by rw [hlen]; omega) _⟩

/-- Filters read further on are shorter than the topic. -/
theorem decodeSubscribe_shifted (h : 128 ≤ (topic.length + 5) % 256) {sub : MqttSubscribe}
    (hsub : decodeSubscribe (0x82 :: UInt8.ofNat (oneTopic packetId topic).length :: oneTopic packetId topic) = some sub) :
    topic ∉ sub.topics := by
  have hlen := oneTopic_length packetId topic
  obtain ⟨⟨remLen, start⟩, hfixed, -⟩ := Option.bind_eq_some_iff.mp hsub
  have hstart := start_of_continued 0x82 (by rw [hlen]; exact h) hfixed
  obtain ⟨-, htopics⟩ := (decodeSubscribe_eq_some hfixed).mp hsub
  intro hmem
  have hroom := readTopics_room htopics topic hmem
  rw [List.length_cons, List.length_cons, hlen] at hroom
  omega

end

/-! CONNECT -/

section
variable {accessKey role : Bytes} {rand1 rand2 : Nat}

/-- What the packet says, behind its fixed header. -/
def connectFields (accessKey role : Bytes) (rand1 rand2 : Nat) : ConnectFields where
  protoName := ascii "MQTT"
  protoLevel := 0x04
  connFlags := connectFlags
  keepAlive := 60
  clientId := clientId role rand2
  willTopic := []
  willMessage := []
  username := username role rand1
  password := password accessKey role rand1

/-- The flags announce a username and a password, and no will. -/
private theorem bytes_of_flags {f : ConnectFields} (h : f.connFlags = connectFlags) :
    f.bytes = writeString f.protoName ++ ([f.protoLevel] ++ ([connectFlags] ++ (u16 f.keepAlive ++
      (writeString f.clientId ++ (writeString f.username ++ writeString f.password))))) := by
  have hwill (s : Bytes) : flagged (connectFlags &&& 0x04 ≠ 0) s = [] := if_neg (by decide)
  have huser (s : Bytes) : flagged (connectFlags &&& 0x80 ≠ 0) s = writeString s := if_pos (by decide)
  have hpass (s : Bytes) : flagged (connectFlags &&& 0x40 ≠ 0) s = writeString s := if_pos (by decide)
  rw [ConnectFields.bytes, h, hwill, hwill, huser, hpass, List.nil_append, List.nil_append]

theorem sendConnect_fields (accessKey role : Bytes) (rand1 rand2 : Nat) :
    ∃ rest, (connectFields accessKey role rand1 rand2).bytes = 0 :: 4 :: rest ∧
      connectRemLen accessKey role rand1 rand2 = (connectFields accessKey role rand1 rand2).bytes.length ∧
      sendConnect accessKey role rand1 rand2 = 0x10 ::
        UInt8.ofNat (connectFields accessKey role rand1 rand2).bytes.length ::
          (connectFields accessKey role rand1 rand2).bytes := by
  have hbytes : (connectFields accessKey role rand1 rand2).bytes =
      [0x00, 0x04] ++ ascii "MQTT" ++ [0x04] ++ [connectFlags] ++ [0x00, 0x3C] ++ writeStr (clientId role rand2) ++
        writeStr (username role rand1) ++ writeStr (password accessKey role rand1) := by
    have hname : writeString (ascii "MQTT") = [0x00, 0x04] ++ ascii "MQTT" := by decide +kernel
    have hsixty : u16 60 = [0x00, 0x3C] := by decide
    rw [bytes_of_flags rfl]
    dsimp only [connectFields]
    rw [hname, hsixty]
    simp only [writeStr_eq, List.append_assoc]
  have hlen : connectRemLen accessKey role rand1 rand2 = (connectFields accessKey role rand1 rand2).bytes.length := by
    have hascii : (ascii "MQTT").length = 4 := by decide +kernel
    rw [hbytes, connectRemLen]
    simp only [List.length_append, List.length_cons, List.length_nil, writeStr, hascii]
  refine ⟨(connectFields accessKey role rand1 rand2).bytes.drop 2, ?_, hlen, ?_⟩
  · rw [hbytes]
    rfl
  · rw [sendConnect, hlen, hbytes, List.cons_append, List.singleton_append]

theorem connectFields_wellFormed (h : (sendConnect accessKey role rand1 rand2).length < 65536) :
    (connectFields accessKey role rand1 rand2).WellFormed := by
  obtain ⟨-, -, hlen, hpacket⟩ := sendConnect_fields accessKey role rand1 rand2
  rw [hpacket, List.length_cons, List.length_cons, ← hlen, connectRemLen] at h
  have hascii : (ascii "MQTT").length < 65536 := by decide +kernel
  have hsixty : 60 < 65536 := by decide
  have hwill (flag : Bool) : ConnectFields.Sized flag [] := ⟨by decide, fun _ => rfl⟩
  have huser : (connectFlags &&& 0x80 ≠ 0 : Bool) ≠ false := by decide
  have hpass : (connectFlags &&& 0x40 ≠ 0 : Bool) ≠ false := by decide
  refine ⟨hascii, hsixty, ?_, hwill _, hwill _, ⟨?_, fun hno => absurd hno huser⟩, ⟨?_, fun hno => absurd hno hpass⟩⟩
  · show (clientId role rand2).length < 65536
    omega
  · show (username role rand1).length < 65536
    omega
  · show (password accessKey role rand1).length < 65536
    omega

theorem connect_read (h : (sendConnect accessKey role rand1 rand2).length < 65536)
    (hshort : connectRemLen accessKey role rand1 rand2 % 256 < 128) :
    decodeConnect (sendConnect accessKey role rand1 rand2) =
      some ⟨clientId role rand2, username role rand1, password accessKey role rand1, 60⟩ := by
  obtain ⟨-, -, hlen, hpacket⟩ := sendConnect_fields accessKey role rand1 rand2
  rw [hlen] at hshort
  rw [hpacket]
  exact decodeConnect_single (connectFields_wellFormed h) List.mem_cons_self hshort

theorem connect_refused (hlong : 128 ≤ connectRemLen accessKey role rand1 rand2 % 256) :
    decodeConnect (sendConnect accessKey role rand1 rand2) = none := by
  obtain ⟨rest, hfront, hlen, hpacket⟩ := sendConnect_fields accessKey role rand1 rand2
  rw [hlen] at hlong
  rw [hpacket]
  exact decodeConnect_shifted hfront hlong

end

/-! SUBSCRIBE -/

theorem subscribeBody_eq (topic : Bytes) : subscribeBody topic = oneTopic 1 topic := by
  rw [subscribeBody, oneTopic, ← writeStr_eq, writeStr]
  simp [u16]

theorem sendSubscribe_eq (topic : Bytes) :
    sendSubscribe topic = 0x82 :: UInt8.ofNat (oneTopic 1 topic).length :: oneTopic 1 topic := by
  rw [sendSubscribe, subscribeBody_eq]
  rfl

section
variable (accessKey role topic : Bytes) (rand1 rand2 : Nat)

/-- The broker has the client id, the username and the password that were sent. -/
def ConnectRead : Prop :=
  (decodeConnect (sendConnect accessKey role rand1 rand2)).map
  (fun conn => (conn.clientId, conn.username, conn.password)) =
    some (clientId role rand2, username role rand1, accessKey ++ username role rand1)

/-- The broker has the one topic. -/
def SubscribeRead : Prop := (decodeSubscribe (sendSubscribe topic)).map MqttSubscribe.topics = some [topic]

instance : Decidable (ConnectRead accessKey role rand1 rand2) := inferInstanceAs (Decidable (_ = _))

instance : Decidable (SubscribeRead topic) := inferInstanceAs (Decidable (_ = _))

/-- **Of the packets of at most 65000 bytes exactly those are read as they were sent whose length byte ends the
length, and for a SUBSCRIBE covers more than the packet id.** -/
theorem packets_read_iff (hc : (sendConnect accessKey role rand1 rand2).length ≤ 65000)
    (hs : (sendSubscribe topic).length ≤ 65000) :
    (ConnectRead accessKey role rand1 rand2 ↔ connectRemLen accessKey role rand1 rand2 % 256 < 128) ∧
      (SubscribeRead topic ↔ 3 ≤ (topic.length + 5) % 256 ∧ (topic.length + 5) % 256 < 128) := by
  refine ⟨⟨fun h => ?_, fun h => ?_⟩, ⟨fun h => ?_, fun h => ?_⟩⟩
  · by_contra hlong
    rw [ConnectRead, connect_refused (Nat.le_of_not_lt hlong)] at h
    cases h
  · rw [ConnectRead, connect_read (Nat.lt_of_le_of_lt hc (by decide)) h]
    rfl
  · obtain ⟨sub, hsub, htopics⟩ := Option.map_eq_some_iff.mp h
    refine ⟨?_, ?_⟩
    · by_contra hlow
      rw [sendSubscribe_eq, decodeSubscribe_uncovered (by decide) (Nat.lt_of_not_le hlow)] at hsub
      obtain rfl := Option.some.inj hsub
      cases htopics
    · by_contra hlong
      rw [sendSubscribe_eq] at hsub
      refine decodeSubscribe_shifted (Nat.le_of_not_lt hlong) hsub ?_
      rw [htopics]
      exact List.mem_singleton_self topic
  · rw [sendSubscribe_eq, List.length_cons, List.length_cons, oneTopic_length] at hs
    rw [SubscribeRead, sendSubscribe_eq, decodeSubscribe_single (by decide) (by omega) h.1 h.2]
    rfl

end

/-- The default access key of the library. -/
def defaultAccessKey : Bytes := ascii "lightapr_secret_key"

theorem short_role_read : ConnectRead defaultAccessKey (ascii "gate") 17 4 ∧ SubscribeRead (ascii "app/gate") := by
  have hsize : (sendConnect defaultAccessKey (ascii "gate") 17 4).length ≤ 65000 ∧
      (sendSubscribe (ascii "app/gate")).length ≤ 65000 ∧
      connectRemLen defaultAccessKey (ascii "gate") 17 4 % 256 < 128 ∧
      3 ≤ ((ascii "app/gate").length + 5) % 256 ∧ ((ascii "app/gate").length + 5) % 256 < 128 := by
    decide +kernel
  obtain ⟨hc, hs, hconnect, hsubscribe⟩ := hsize
  obtain ⟨h1, h2⟩ := packets_read_iff defaultAccessKey (ascii "gate") (ascii "app/gate") 17 4 hc hs
  exact ⟨h1.mpr hconnect, h2.mpr hsubscribe⟩

/-- The broker cannot read the CONNECT of a client with this role and the default key. -/
theorem long_role_refused : ¬ ∀ (accessKey role topic : Bytes) (rand1 rand2 : Nat),
    (sendConnect accessKey role rand1 rand2).length ≤ 65000 → (sendSubscribe topic).length ≤ 65000 →
      ConnectRead accessKey role rand1 rand2 ∧ SubscribeRead topic := by
  have hlong : (sendConnect defaultAccessKey (ascii "inventory-synchronization") 1234 5678).length ≤ 65000 ∧
      (sendSubscribe (ascii "app/gate")).length ≤ 65000 ∧
      ¬ ConnectRead defaultAccessKey (ascii "inventory-synchronization") 1234 5678 := by
    decide +kernel
  intro h
  exact hlong.2.2 (h _ _ _ _ _ hlong.1 hlong.2.1).1

end LightApr.Sdk.Connect
