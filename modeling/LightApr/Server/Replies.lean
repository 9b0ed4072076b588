import LightApr.Lib.Transducer
import LightApr.Server.FrameDivision

/-! What a session answers: a machine over what arrives on it, and the writes of the
session as a run of that machine, with the messages of others in between. -/
namespace LightApr.Server.Replies
open LightApr.Core Lib Mqtt MqttSession World FrameStream Receiving FrameLoop WebsocketCodec Refusal

/-! The machine. -/

/-- What a session knows of its client. -/
structure Client where
  authenticated : Bool
  closing : Bool
  clientId : Bytes
  username : Bytes
  role : Bytes
  subscriptions : List Bytes

/-- Nothing has arrived yet. -/
def Client.unknown : Client := ⟨false, false, [], [], [], []⟩

/-- What a session reads off its connection. -/
inductive Arrival where
  | upgrade (key : Bytes)
  | packet (data : Bytes)
  | ping (payload : Bytes)

/-- What it writes: an answer of its own, or a message that is broadcast. -/
inductive Written where
  | handshake (key : Bytes)
  | reply (packet : Bytes)
  | pong (payload : Bytes)
  | message (topic payload : Bytes)

namespace Written

def bytes (isWebsocket : Bool) : Written → Bytes
  | handshake key => generateHandshakeResponse (computeAcceptKey key) (ascii "mqtt")
  | reply packet => framedOn isWebsocket packet
  | pong payload => encodeFrame payload 0x0A
  | message topic payload => framedOn isWebsocket (Packet.encodePublish topic payload 0 0)

def message? : Written → Option (Bytes × Bytes)
  | message topic payload => some (topic, payload)
  | handshake _ | reply _ | pong _ => none

def isAnswer (x : Written) : Bool := x.message?.isNone

end Written

namespace Client

/-- The CONNECT: a refusal closes the connection. -/
def connect (accessKey data : Bytes) (c : Client) : Client × List Bytes :=
  match Packet.decodeConnect data with
  | none => ({ c with closing := true }, [Packet.encodeConnack 0x01])
  | some conn =>
    let c := { c with clientId := conn.clientId, username := conn.username }
    if conn.password = expectedPassword accessKey conn.username ∨ accessKey = [] then
      ({ c with role := roleOf conn.username, authenticated := true }, [Packet.encodeConnack 0x00])
    else ({ c with closing := true }, [Packet.encodeConnack 0x04])

/-- The acknowledgement of a PUBLISH, which only QoS 1 asks for. -/
def publish (data : Bytes) (c : Client) : List Bytes :=
  match Packet.decodePublish data with
  | some pub => if c.authenticated ∧ pub.qos = 1 then [Packet.encodePuback pub.packetId] else []
  | none => []

def subscribe (data : Bytes) (c : Client) : Client × List Bytes :=
  match Packet.decodeSubscribe data with
  | some sub =>
    if c.authenticated then
      ({ c with subscriptions := c.subscriptions ++ sub.topics },
        [Packet.encodeSuback sub.packetId (sub.topics.map fun _ => 0x00)])
    else (c, [])
  | none => (c, [])

/-- A control packet, and the packets that answer it. -/
def handle (accessKey data : Bytes) (c : Client) : Client × List Bytes :=
  if data.headD 0 &&& 0xF0 = Packet.connect then c.connect accessKey data
  else if data.headD 0 &&& 0xF0 = Packet.publish then (c, c.publish data)
  else if data.headD 0 &&& 0xF0 = Packet.subscribe &&& 0xF0 then c.subscribe data
  else if data.headD 0 &&& 0xF0 = Packet.pingreq then (c, [Packet.encodePingresp])
  else (c, [])

def receive (accessKey : Bytes) (c : Client) : Arrival → Client × List Written
  | .upgrade key => (c, [.handshake key])
  | .packet data => ((c.handle accessKey data).1, (c.handle accessKey data).2.map .reply)
  | .ping payload => (c, [.pong payload])

end Client

/-- The machine of a connection. -/
def responder (accessKey : Bytes) : Transducer Client Arrival Written := ⟨Client.receive accessKey⟩

/-! A session as a run of the machine. -/

def Client.of (s : MqttSession) : Client :=
  ⟨s.authenticated, s.closing, s.clientId, s.username, s.role, s.subscriptions⟩

/-- What a frame brings; a continuation or pong frame brings nothing, nor does an empty packet. -/
def arrival? (frame : WsFrame) : Option Arrival :=
  if (frame.opcode = 0x01 ∨ frame.opcode = 0x02) ∧ frame.payload ≠ [] then some (.packet frame.payload)
  else if frame.opcode = 0x09 then some (.ping frame.payload)
  else none

/-- The reads up to the one that completes the header block, joined. -/
structure IsRequest (reads : List Bytes) (request : Bytes) : Prop where
  reads : ∃ before data, before ++ [data] <+: reads ∧ request = (before ++ [data]).flatten ∧
    find (ascii "\r\n\r\n") before.flatten = none
  complete : find (ascii "\r\n\r\n") request ≠ none

/-- What has arrived on a session: the packets of a plain one, or the upgrade request and the frames. -/
inductive Arrived (frames : List WsFrame) (s : MqttSession) : List Arrival → Prop
  | plain : s.isWebsocket = false → Arrived frames s (s.handled.map .packet)
  | websocket {request key protocol : Bytes} : s.isWebsocket = true → IsRequest s.received request →
      parseHandshakeRequest request = some (key, protocol) →
      Arrived frames s (.upgrade key :: frames.filterMap arrival?)

/-- The session has written `written`, and `arrivals` and the broadcasts account for all of it. -/
structure Accounts (accessKey : Bytes) (arrivals : List Arrival) (s : MqttSession) (written : List Written) : Prop where
  client : Client.of s = (responder accessKey).final .unknown arrivals
  buffers : s.out.buffers = written.map (·.bytes s.isWebsocket)
  answers : written.filter Written.isAnswer = (responder accessKey).output .unknown arrivals
  messages : written.filterMap Written.message? = s.broadcasts
  /-- the answer to the upgrade request goes out first -/
  first : s.isWebsocket = true → ∃ key, written.head? = some (.handshake key)

def Accounted (accessKey : Bytes) (frames : List WsFrame) (s : MqttSession) : Prop :=
  ∃ arrivals written, Arrived frames s arrivals ∧ Accounts accessKey arrivals s written

variable {cfg : ServerConfig} {now : Int} {i : Nat} {w w' : World} {s s' s'' : MqttSession} {accessKey data : Bytes}
  {frames done : List WsFrame} {arrivals : List Arrival} {written : List Written}

/-! What others do to the session. -/

/-- Nothing but messages has been written, and nothing has arrived. -/
structure Follows (s s' : MqttSession) : Prop where
  input : SameInput s s'
  client : Client.of s' = Client.of s
  sent : ∃ sent : List (Bytes × Bytes), s'.broadcasts = s.broadcasts ++ sent ∧
    s'.out.buffers = s.out.buffers ++ sent.map fun m => framedOn s.isWebsocket (Packet.encodePublish m.1 m.2 0 0)

theorem Follows.same (h : SameInput s s') (hc : Client.of s' = Client.of s) (hb : s'.broadcasts = s.broadcasts)
    (ho : s'.out.buffers = s.out.buffers) : Follows s s' :=
  ⟨h, hc, [], by rw [hb, List.append_nil], by rw [ho, List.map_nil, List.append_nil]⟩

theorem Follows.refl (s : MqttSession) : Follows s s := .same (.refl s) rfl rfl rfl

theorem Follows.trans (h : Follows s s') (h' : Follows s' s'') : Follows s s'' := by
  obtain ⟨sent, hb, ho⟩ := h.sent
  obtain ⟨sent', hb', ho'⟩ := h'.sent
  refine ⟨h.input.trans h'.input, h'.client.trans h.client, sent ++ sent', ?_, ?_⟩
  · rw [hb', hb, List.append_assoc]
  · rw [ho', ho, h.input.isWebsocket, List.map_append, List.append_assoc]

theorem follows_deliver (server : Nat) (topic payload : Bytes) (s : MqttSession) :
    Follows s (s.deliver server topic payload) := by
  unfold deliver
  split
  · exact ⟨⟨rfl, rfl, rfl, rfl, rfl, id⟩, rfl, [(topic, payload)], rfl, rfl⟩
  · exact .refl s

theorem follows_deliverAll (msgs : List (Nat × Bytes × Bytes)) (s : MqttSession) : Follows s (deliverAll msgs s) := by
  induction msgs generalizing s with
  | nil => exact .refl s
  | cons m msgs ih => exact (follows_deliver m.1 m.2.1 m.2.2 s).trans (ih _)

theorem follows_passive : Passive Follows where
  refl := .refl
  trans := .trans
  messages := follows_deliverAll
  closed _ := .same ⟨rfl, rfl, rfl, rfl, rfl, fun _ => rfl⟩ rfl rfl rfl
  unlisted _ := .same ⟨rfl, rfl, rfl, rfl, rfl, id⟩ rfl rfl rfl
  gone _ := .same ⟨rfl, rfl, rfl, rfl, rfl, id⟩ rfl rfl rfl

theorem Follows.update {f : MqttSession → MqttSession} (h : Follows (w.session i) (f (w.session i)))
    (hi : i < w.mqtt.length) : Follows (w.session i) ((w.update i f).session i) := by
  rwa [session_update hi]

theorem follows_effect {msgs : List (Nat × Bytes × Bytes)} {shared : Shared} (hi : i < w.mqtt.length)
    (he : Effect w w' i s msgs shared) (h : Follows (w.session i) s) : Follows (w.session i) (w'.session i) := by
  rw [he.session_self hi]
  exact h.trans (follows_deliverAll msgs s)

theorem follows_onWritten (hi : i < w.mqtt.length) (ok : Bool) (kind : WriteKind) :
    Follows (w.session i) ((w.onWritten cfg now i ok kind).1.session i) := by
  unfold onWritten
  split
  · split
    · exact .refl _
    · exact follows_passive.endSession cfg now hi
  · exact follows_passive.endSession cfg now hi
  · exact .refl _

/-- Every completion but that of a read. -/
theorem follows_onMqtt {e : MqttEvent} (hi : i < w.mqtt.length) (he : ∀ data, e ≠ .read data)
    (h : w.onMqtt cfg now i (w.session i) e = some w') : Follows (w.session i) (w'.session i) := by
  have keep {f : MqttSession → MqttSession} (h : Follows (w.session i) (f (w.session i))) :
      i < (w.update i f).mqtt.length ∧ Follows (w.session i) ((w.update i f).session i) :=
    ⟨by simpa using hi, h.update hi⟩
  cases onMqtt_cases h with
  | @read data => exact absurd rfl (he data)
  | readFailed =>
    obtain ⟨hi', h'⟩ := keep (f := readDropped) (.same ⟨rfl, rfl, rfl, rfl, rfl, id⟩ rfl rfl rfl)
    exact h'.trans (follows_passive.endSession cfg now hi')
  | idleExpired =>
    obtain ⟨hi', h'⟩ := keep (f := waitDone) (.same ⟨rfl, rfl, rfl, rfl, rfl, id⟩ rfl rfl rfl)
    exact h'.trans (follows_passive.endSession cfg now hi')
  | waitCanceled => exact (keep (f := waitDone) (.same ⟨rfl, rfl, rfl, rfl, rfl, id⟩ rfl rfl rfl)).2
  | @transferred k n =>
    exact (keep (f := fun s => { s with out := s.out.transfer k n })
      (.same ⟨rfl, rfl, rfl, rfl, rfl, id⟩ rfl rfl rfl)).2
  | @written k =>
    obtain ⟨hi', h'⟩ := keep (f := writeDone k) (.same ⟨rfl, rfl, rfl, rfl, rfl, id⟩ rfl rfl rfl)
    exact h'.trans (follows_onWritten hi' _ _)

theorem follows_step {e : World.Event} (hi : i < w.mqtt.length) (he : ∀ now data, e ≠ .mqtt now i (.read data))
    (h : step cfg w e = some w') : Follows (w.session i) (w'.session i) := by
  refine follows_passive.step hi (fun now e' hown hs => ?_) h
  exact follows_onMqtt hi (fun data hd => he now data (hd ▸ hown)) hs

/-! One packet. -/

/-- The packet is recorded, and the answers of the machine are written. -/
structure Answers (accessKey data : Bytes) (s s' : MqttSession) : Prop where
  input : SameInput (s.recordPacket data) s'
  client : Client.of s' = ((Client.of s).handle accessKey data).1
  broadcasts : s'.broadcasts = s.broadcasts
  buffers : s'.out.buffers = s.out.buffers ++ ((Client.of s).handle accessKey data).2.map (framedOn s.isWebsocket)

theorem answers_connect (ht : data.headD 0 &&& 0xF0 = Packet.connect) :
    Answers accessKey data s (handleConnect accessKey data (s.recordPacket data)) := by
  have hhandle : (Client.of s).handle accessKey data = (Client.of s).connect accessKey data := if_pos ht
  unfold handleConnect
  cases hd : Packet.decodeConnect data with
  | none =>
    have hc : (Client.of s).connect accessKey data =
        ({ Client.of s with closing := true }, [Packet.encodeConnack 0x01]) := by rw [Client.connect, hd]
    refine ⟨⟨rfl, rfl, rfl, rfl, rfl, id⟩, ?_, rfl, ?_⟩ <;> rw [hhandle, hc] <;> rfl
  | some conn =>
    by_cases hno : conn.password ≠ expectedPassword accessKey conn.username ∧ accessKey ≠ []
    · have hc : (Client.of s).connect accessKey data =
          ({ Client.of s with clientId := conn.clientId, username := conn.username, closing := true },
            [Packet.encodeConnack 0x04]) := by
        rw [Client.connect, hd]
        dsimp only
        rw [if_neg (by rintro (h | h); exacts [hno.1 h, hno.2 h])]
      dsimp only
      rw [if_pos hno]
      refine ⟨⟨rfl, rfl, rfl, rfl, rfl, id⟩, ?_, rfl, ?_⟩ <;> rw [hhandle, hc] <;> rfl
    · have hyes : conn.password = expectedPassword accessKey conn.username ∨ accessKey = [] := by
        by_contra h
        exact hno ⟨fun hp => h (.inl hp), fun hk => h (.inr hk)⟩
      have hc : (Client.of s).connect accessKey data =
          ({ Client.of s with
              clientId := conn.clientId, username := conn.username
              role := roleOf conn.username, authenticated := true }, [Packet.encodeConnack 0x00]) := by
        rw [Client.connect, hd]
        dsimp only
        rw [if_pos hyes]
      dsimp only
      rw [if_neg hno]
      refine ⟨⟨rfl, rfl, rfl, rfl, rfl, id⟩, ?_, rfl, ?_⟩ <;> rw [hhandle, hc] <;> rfl

theorem answers_subscribe (ht : data.headD 0 &&& 0xF0 = Packet.subscribe &&& 0xF0) :
    Answers accessKey data s (handleSubscribe data (s.recordPacket data)) := by
  have hhandle : (Client.of s).handle accessKey data = (Client.of s).subscribe data := by
    rw [Client.handle, if_neg (by rw [ht]; decide), if_neg (by rw [ht]; decide), if_pos ht]
  unfold handleSubscribe
  cases ha : s.authenticated with
  | false =>
    have hc : (Client.of s).subscribe data = (Client.of s, []) := by
      unfold Client.subscribe
      split
      · exact if_neg (by rw [Client.of, ha]; exact Bool.false_ne_true)
      · rfl
    have ha' : (s.recordPacket data).authenticated = false := ha
    rw [ha', Bool.not_false, if_pos rfl]
    refine ⟨.refl _, ?_, rfl, ?_⟩
    · rw [hhandle, hc]
      rfl
    · rw [hhandle, hc, List.map_nil, List.append_nil]
      rfl
  | true =>
    have ha' : (s.recordPacket data).authenticated = true := ha
    rw [if_neg (by rw [ha', Bool.not_true]; exact Bool.false_ne_true)]
    cases hd : Packet.decodeSubscribe data with
    | none =>
      have hc : (Client.of s).subscribe data = (Client.of s, []) := by rw [Client.subscribe, hd]
      refine ⟨.refl _, ?_, rfl, ?_⟩
      · rw [hhandle, hc]
        rfl
      · rw [hhandle, hc, List.map_nil, List.append_nil]
        rfl
    | some sub =>
      have hc : (Client.of s).subscribe data =
          ({ Client.of s with subscriptions := s.subscriptions ++ sub.topics },
            [Packet.encodeSuback sub.packetId (sub.topics.map fun _ => 0x00)]) := by
        rw [Client.subscribe, hd]
        exact if_pos ha
      refine ⟨⟨rfl, rfl, rfl, rfl, rfl, id⟩, ?_, rfl, ?_⟩ <;> rw [hhandle, hc] <;> rfl

theorem answers_pingreq (ht : data.headD 0 &&& 0xF0 = Packet.pingreq) :
    Answers accessKey data s (handlePingreq (s.recordPacket data)) := by
  have hhandle : (Client.of s).handle accessKey data = (Client.of s, [Packet.encodePingresp]) := by
    rw [Client.handle, if_neg (by rw [ht]; decide), if_neg (by rw [ht]; decide), if_neg (by rw [ht]; decide), if_pos ht]
  refine ⟨⟨rfl, rfl, rfl, rfl, rfl, id⟩, ?_, rfl, ?_⟩ <;> rw [hhandle] <;> rfl

/-- A packet that is not answered. -/
theorem answers_nothing (h : (Client.of s).handle accessKey data = (Client.of s, [])) :
    Answers accessKey data s (s.recordPacket data) := by
  refine ⟨.refl _, ?_, rfl, ?_⟩
  · rw [h]
    rfl
  · rw [h, List.map_nil, List.append_nil]
    rfl

theorem answers_acknowledge {pub : Packet.MqttPublish} (ht : data.headD 0 &&& 0xF0 = Packet.publish)
    (hd : Packet.decodePublish data = some pub) (ha : s.authenticated = true) :
    Answers accessKey data s ((s.recordPacket data).acknowledge pub) := by
  have hhandle : (Client.of s).handle accessKey data = (Client.of s, (Client.of s).publish data) := by
    rw [Client.handle, if_neg (by rw [ht]; decide), if_pos ht]
  have ha' : (Client.of s).authenticated = true := ha
  unfold acknowledge
  by_cases hq : pub.qos = 1
  · have hp : (Client.of s).publish data = [Packet.encodePuback pub.packetId] := by
      rw [Client.publish, hd]
      exact if_pos ⟨ha', hq⟩
    rw [if_pos hq]
    refine ⟨⟨rfl, rfl, rfl, rfl, rfl, id⟩, ?_, rfl, ?_⟩ <;> rw [hhandle, hp] <;> rfl
  · have hp : (Client.of s).publish data = [] := by
      rw [Client.publish, hd]
      exact if_neg fun h => hq h.2
    rw [if_neg hq]
    exact answers_nothing (by rw [hhandle, hp])

/-- After the acknowledgement a PUBLISH is carried out: the registry changes, or the message is passed on. -/
theorem answers_handlePublish (cfg : ServerConfig) (now : Int) (hi : i < w.mqtt.length)
    (ht : data.headD 0 &&& 0xF0 = Packet.publish) : ∃ s₁, Answers cfg.accessKey data (w.session i) s₁ ∧
      Follows s₁ (((w.update i (recordPacket data)).handlePublish cfg now i data).session i) := by
  have hs := session_update hi (recordPacket data)
  have hhandle : (Client.of (w.session i)).handle cfg.accessKey data =
      (Client.of (w.session i), (Client.of (w.session i)).publish data) := by
    rw [Client.handle, if_neg (by rw [ht]; decide), if_pos ht]
  have silent (hp : (Client.of (w.session i)).publish data = []) : ∃ s₁, Answers cfg.accessKey data (w.session i) s₁ ∧
      Follows s₁ ((w.update i (recordPacket data)).session i) :=
    ⟨_, answers_nothing (by rw [hhandle, hp]), hs ▸ .refl _⟩
  unfold handlePublish
  dsimp only
  rw [hs]
  cases ha : (w.session i).authenticated with
  | false =>
    have ha' : ((w.session i).recordPacket data).authenticated = false := ha
    rw [ha', Bool.not_false, if_pos rfl]
    refine silent ?_
    unfold Client.publish
    split
    · exact if_neg fun h => Bool.false_ne_true (ha.symm.trans h.1)
    · rfl
  | true =>
    have ha' : ((w.session i).recordPacket data).authenticated = true := ha
    rw [ha', Bool.not_true, if_neg Bool.false_ne_true]
    cases hd : Packet.decodePublish data with
    | none => exact silent (by rw [Client.publish, hd])
    | some pub =>
      obtain ⟨w₁, hw₁⟩ : ∃ x, (w.update i (recordPacket data)).update i (acknowledge pub) = x := ⟨_, rfl⟩
      have hi₁ : i < w₁.mqtt.length := by
        rw [← hw₁, length_update, length_update]
        exact hi
      have hs₁ : w₁.session i = ((w.session i).recordPacket data).acknowledge pub := by
        rw [← hw₁, session_update (by simpa using hi), hs]
      refine ⟨w₁.session i, hs₁ ▸ answers_acknowledge ht hd ha, ?_⟩
      dsimp only
      rw [hw₁]
      split
      · split
        · exact .refl _
        · rename_i m _
          obtain ⟨nodeId, -, he⟩ := publishMeta_effect cfg now m hi₁
          exact follows_effect hi₁ he (.same ⟨rfl, rfl, rfl, rfl, rfl, id⟩ rfl rfl rfl)
      · split
        · split
          · exact .refl _
          · split
            · exact .refl _
            · rename_i worker extra _
              exact follows_effect hi₁ (publishExtra_effect cfg now i worker extra w₁) (.refl _)
        · split
          · exact .refl _
          · have he : Effect w₁ (w₁.broadcast (w.session i).server pub.topic pub.payload) i (w₁.session i)
                [((w.session i).server, pub.topic, pub.payload)] w₁.shared := by
              refine ⟨?_, rfl, rfl⟩
              rw [set_session_self]
              rfl
            exact follows_effect hi₁ he (.refl _)

/-- What handling a packet comes to for the session itself. -/
theorem answers_processPacket (cfg : ServerConfig) (now : Int) (hi : i < w.mqtt.length) (hne : data ≠ []) :
    ∃ s₁, Answers cfg.accessKey data (w.session i) s₁ ∧ Follows s₁ ((w.processPacket cfg now i data).1.session i) := by
  have hcase := processPacket_cases cfg now i w hne
  have hs := session_update hi (recordPacket data)
  have hi' : i < (w.update i (recordPacket data)).mqtt.length := by simpa using hi
  generalize w.processPacket cfg now i data = x at hcase ⊢
  cases hcase with
  | connect ht => exact ⟨_, answers_connect ht, by rw [session_update hi', hs]; exact .refl _⟩
  | publish ht => exact answers_handlePublish cfg now hi ht
  | subscribe ht => exact ⟨_, answers_subscribe ht, by rw [session_update hi', hs]; exact .refl _⟩
  | pingreq ht => exact ⟨_, answers_pingreq ht, by rw [session_update hi', hs]; exact .refl _⟩
  | disconnect ht =>
    refine ⟨_, answers_nothing ?_, hs ▸ follows_passive.endSession cfg now hi'⟩
    rw [Client.handle, if_neg (by rw [ht]; decide), if_neg (by rw [ht]; decide), if_neg (by rw [ht]; decide),
      if_neg (by rw [ht]; decide)]
  | dropped hconnect hpublish hsubscribe hping _ =>
    refine ⟨_, answers_nothing ?_, hs ▸ .refl _⟩
    rw [Client.handle, if_neg hconnect, if_neg hpublish, if_neg hsubscribe, if_neg hping]

/-! The account of what has been written. -/

theorem isAnswer_receive (accessKey : Bytes) (c : Client) (x : Arrival) :
    ∀ y ∈ (c.receive accessKey x).2, y.isAnswer = true := by
  intro y hy
  cases x with
  | upgrade | ping =>
    obtain rfl := List.mem_singleton.mp hy
    rfl
  | packet =>
    obtain ⟨_, -, rfl⟩ := List.mem_map.mp hy
    rfl

theorem message?_eq_none {x : Written} (h : x.isAnswer = true) : x.message? = none := Option.isNone_iff_eq_none.mp h

/-- Something has arrived, and the machine has answered it. -/
theorem Accounts.receive (h : Accounts accessKey arrivals s written) (x : Arrival)
    (hws : s'.isWebsocket = s.isWebsocket)
    (hclient : Client.of s' = ((Client.of s).receive accessKey x).1) (hb : s'.broadcasts = s.broadcasts)
    (ho : s'.out.buffers = s.out.buffers ++ ((Client.of s).receive accessKey x).2.map (·.bytes s.isWebsocket)) :
    Accounts accessKey (arrivals ++ [x]) s' (written ++ ((Client.of s).receive accessKey x).2) where
  client := by
    rw [Transducer.final_snoc, ← h.client, hclient]
    rfl
  buffers := by rw [ho, h.buffers, hws, List.map_append]
  answers := by
    rw [List.filter_append, h.answers, Transducer.output_snoc, ← h.client,
      List.filter_eq_self.mpr (isAnswer_receive accessKey _ x)]
    rfl
  messages := by
    have hnone : ((Client.of s).receive accessKey x).2.filterMap Written.message? = [] :=
      List.filterMap_eq_nil_iff.mpr fun y hy => message?_eq_none (isAnswer_receive accessKey _ x y hy)
    rw [List.filterMap_append, h.messages, hnone, List.append_nil, hb]
  first hyes := by
    obtain ⟨key, hk⟩ := h.first (hws ▸ hyes)
    exact ⟨key, by rw [List.head?_append, hk, Option.some_or]⟩

/-- Messages of others come in between. -/
theorem Accounts.follows (h : Accounts accessKey arrivals s written) (hf : Follows s s') :
    ∃ written', Accounts accessKey arrivals s' written' := by
  obtain ⟨sent, hb, ho⟩ := hf.sent
  refine ⟨written ++ sent.map fun m => .message m.1 m.2, hf.client.trans h.client, ?_, ?_, ?_, fun hyes => ?_⟩
  · rw [ho, h.buffers, hf.input.isWebsocket, List.map_append, List.map_map]
    rfl
  · have hnone : (sent.map fun m => Written.message m.1 m.2).filter Written.isAnswer = [] := by
      rw [List.filter_map]
      exact List.map_eq_nil_iff.mpr (List.filter_eq_nil_iff.mpr fun _ _ => Bool.false_ne_true)
    rw [List.filter_append, h.answers, hnone, List.append_nil]
  · have hall : (sent.map fun m => Written.message m.1 m.2).filterMap Written.message? = sent := by
      rw [List.filterMap_map]
      exact List.filterMap_some
    rw [List.filterMap_append, h.messages, hall, hb]
  · obtain ⟨key, hk⟩ := h.first (hf.input.isWebsocket ▸ hyes)
    exact ⟨key, by rw [List.head?_append, hk, Option.some_or]⟩

theorem IsRequest.extend {reads reads' : List Bytes} {request : Bytes} (h : IsRequest reads request)
    (hr : reads <+: reads') : IsRequest reads' request := by
  obtain ⟨⟨before, data, hp, he, hnone⟩, hc⟩ := h
  exact ⟨⟨before, data, hp.trans hr, he, hnone⟩, hc⟩

theorem Arrived.same (h : Arrived frames s arrivals) (hs : SameInput s s') : Arrived frames s' arrivals := by
  cases h with
  | plain hws => exact hs.handled ▸ .plain (hs.isWebsocket.trans hws)
  | websocket hws hr hk => exact .websocket (hs.isWebsocket.trans hws) (hs.received ▸ hr) hk

theorem Accounted.follows (h : Accounted accessKey frames s) (hf : Follows s s') : Accounted accessKey frames s' := by
  obtain ⟨arrivals, written, ha, hw⟩ := h
  obtain ⟨written', hw'⟩ := hw.follows hf
  exact ⟨arrivals, written', ha.same hf.input, hw'⟩

/-- Changes of the buffer, the reads and the waits. -/
theorem Accounted.keep (h : Accounted accessKey frames s) (hws : s'.isWebsocket = s.isWebsocket)
    (hr : s.received <+: s'.received) (hh : s'.handled = s.handled) (hc : Client.of s' = Client.of s)
    (ho : s'.out.buffers = s.out.buffers) (hb : s'.broadcasts = s.broadcasts) : Accounted accessKey frames s' := by
  obtain ⟨arrivals, written, ha, hw⟩ := h
  refine ⟨arrivals, written, ?_, hc.trans hw.client, by rw [ho, hws, hw.buffers], hw.answers, hw.messages.trans hb.symm,
    fun hyes => hw.first (hws ▸ hyes)⟩
  cases ha with
  | plain hno => exact hh ▸ .plain (hws.trans hno)
  | websocket hyes hrequest hk => exact .websocket (hws.trans hyes) (hrequest.extend hr) hk

/-- A packet has been answered; on a WebSocket it has come in the last of the frames. -/
theorem Accounted.answered (h : Accounted accessKey frames s) (ha : Answers accessKey data s s') {more : List WsFrame}
    (hmore : s.isWebsocket = true → more.filterMap arrival? = [.packet data]) :
    Accounted accessKey (frames ++ more) s' := by
  obtain ⟨arrivals, written, harrived, hw⟩ := h
  have hbuf : ((Client.of s).receive accessKey (.packet data)).2.map (Written.bytes s.isWebsocket) =
      ((Client.of s).handle accessKey data).2.map (framedOn s.isWebsocket) := List.map_map ..
  refine ⟨arrivals ++ [.packet data], _, ?_, hw.receive (.packet data) ha.input.isWebsocket ha.client ha.broadcasts
    (hbuf ▸ ha.buffers)⟩
  cases harrived with
  | plain hws =>
    have hh : s'.handled.map Arrival.packet = s.handled.map Arrival.packet ++ [.packet data] := by
      rw [ha.input.handled, recordPacket, List.map_append]
      rfl
    exact hh ▸ .plain (ha.input.isWebsocket.trans hws)
  | websocket hws hr hk =>
    have harrivals := hmore hws
    rw [List.cons_append, ← harrivals, ← List.filterMap_append]
    refine .websocket (ha.input.isWebsocket.trans hws) ?_ hk
    rw [ha.input.received]
    exact hr

/-! The frames of a read. -/

/-- What holds in the loop over the frames. -/
structure Running (accessKey : Bytes) (i : Nat) (frames : List WsFrame) (w : World) : Prop where
  present : i < w.mqtt.length
  onWebsocket : OnWebsocket (w.session i)
  accounted : Accounted accessKey frames (w.session i)

theorem Running.follows (h : Running accessKey i frames w) (hlen : w'.mqtt.length = w.mqtt.length)
    (hf : Follows (w.session i) (w'.session i)) : Running accessKey i frames w' :=
  ⟨hlen.symm ▸ h.present, OnWebsocket.same h.onWebsocket hf.input, h.accounted.follows hf⟩

theorem Running.consuming (h : Running accessKey i frames w) (n : Nat) :
    Running accessKey i frames (w.update i (consuming n)) := by
  have hs := session_update h.present (FrameLoop.consuming n)
  refine ⟨by simpa using h.present, hs ▸ ⟨h.onWebsocket.settled, h.onWebsocket.websocket⟩, hs ▸ ?_⟩
  exact h.accounted.keep rfl List.prefix_rfl rfl rfl rfl rfl

/-- A frame that brings nothing. -/
theorem Running.nothing (h : Running accessKey i frames w) {frame : WsFrame} (hf : arrival? frame = none) :
    Running accessKey i (frames ++ [frame]) w := by
  obtain ⟨arrivals, written, ha, hw⟩ := h.accounted
  refine ⟨h.present, h.onWebsocket, arrivals, written, ?_, hw⟩
  cases ha with
  | plain hws => cases h.onWebsocket.websocket.symm.trans hws
  | @websocket request key protocol hws hr hk =>
    have hsame : (frames ++ [frame]).filterMap arrival? = frames.filterMap arrival? := by
      rw [List.filterMap_append, List.filterMap_cons_none hf, List.filterMap_nil, List.append_nil]
    exact hsame ▸ .websocket hws hr hk

theorem Running.packet (cfg : ServerConfig) (now : Int) (h : Running cfg.accessKey i frames w) {frame : WsFrame}
    (hop : frame.opcode = 0x01 ∨ frame.opcode = 0x02) :
    Running cfg.accessKey i (frames ++ [frame]) (w.processPacket cfg now i frame.payload).1 := by
  have hi := h.present
  by_cases hne : frame.payload = []
  · have hnone : arrival? frame = none := by
      rw [arrival?, if_neg (fun hf => hf.2 hne), if_neg]
      rcases hop with hop | hop <;> rw [hop] <;> decide
    rw [hne]
    exact h.nothing hnone
  · obtain ⟨s₁, ha, hf⟩ := answers_processPacket cfg now hi hne
    have hlen := Trace.length (trace_processPacket cfg now hi h.onWebsocket.settled frame.payload)
    have hone : [frame].filterMap arrival? = [.packet frame.payload] := by
      have hpacket : arrival? frame = some (.packet frame.payload) := if_pos ⟨hop, hne⟩
      rw [List.filterMap_cons_some hpacket, List.filterMap_nil]
    exact ⟨hlen.symm ▸ hi, onWebsocket_processPacket cfg now hi h.onWebsocket frame.payload,
      (h.accounted.answered ha fun _ => hone).follows hf⟩

theorem Running.ping (h : Running accessKey i frames w) {frame : WsFrame} (hop : frame.opcode = 0x09) :
    Running accessKey i (frames ++ [frame])
      (w.update i (asyncWrite (encodeFrame frame.payload 0x0A) .ignored)) := by
  have hs := session_update h.present (asyncWrite (encodeFrame frame.payload 0x0A) .ignored)
  obtain ⟨arrivals, written, ha, hw⟩ := h.accounted
  have hnext : Accounts accessKey (arrivals ++ [.ping frame.payload])
      (asyncWrite (encodeFrame frame.payload 0x0A) .ignored (w.session i)) _ :=
    hw.receive (.ping frame.payload) rfl rfl rfl rfl
  refine ⟨by simpa using h.present, hs ▸ ⟨h.onWebsocket.settled, h.onWebsocket.websocket⟩,
    arrivals ++ [.ping frame.payload], _, hs ▸ ?_, hs ▸ hnext⟩
  cases ha with
  | plain hws => cases h.onWebsocket.websocket.symm.trans hws
  | websocket hws hr hk =>
    have hone : [frame].filterMap arrival? = [.ping frame.payload] := by
      have hping : arrival? frame = some (.ping frame.payload) := by
        rw [arrival?, if_neg (by rintro ⟨h | h, -⟩ <;> rw [hop] at h <;> cases h), if_pos hop]
      rw [List.filterMap_cons_some hping, List.filterMap_nil]
    rw [List.cons_append, ← hone, ← List.filterMap_append]
    exact .websocket hws hr hk

theorem running_round (cfg : ServerConfig) (now : Int) (i : Nat) :
    Round cfg now i (fun done _ w => Running cfg.accessKey i done w) (Running cfg.accessKey i) where
  halts h _ := h
  packet {_ _ _ _ _ n _} h _ hop hp := by
    have hnext := (h.consuming n).packet cfg now hop
    rw [hp] at hnext
    exact ⟨fun _ => hnext, fun _ => hnext⟩
  close {_ _ _ frame n} h _ hclose := by
    have hnone : arrival? frame = none := by
      rw [arrival?, if_neg (by rintro ⟨h | h, -⟩ <;> rw [hclose] at h <;> cases h), if_neg (by rw [hclose]; decide)]
    have hnext := (h.consuming n).nothing hnone
    exact hnext.follows (Acts.length (acts_endSession cfg now hnext.present))
      (follows_passive.endSession cfg now hnext.present)
  ping {_ _ _ _ n} h _ hping := (h.consuming n).ping hping
  skip {_ _ _ frame n} h _ hop hclose hping :=
    (h.consuming n).nothing (by rw [arrival?, if_neg (fun hf => hop hf.1), if_neg hping])

theorem Running.processFrames (cfg : ServerConfig) (now : Int) (h : Running cfg.accessKey i frames w) :
    Accounted cfg.accessKey (frames ++ processed cfg now i w) ((w.processFrames cfg now i).1.session i) := by
  have hloop : Running cfg.accessKey i (frames ++ processed cfg now i w)
      (w.frameLoop cfg now i (w.session i).rxAcc.size).1 := (running_round cfg now i).loop h
  rcases processFrames_cases cfg now i w with he | he
  · rw [he]
    exact hloop.accounted
  · have hi := hloop.present
    rw [he, resume, continueReading]
    have hs := session_update hi fun s => { s with rxAcc := s.rxAcc.compactIfNeeded 4096 }
    have hcompact : Accounted cfg.accessKey (frames ++ processed cfg now i w)
        (((w.frameLoop cfg now i (w.session i).rxAcc.size).1.update i
          fun s => { s with rxAcc := s.rxAcc.compactIfNeeded 4096 }).session i) :=
      hs ▸ hloop.accounted.keep rfl List.prefix_rfl rfl rfl rfl rfl
    split
    · exact hcompact
    · rw [session_update (by simpa using hi)]
      exact hcompact.keep rfl List.prefix_rfl rfl rfl rfl rfl

/-! A read. -/

/-- A read that is one packet. -/
theorem accounted_packetThen (cfg : ServerConfig) (now : Int) (hi : i < w.mqtt.length)
    (h : Accounted cfg.accessKey frames (w.session i)) (hsettled : (w.session i).wsHandshakeDone = true)
    (hws : (w.session i).isWebsocket = false) (hne : data ≠ []) {after : MqttSession → MqttSession}
    (hafter : ∀ t, ∃ rxAcc, after t = { t with rxAcc }) :
    Accounted cfg.accessKey frames ((packetThen cfg now i data after w).session i) := by
  obtain ⟨s₁, ha, hf⟩ := answers_processPacket cfg now hi hne
  have hnext : Accounted cfg.accessKey frames ((w.processPacket cfg now i data).1.session i) := by
    have h₁ : Accounted cfg.accessKey (frames ++ []) s₁ := h.answered ha fun hyes => by cases hws.symm.trans hyes
    rw [List.append_nil] at h₁
    exact h₁.follows hf
  have hlen := Trace.length (trace_processPacket cfg now hi hsettled data)
  unfold packetThen
  split
  · rename_i w₁ he
    rwa [he] at hnext
  · rename_i w₁ he
    rw [he] at hnext hlen
    have hi₁ : i < w₁.mqtt.length := hlen.symm ▸ hi
    obtain ⟨rxAcc, hrx⟩ := hafter (w₁.session i)
    have hs₂ : (w₁.update i after).session i = { w₁.session i with rxAcc } := (session_update hi₁ after).trans hrx
    have hkept : Accounted cfg.accessKey frames ((w₁.update i after).session i) :=
      hs₂ ▸ hnext.keep rfl List.prefix_rfl rfl rfl rfl rfl
    unfold continueReading
    split
    · exact hkept
    · rw [session_update (by simpa using hi₁)]
      exact hkept.keep rfl List.prefix_rfl rfl rfl rfl rfl

theorem accounted_buffering (h : Accounted accessKey frames s) (data : Bytes) :
    Accounted accessKey frames (buffering data s) :=
  h.keep rfl ⟨[data], rfl⟩ rfl rfl rfl rfl

/-- The answer to the upgrade request is the first that is written. -/
theorem accounted_acceptHandshake (h : Accounted accessKey [] s) (hws : s.isWebsocket = false) (hnone : s.handled = [])
    (hbuf : s.out.buffers = []) {request key protocol : Bytes} (hr : IsRequest s.received request)
    (hk : parseHandshakeRequest request = some (key, protocol)) (headerEnd : Nat) :
    Accounted accessKey [] (acceptHandshake headerEnd key s) := by
  obtain ⟨arrivals, written, ha, hw⟩ := h
  obtain rfl : written = [] := List.map_eq_nil_iff.mp (hw.buffers.symm.trans hbuf)
  obtain rfl : arrivals = [] := by
    cases ha with
    | plain => rw [hnone, List.map_nil]
    | websocket hyes => cases hws.symm.trans hyes
  have hplain : Accounts accessKey [.upgrade key] { acceptHandshake headerEnd key s with isWebsocket := false }
      [.handshake key] := hw.receive (.upgrade key) hws.symm rfl rfl rfl
  exact ⟨_, [.handshake key], .websocket rfl hr hk, hplain.client, hplain.buffers, hplain.answers, hplain.messages,
    fun _ => ⟨key, rfl⟩⟩

/-- Before the transport is settled no header block is complete. -/
def Waiting (s : MqttSession) : Prop :=
  s.wsHandshakeDone = false → find (ascii "\r\n\r\n") s.received.flatten = none

theorem accounted_read (cfg : ServerConfig) (now : Int) (hi : i < w.mqtt.length)
    (hready : Ready cfg frames (w.session i)) (hwait : Waiting (w.session i))
    (h : Accounted cfg.accessKey frames (w.session i)) (hne : data ≠ []) :
    Accounted cfg.accessKey (frames ++ readFrames cfg now i data w) ((w.onBytesRead cfg now i data).1.session i) := by
  have hcase := onBytesRead_cases cfg now hi data
  have hi₁ : i < (w.update i (buffering data)).mqtt.length := by simpa using hi
  have hs₁ := session_update hi (buffering data)
  have hbuffered : Accounted cfg.accessKey frames ((w.update i (buffering data)).session i) :=
    hs₁ ▸ accounted_buffering h data
  generalize readFrames cfg now i data w = more, (w.onBytesRead cfg now i data).1 = w' at hcase ⊢
  cases hcase with
  | ended _ =>
    rw [List.append_nil]
    exact hbuffered.follows (follows_passive.endSession cfg now hi₁)
  | waiting hd =>
    rw [List.append_nil, session_update hi₁]
    exact hbuffered.keep rfl List.prefix_rfl rfl rfl rfl rfl
  | @upgraded headerEnd key protocol hd _ _ hend hkey =>
    obtain ⟨rfl, hws, hacc, hnone⟩ := hready.unsettled hd
    have hdata : (buffering data (w.session i)).rxAcc.data = ((w.session i).received ++ [data]).flatten := by
      simp [buffering, hacc, StreamAccumulator.append, StreamAccumulator.data]
    have hs₂ : ((w.update i (buffering data)).update i (acceptHandshake headerEnd key)).session i =
        acceptHandshake headerEnd key (buffering data (w.session i)) := by rw [session_update hi₁, hs₁]
    have hrunning : Running cfg.accessKey i []
      ((w.update i (buffering data)).update i (acceptHandshake headerEnd key)) := by
      have hrequest : IsRequest (buffering data (w.session i)).received (buffering data (w.session i)).rxAcc.data :=
        ⟨⟨_, data, List.prefix_rfl, hdata, hwait hd⟩, fun hnone => by cases hnone.symm.trans hend⟩
      refine ⟨by simpa using hi, hs₂ ▸ ⟨rfl, rfl⟩, hs₂ ▸ ?_⟩
      exact accounted_acceptHandshake (accounted_buffering h data) hws hnone (hready.fits.unsettled hd).1
        hrequest hkey headerEnd
    exact hrunning.processFrames cfg now
  | first hd _ _ =>
    obtain ⟨rfl, hws, hacc, -⟩ := hready.unsettled hd
    have hs₂ : ((w.update i (buffering data)).update i settlePlain).session i =
        settlePlain (buffering data (w.session i)) := by rw [session_update hi₁, hs₁]
    have hfull : (buffering data (w.session i)).rxAcc.data ≠ [] := by
      have hdata : (buffering data (w.session i)).rxAcc.data = (w.session i).received.flatten ++ data := by
        simp [buffering, hacc, StreamAccumulator.append, StreamAccumulator.data]
      rw [hdata]
      exact List.append_ne_nil_of_right_ne_nil _ hne
    rw [List.append_nil]
    refine accounted_packetThen cfg now (by simpa using hi) ?_ (hs₂ ▸ rfl) (hs₂ ▸ rfl) hfull fun t => ⟨.empty, rfl⟩
    rw [hs₂]
    exact (accounted_buffering h data).keep hws.symm List.prefix_rfl rfl rfl rfl rfl
  | frames ho _ =>
    have hrunning : Running cfg.accessKey i frames (w.update i (buffering data)) :=
      ⟨hi₁, hs₁ ▸ ⟨ho.settled, ho.websocket⟩, hbuffered⟩
    exact hrunning.processFrames cfg now
  | packet hd hws =>
    have hs₂ := session_update hi (recordRead data)
    rw [List.append_nil]
    refine accounted_packetThen cfg now (by simpa using hi) ?_ (hs₂ ▸ hd) (hs₂ ▸ hws) hne fun t => ⟨t.rxAcc, rfl⟩
    exact hs₂ ▸ h.keep rfl ⟨[data], rfl⟩ rfl rfl rfl rfl

/-! The header block. -/

/-- A session that may still read waits for its header block. -/
def Attentive (s : MqttSession) : Prop := s.tcp.closed = false ∨ s.tcp.reads ≠ [] → Waiting s

theorem Attentive.passes (h : Attentive s) (hp : Passes s s') : Attentive s' := by
  intro hmay
  have hbefore : s.tcp.closed = false ∨ s.tcp.reads ≠ [] := by
    rcases hmay with hopen | hreads
    · refine .inl (Bool.eq_false_iff.mpr fun hc => ?_)
      cases hopen.symm.trans (hp.keeps.input.closed hc)
    · exact .inr fun hnone => hreads (List.suffix_nil.mp (hnone ▸ hp.keeps.reads))
  rw [Waiting, hp.keeps.input.wsHandshakeDone, hp.keeps.input.received]
  exact h hbefore

theorem attentive_of_settled (h : s.wsHandshakeDone = true) : Attentive s := fun _ hd => by cases h.symm.trans hd

theorem settled_firstPacket (cfg : ServerConfig) (now : Int) (hi : i < w.mqtt.length) :
    ((w.firstPacket cfg now i).1.session i).wsHandshakeDone = true := by
  obtain ⟨w₁, hw₁⟩ : ∃ x, w.update i (fun s => { s with wsHandshakeDone := true, isWebsocket := false }) = x := ⟨_, rfl⟩
  have hi₁ : i < w₁.mqtt.length := by rwa [← hw₁, length_update]
  have hs₁ : (w₁.session i).wsHandshakeDone = true := by rw [← hw₁, session_update hi]
  have ht := trace_processPacket cfg now hi₁ hs₁ (w₁.session i).rxAcc.data
  unfold firstPacket
  dsimp only
  rw [hw₁]
  split
  · rename_i w₂ he
    rw [he] at ht
    exact (settled_trace hi₁ ht hs₁).1
  · rename_i w₂ he
    rw [he] at ht
    have hrest : Trace cfg now i w₁ ((w₂.update i fun s => { s with rxAcc := .empty }).continueReading i) :=
      ht.trans ((trace_input (input_same ⟨_, _, _, _, rfl⟩)).trans (trace_continueReading _))
    exact (settled_trace hi₁ hrest hs₁).1

theorem attentive_endSession (cfg : ServerConfig) (now : Int) (hi : i < w.mqtt.length)
    (hidle : (w.session i).tcp.reads = []) : Attentive ((w.endSession cfg now i).1.session i) := by
  rintro (hopen | hreads)
  · cases hopen.symm.trans (closed_endSession hi)
  · exact absurd (List.suffix_nil.mp (hidle ▸ (passes_endSession cfg now hi).keeps.reads)) hreads

/-- Once the header block is complete, the request is accepted or the session ends. -/
theorem attentive_read (cfg : ServerConfig) (now : Int) (hi : i < w.mqtt.length)
    (hready : Ready cfg frames (w.session i))
    (data : Bytes) : Attentive ((w.onBytesRead cfg now i data).1.session i) := by
  by_cases hd : (w.session i).wsHandshakeDone = true
  · exact attentive_of_settled (settled_trace hi (trace_onBytesRead cfg now hi data) hd).1
  · have hd : (w.session i).wsHandshakeDone = false := eq_false_of_ne_true hd
    obtain ⟨-, -, hacc, -⟩ := hready.unsettled hd
    have hi₁ : i < (w.update i (buffering data)).mqtt.length := by simpa using hi
    have hs₁ := session_update hi (buffering data)
    have hidle : ((w.update i (buffering data)).session i).tcp.reads = [] := hs₁ ▸ hready.idle
    have hd' : ((w.session i).recordRead data).wsHandshakeDone = false := hd
    unfold onBytesRead buffered
    dsimp only
    rw [session_update hi, buffered_eq hi, hs₁, hd', Bool.not_false, if_pos rfl]
    split
    · exact attentive_endSession cfg now hi₁ hidle
    · unfold detectTransport
      dsimp only
      rw [hs₁]
      split
      · split
        · rename_i hnone
          rw [session_update hi₁, hs₁]
          intro _ _
          have hdata : (buffering data (w.session i)).rxAcc.data = ((w.session i).received ++ [data]).flatten := by
            simp [buffering, hacc, StreamAccumulator.append, StreamAccumulator.data]
          exact hdata ▸ hnone
        · split
          · rename_i headerEnd _ _ key _ _
            have hi₂ : i < ((w.update i (buffering data)).update i (acceptHandshake headerEnd key)).mqtt.length := by
              simpa using hi
            have ho : OnWebsocket
              (((w.update i (buffering data)).update i (acceptHandshake headerEnd key)).session i) := by
              rw [session_update hi₁]
              exact ⟨rfl, rfl⟩
            exact attentive_of_settled (settled_trace hi₂ (trace_processFrames hi₂ ho) ho.settled).1
          · exact attentive_endSession cfg now hi₁ hidle
      · exact attentive_of_settled (settled_firstPacket cfg now hi₁)

/-! Runs. -/

/-- What holds of every state, as far as the writes are concerned. -/
structure Settled (cfg : ServerConfig) (x : Watched) : Prop where
  sound : Sound cfg x
  attentive : All (fun _ => Attentive) x.world
  accounted : All (fun i s => Accounted cfg.accessKey (x.frames i) s) x.world

/-- A read of the session itself. -/
theorem accounted_onMqtt_read (hi : i < w.mqtt.length) (hk : Kept cfg.accessKey frames (w.session i))
    (hstage : Stage cfg.maxSessionBufferBytes (w.session i)) (hfits : Wire.Fits (w.session i))
    (hattentive : Attentive (w.session i)) (ha : Accounted cfg.accessKey frames (w.session i))
    (h : step cfg w (.mqtt now i (.read data)) = some w') :
    Accounted cfg.accessKey (frames ++ stepFrames cfg i w (.mqtt now i (.read data))) (w'.session i) ∧
      Attentive (w'.session i) := by
  rw [step, session_eq hi] at h
  have h : w.onMqtt cfg now i (w.session i) (.read data) = some w' := h
  cases onMqtt_cases h with
  | read hopen hne _ =>
    have hs := session_update hi readDone
    have hi' : i < (w.update i readDone).mqtt.length := by simpa using hi
    have hready : Ready cfg frames ((w.update i readDone).session i) := hs ▸ hk.ready hopen hstage hfits
    have hwait : Waiting (w.session i) := hattentive (.inr fun hnone => absurd hopen (hnone ▸ List.not_mem_nil))
    rw [stepFrames, if_pos rfl]
    refine ⟨accounted_read cfg now hi' hready ?_ ?_ hne, attentive_read cfg now hi' hready data⟩
    · exact hs ▸ hwait
    · exact hs ▸ ha.keep rfl List.prefix_rfl rfl rfl rfl rfl

theorem accounted_accepted (accessKey : Bytes) (server : Nat) (remote : Option Address) (again : Bool) :
    Accounted accessKey [] (accepted server remote again) := ⟨[], [], .plain rfl, rfl, rfl, rfl, rfl, nofun⟩

theorem attentive_accepted (server : Nat) (remote : Option Address) (again : Bool) :
    Attentive (accepted server remote again) := fun _ _ => rfl

theorem settled_step {x y : Watched} {e : World.Event} (h : Settled cfg x) (hs : (watch cfg).step x e = some y) :
    Settled cfg y := by
  have hsound := sound_step h.sound hs
  obtain ⟨w, hw, rfl⟩ := Option.map_eq_some_iff.mp hs
  have old {i : Nat} (hi : i < x.world.mqtt.length) :
      Accounted cfg.accessKey (x.frames i ++ stepFrames cfg i x.world e) (w.session i) ∧ Attentive (w.session i) := by
    have hkept := h.sound.kept.session hi
    by_cases he : ∃ now data, e = .mqtt now i (.read data)
    · obtain ⟨now, data, rfl⟩ := he
      exact accounted_onMqtt_read hi hkept (h.sound.stages.session hi) (h.sound.fits.session hi)
        (h.attentive.session hi) (h.accounted.session hi) hw
    · have he : ∀ now data, e ≠ .mqtt now i (.read data) := fun now data hd => he ⟨now, data, hd⟩
      rw [stepFrames_of_not_read he, List.append_nil]
      exact ⟨(h.accounted.session hi).follows (follows_step hi he hw),
        (h.attentive.session hi).passes (passes_step hi he hkept.standing.only hw)⟩
  have all (j : Nat) (s : MqttSession) (hj : w.mqtt[j]? = some s) :
      Accounted cfg.accessKey (x.frames j ++ stepFrames cfg j x.world e) s ∧ Attentive s := by
    rcases sessions_step hw with hlen | ⟨server, remote, again, hm⟩
    · obtain ⟨rfl, hlt⟩ := session_of_get hj
      exact old (hlen ▸ hlt)
    · rcases getElem?_snoc (hm ▸ hj) with hold | ⟨rfl, rfl⟩
      · rw [← (session_of_get hj).1]
        exact old (session_of_get hold).2
      · -- a new session has taken no frames
        have hnone : x.frames x.world.mqtt.length ++ stepFrames cfg x.world.mqtt.length x.world e = [] :=
          (hsound.kept _ _ hj).plain rfl
        rw [hnone]
        exact ⟨accounted_accepted cfg.accessKey server remote again, attentive_accepted server remote again⟩
  exact ⟨hsound, fun j s hj => (all j s hj).2, fun j s hj => (all j s hj).1⟩

theorem settled_run {es : List World.Event} {x : Watched} (h : (watch cfg).Reaches (watched cfg) es x) :
    Settled cfg x :=
  h.invariant (Settled cfg) ⟨sound_run (P := fun _ _ => True) .start, all_init _ cfg, all_init _ cfg⟩
    fun _ _ _ hm _ hs => settled_step hm hs

/-! What a client is told. -/

def Arrival.packet? : Arrival → Option Bytes
  | .packet data => some data
  | .upgrade _ | .ping _ => none

theorem packets_eq_arrivals (frames : List WsFrame) :
    (frames.filterMap arrival?).filterMap Arrival.packet? = packets frames := by
  induction frames with
  | nil => rfl
  | cons frame frames ih =>
    rw [packets] at ih ⊢
    by_cases hp : (frame.opcode = 0x01 ∨ frame.opcode = 0x02) ∧ frame.payload ≠ []
    · have ha : arrival? frame = some (.packet frame.payload) := if_pos hp
      have hdata : Arrival.packet? (.packet frame.payload) = some frame.payload := rfl
      rw [List.filterMap_cons_some ha, List.filterMap_cons_some hdata, ih,
        List.filter_cons_of_pos (by simpa using hp), List.map_cons]
    · rw [List.filter_cons_of_neg (by simpa using hp)]
      by_cases hping : frame.opcode = 0x09
      · have ha : arrival? frame = some (.ping frame.payload) := by rw [arrival?, if_neg hp, if_pos hping]
        rw [List.filterMap_cons_some ha, List.filterMap_cons_none rfl, ih]
      · have ha : arrival? frame = none := by rw [arrival?, if_neg hp, if_neg hping]
        rw [List.filterMap_cons_none ha, ih]

theorem Arrived.packets (h : Arrived frames s arrivals) (hp : s.isWebsocket = true → Peeled frames s) :
    arrivals.filterMap Arrival.packet? = s.handled := by
  cases h with
  | plain =>
    rw [List.filterMap_map]
    exact List.filterMap_some
  | websocket hws =>
    rw [List.filterMap_cons_none rfl, packets_eq_arrivals, (hp hws).handled]

theorem accounts_run {es : List World.Event} (hrun : (machine cfg).Reaches (init cfg) es w) (hs : w.mqtt[i]? = some s) :
    ∃ frames arrivals written, (s.isWebsocket = true → Peeled frames s) ∧ Arrived frames s arrivals ∧
      Accounts cfg.accessKey arrivals s written := by
  obtain ⟨frames, hwatched⟩ := watched_of_run hrun
  have hsettled := settled_run hwatched
  obtain ⟨arrivals, written, harrived, haccounts⟩ := hsettled.accounted i s hs
  exact ⟨frames i, arrivals, written, (hsettled.sound.kept i s hs).peeled, harrived, haccounts⟩

/-- **What a session writes is an interleaving of two streams: the messages broadcast to it, in their order, and
the answers of the machine to what has arrived: the packets it has handled, and on a WebSocket the upgrade request
before them and the pings between them. What it knows of its client is the state of that machine.** -/
theorem session_writes_account (cfg : ServerConfig) {es : List World.Event}
    (hrun : (machine cfg).Reaches (init cfg) es w) (hs : w.mqtt[i]? = some s) :
    ∃ frames arrivals written, (s.isWebsocket = true → Peeled frames s) ∧ Arrived frames s arrivals ∧
      arrivals.filterMap Arrival.packet? = s.handled ∧ Accounts cfg.accessKey arrivals s written := by
  obtain ⟨frames, arrivals, written, hpeeled, harrived, haccounts⟩ := accounts_run hrun hs
  exact ⟨frames, arrivals, written, hpeeled, harrived, harrived.packets hpeeled, haccounts⟩

/-- A PINGREQ in a masked frame, and a ping. -/
private def twoPings : Bytes := clientFrame [0xC0, 0x00] ++ [0x89, 0x80, 1, 2, 3, 4]

private def pinging : List World.Event := clientSends [upgradeRequest ++ twoPings]

private def pinged : World := ((machine oneListener).exec (init oneListener) pinging).getD (init oneListener)

/-- An upgrade, a PINGREQ and a ping, in one read. -/
theorem pings_account : ∃ frames arrivals written,
    ((pinged.session 0).isWebsocket = true → Peeled frames (pinged.session 0)) ∧
      Arrived frames (pinged.session 0) arrivals ∧
      arrivals.filterMap Arrival.packet? = (pinged.session 0).handled ∧
      Accounts oneListener.accessKey arrivals (pinged.session 0) written :=
  session_writes_account oneListener ((machine oneListener).reaches_exec (by decide +kernel))
    (session_eq (by decide +kernel))

/-! The same reads. -/

/-- The packets of a session that stays plain, or has not settled its transport. -/
def plainPackets (reads : List Bytes) : List Bytes :=
  if ∃ first ∈ reads.head?, isHandshake first = true then [] else reads

/-- A complete header block stays complete. -/
theorem find_of_start {before reads : List Bytes} (hp : before <+: reads)
    (hc : find (ascii "\r\n\r\n") before.flatten ≠ none) : find (ascii "\r\n\r\n") reads.flatten ≠ none := by
  obtain ⟨more, rfl⟩ := hp
  obtain ⟨n, hn⟩ := Option.ne_none_iff_exists'.mp hc
  rw [List.flatten_append, find_append _ hn]
  exact nofun

/-- Two requests at the front of the same reads are one. -/
theorem IsRequest.unique {reads : List Bytes} {request request' : Bytes} (h : IsRequest reads request)
    (h' : IsRequest reads request') : request = request' := by
  obtain ⟨⟨before, data, hp, rfl, hnone⟩, hc⟩ := h
  obtain ⟨⟨before', data', hp', rfl, hnone'⟩, hc'⟩ := h'
  have hlen : before.length = before'.length := by
    rcases Nat.lt_trichotomy before.length before'.length with hlt | heq | hlt
    · -- the shorter one would already have been complete
      have hin : before ++ [data] <+: before' :=
        List.prefix_of_prefix_length_le hp ((List.prefix_append _ _).trans hp') (by rw [List.length_append]; exact hlt)
      exact absurd hnone' (find_of_start hin hc)
    · exact heq
    · have hin : before' ++ [data'] <+: before :=
        List.prefix_of_prefix_length_le hp' ((List.prefix_append _ _).trans hp) (by rw [List.length_append]; exact hlt)
      exact absurd hnone (find_of_start hin hc')
  have hin : before ++ [data] <+: before' ++ [data'] :=
    List.prefix_of_prefix_length_le hp hp' (by rw [List.length_append, List.length_append, hlen]; rfl)
  rw [hin.eq_of_length (by rw [List.length_append, List.length_append, hlen]; rfl)]

/-- The transport of an open session is that which its reads ask for. -/
inductive OpenCase (s : MqttSession) : Prop
  | websocket {stream : Bytes} : s.isWebsocket = true → Asks s → frameStream s.received.flatten = some stream →
    OpenCase s
  | other : s.isWebsocket = false → s.handled = plainPackets s.received →
      (Asks s → frameStream s.received.flatten = none) → OpenCase s

theorem openCase {cap : Nat} (hopen : s.tcp.closed = false) (hstage : Stage cap s) (ha : Attentive s) : OpenCase s := by
  cases hstage with
  | undecided hd hws _ hh hr =>
    have hnone : frameStream s.received.flatten = none := by rw [frameStream, ha (.inl hopen) hd, Option.map_none]
    refine .other hws ?_ fun _ => hnone
    rcases hr with hr | hask | ⟨-, hclosed⟩
    · rw [hh, hr]
      rfl
    · have hnil : plainPackets s.received = [] := if_pos hask
      rw [hh, hnil]
    · cases hopen.symm.trans hclosed
  | plain hp =>
    obtain ⟨first, hf, hno⟩ := hp.first
    have hnot : ¬ Asks s := by
      rintro ⟨first', hf', hyes⟩
      obtain rfl : first = first' := Option.some.inj (hf.symm.trans hf')
      cases hno.symm.trans hyes
    have hall : plainPackets s.received = s.received := if_neg hnot
    exact .other hp.plain (hp.handled.trans hall.symm) fun hask => absurd hask hnot
  | websocket ho hask hcut _ => exact .websocket ho.websocket hask hcut.received

theorem Arrived.eq {t : MqttSession} {arrivals' : List Arrival} (h : Arrived frames s arrivals)
    (h' : Arrived frames t arrivals') (hws : s.isWebsocket = t.isWebsocket) (hh : s.handled = t.handled)
    (hr : s.received = t.received) : arrivals = arrivals' := by
  cases h with
  | plain hno =>
    cases h' with
    | plain => rw [hh]
    | websocket hyes => cases hno.symm.trans (hws.trans hyes)
  | websocket hyes hrequest hk =>
    cases h' with
    | plain hno => cases hno.symm.trans (hws.symm.trans hyes)
    | websocket _ hrequest' hk' =>
      obtain rfl := hrequest.unique (hr ▸ hrequest')
      obtain ⟨rfl, -⟩ := Prod.mk.inj (Option.some.inj (hk.symm.trans hk'))
      rfl

/-- **What a client is told of its own packets depends on its reads alone: two open sessions, in two runs of the
server, that have received the same reads are on the same transport, have handled the same packets, know the same of
their clients, and have written the same answers in the same order. What other clients, the HTTP listener or a sweep
do decides only on the messages in between.** -/
theorem answers_of_reads (cfg : ServerConfig) {es es' : List World.Event} {v w : World}
    (hv : (machine cfg).Reaches (init cfg) es v) (hw : (machine cfg).Reaches (init cfg) es' w) {i j : Nat}
    {s t : MqttSession} (hs : v.mqtt[i]? = some s) (ht : w.mqtt[j]? = some t) (hopens : s.tcp.closed = false)
    (hopent : t.tcp.closed = false) (hreads : s.received = t.received) :
    s.isWebsocket = t.isWebsocket ∧ s.handled = t.handled ∧ Client.of s = Client.of t ∧
      ∃ arrivals ws wt, Accounts cfg.accessKey arrivals s ws ∧ Accounts cfg.accessKey arrivals t wt ∧
        ws.filter Written.isAnswer = wt.filter Written.isAnswer := by
  obtain ⟨framesv, hrunv⟩ := watched_of_run hv
  obtain ⟨framesw, hrunw⟩ := watched_of_run hw
  have hsv := settled_run hrunv
  have hsw := settled_run hrunw
  have hcases := openCase hopens (hsv.sound.stages i s hs) (hsv.attentive i s hs)
  have hcaset := openCase hopent (hsw.sound.stages j t ht) (hsw.attentive j t ht)
  have hask : Asks s ↔ Asks t := by rw [Asks, Asks, hreads]
  have hsame : s.isWebsocket = t.isWebsocket ∧ s.handled = t.handled ∧ framesv i = framesw j := by
    cases hcases with
    | websocket hwss hasks hstreams =>
      cases hcaset with
      | websocket hwst _ _ =>
        have hks : Kept cfg.accessKey (framesv i) s := hsv.sound.kept i s hs
        have hkt : Kept cfg.accessKey (framesw j) t := hsw.sound.kept j t ht
        obtain ⟨hf, hh, -⟩ := FrameDivision.same_frames hks hkt (hsv.sound.stages i s hs) (hsw.sound.stages j t ht)
          hwss hwst hopens hopent hstreams (hreads ▸ hstreams)
        exact ⟨hwss.trans hwst.symm, hh, hf⟩
      | other _ _ hnone => cases (hnone (hask.mp hasks)).symm.trans (hreads ▸ hstreams)
    | other hnos hhs hnone =>
      cases hcaset with
      | websocket _ haskt hstreamt => cases (hnone (hask.mpr haskt)).symm.trans (hreads ▸ hstreamt)
      | other hnot hht _ =>
        have hnonev : framesv i = [] := (hsv.sound.kept i s hs).plain hnos
        have hnonew : framesw j = [] := (hsw.sound.kept j t ht).plain hnot
        exact ⟨hnos.trans hnot.symm, by rw [hhs, hht, hreads], hnonev.trans hnonew.symm⟩
  obtain ⟨hws, hh, hf⟩ := hsame
  obtain ⟨arrivals, written, harrived, haccounts⟩ := hsv.accounted i s hs
  obtain ⟨arrivals', written', harrived', haccounts'⟩ := hsw.accounted j t ht
  have hfrom : Arrived (framesv i) t arrivals' := by
    rw [hf]
    exact harrived'
  obtain rfl : arrivals = arrivals' := harrived.eq hfrom hws hh hreads
  exact ⟨hws, hh, haccounts.client.trans haccounts'.client.symm, arrivals, written, written', haccounts, haccounts',
    haccounts.answers.trans haccounts'.answers.symm⟩

/-- `x` on the topic `a` -/
private def publishPacket : Bytes := [0x30, 0x04, 0x00, 0x01, 0x61, 0x78]

private def alone : List World.Event := clientSends [connectPacket, subscribePacket (ascii "#")]

private def inCompany : List World.Event :=
  [.acceptMqtt 0 0 none false, .mqtt 0 0 (.read connectPacket), .acceptMqtt 0 0 none false,
    .mqtt 0 0 (.read (subscribePacket (ascii "#"))), .mqtt 0 1 (.read connectPacket), .mqtt 0 1 (.read publishPacket)]

private def ended (es : List World.Event) : World :=
    ((machine oneListener).exec (init oneListener) es).getD (init oneListener)

private theorem reaches_ended {es : List World.Event}
    (h : ((machine oneListener).exec (init oneListener) es).isSome = true) :
    (machine oneListener).Reaches (init oneListener) es (ended es) := (machine oneListener).reaches_exec h

private theorem both_open : ((ended alone).session 0).tcp.closed = false ∧
    ((ended inCompany).session 0).tcp.closed = false ∧
    ((ended alone).session 0).received = ((ended inCompany).session 0).received ∧
    0 < (ended alone).mqtt.length ∧ 0 < (ended inCompany).mqtt.length := by decide +kernel

/-- A subscriber is told the same whether or not another client publishes. -/
theorem alone_and_in_company : Client.of ((ended alone).session 0) = Client.of ((ended inCompany).session 0) := by
  obtain ⟨hopens, hopent, hreads, hi, hj⟩ := both_open
  have halone : (machine oneListener).Reaches (init oneListener) alone (ended alone) :=
    reaches_ended (by decide +kernel)
  have hcompany : (machine oneListener).Reaches (init oneListener) inCompany (ended inCompany) :=
    reaches_ended (by decide +kernel)
  exact (answers_of_reads oneListener halone hcompany (session_eq hi) (session_eq hj) hopens hopent hreads).2.2.1

end LightApr.Server.Replies
