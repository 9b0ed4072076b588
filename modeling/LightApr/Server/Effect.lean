import LightApr.Core.RegistryEffect
import LightApr.Server.World
import Mathlib.Logic.Relation

/-! What the handlers of one session can do to the world, act by act. -/
namespace LightApr.Server
open LightApr.Core Lib Mqtt MqttSession World

/-! A broadcast as each session sees it. -/

/-- Messages of a listener, topic and payload, as a session receives them one after the other. -/
def deliverAll (msgs : List (Nat × Bytes × Bytes)) (s : MqttSession) : MqttSession :=
  msgs.foldl (fun s m => s.deliver m.1 m.2.1 m.2.2) s

private theorem deliver_same (server : Nat) (topic payload : Bytes) (s : MqttSession) :
    ∃ out writes broadcasts, s.deliver server topic payload = { s with out, writes, broadcasts } := by
  unfold deliver
  split
  · exact ⟨_, _, _, rfl⟩
  · exact ⟨_, _, _, rfl⟩

/-- A delivery changes nothing but the writes. -/
theorem deliverAll_same (msgs : List (Nat × Bytes × Bytes)) (s : MqttSession) :
    ∃ out writes broadcasts, deliverAll msgs s = { s with out, writes, broadcasts } := by
  induction msgs generalizing s with
  | nil => exact ⟨_, _, _, rfl⟩
  | cons m msgs ih =>
    obtain ⟨o, wr, b, h⟩ := deliver_same m.1 m.2.1 m.2.2 s
    obtain ⟨o', wr', b', h'⟩ := ih (s.deliver m.1 m.2.1 m.2.2)
    refine ⟨o', wr', b', ?_⟩
    rw [deliverAll, List.foldl_cons, ← deliverAll, h', h]

/-- A session without subscriptions receives nothing. -/
theorem deliverAll_unsubscribed {s : MqttSession} (h : s.subscriptions = []) (msgs : List (Nat × Bytes × Bytes)) :
    deliverAll msgs s = s := by
  induction msgs with
  | nil => rfl
  | cons m msgs ih =>
    have hd : s.deliver m.1 m.2.1 m.2.2 = s := by simp [deliver, matchesTopic, h]
    rw [deliverAll, List.foldl_cons, hd]
    exact ih

namespace World

variable {cfg : ServerConfig} {now : Int} {i j : Nat} {w w' : World}

theorem session_eq (h : i < w.mqtt.length) : w.mqtt[i]? = some (w.session i) := by
  simp [session, h]

theorem session_of_get {s : MqttSession} (h : w.mqtt[i]? = some s) : w.session i = s ∧ i < w.mqtt.length := by
  obtain ⟨hi, he⟩ := List.getElem?_eq_some_iff.mp h
  exact ⟨by simp [session, h], hi⟩

@[simp] theorem length_update (i : Nat) (f : MqttSession → MqttSession) (w : World) :
    (w.update i f).mqtt.length = w.mqtt.length := List.length_set

@[simp] theorem shared_update (i : Nat) (f : MqttSession → MqttSession) (w : World) :
    (w.update i f).shared = w.shared := rfl

@[simp] theorem http_update (i : Nat) (f : MqttSession → MqttSession) (w : World) :
    (w.update i f).http = w.http := rfl

@[simp] theorem session_update (h : i < w.mqtt.length) (f : MqttSession → MqttSession) :
    (w.update i f).session i = f (w.session i) := by
  simp [update, setSession, session, h]

theorem update_update (h : i < w.mqtt.length) (f g : MqttSession → MqttSession) :
    (w.update i f).update i g = w.update i fun s => g (f s) := by
  rw [update, session_update h, update, update, setSession, setSession, List.set_set]
  rfl

theorem get_setSession (s : MqttSession) (h : i < w.mqtt.length) (j : Nat) :
    (w.setSession i s).mqtt[j]? = if i = j then some s else w.mqtt[j]? := by
  rw [setSession, List.getElem?_set]
  simp [h]

/-- A session that there was, after another state is stored for session `i`. -/
theorem get_set_session (i : Nat) (s : MqttSession) {j : Nat} {t : MqttSession} (h : w.mqtt[j]? = some t) :
    (j = i ∧ w.session i = t ∧ (w.mqtt.set i s)[j]? = some s) ∨ (j ≠ i ∧ (w.mqtt.set i s)[j]? = some t) := by
  by_cases hj : j = i
  · subst hj
    obtain ⟨ht, hlt⟩ := session_of_get h
    exact .inl ⟨rfl, ht, List.getElem?_set_self hlt⟩
  · exact .inr ⟨hj, (List.getElem?_set_ne (Ne.symm hj)).trans h⟩

theorem set_session_self (w : World) (i : Nat) : w.mqtt.set i (w.session i) = w.mqtt := by
  by_cases h : i < w.mqtt.length
  · simp [session, h]
  · exact List.set_eq_of_length_le (Nat.le_of_not_lt h)

/-- The observers and the registry result aside, an announcement only delivers messages. -/
structure Announced (w w' : World) (registry : Registry) (msgs : List (Nat × Bytes × Bytes)) : Prop where
  mqtt : w'.mqtt = w.mqtt.map (deliverAll msgs)
  shared : w'.shared = { w.shared with registry }
  http : w'.http = w.http

theorem announced_nil (w : World) (registry : Registry) : w.Announced (w.setRegistry registry) registry [] :=
  ⟨(List.map_id w.mqtt).symm, rfl, rfl⟩

/-- What the callbacks broadcast about a record: nothing when it cannot be printed. -/
def nodeMessages (cfg : ServerConfig) (node : NodeInfo) (observers : List (Nat × Nat)) : List (Nat × Bytes × Bytes) :=
  match cfg.registry.json.dump node.toJson with
  | some text => observers.map fun observer => (observer.2, ascii "apr/" ++ node.role, text)
  | none => []

/-- What a mutation makes the callbacks broadcast. -/
def eventMessages (cfg : ServerConfig) (result : Registry × Outcome) : List (Nat × Bytes × Bytes) :=
  match result.2 with
  | .event node => nodeMessages cfg node result.1.eventCbs
  | .refused | .threw => []

theorem notify_effect {node : NodeInfo} {observers : List (Nat × Nat)} {flow : Flow}
    (h : w.notify cfg node observers = (w', flow)) :
    w.Announced w' w.shared.registry (nodeMessages cfg node observers) ∧
      (node.toJson.utf8 = true → flow = .done) := by
  induction observers generalizing w with
  | nil =>
    obtain ⟨rfl, rfl⟩ := Prod.mk.inj h
    refine ⟨?_, fun _ => rfl⟩
    have hnil : nodeMessages cfg node [] = [] := by
      unfold nodeMessages
      split <;> rfl
    rw [hnil]
    exact announced_nil w _
  | cons o rest ih =>
    obtain ⟨token, server⟩ := o
    rw [notify] at h
    cases hd : cfg.registry.json.dump node.toJson with
    | none =>
      rw [hd] at h
      obtain ⟨rfl, rfl⟩ := Prod.mk.inj h
      rw [nodeMessages, hd]
      refine ⟨announced_nil w _, fun hu => ?_⟩
      obtain ⟨text, ht⟩ := cfg.registry.json.dump_of_utf8 hu
      exact nomatch hd.symm.trans ht
    | some text =>
      rw [hd] at h
      obtain ⟨hm, hflow⟩ := ih h
      rw [nodeMessages, hd] at hm ⊢
      refine ⟨⟨?_, hm.shared, hm.http⟩, hflow⟩
      rw [hm.mqtt, broadcast, List.map_map]
      rfl

/-- A mutation installs its registry and announces; it ends with an exception when the
mutation itself does, or when the record it announces cannot be printed. -/
theorem mutate_effect {result : Registry × Outcome} {flow : Flow} (h : w.mutate cfg result = (w', flow)) :
    w.Announced w' result.1 (eventMessages cfg result) ∧
      (flow = .threw → result.2 = .threw ∨ ∃ node, result.2 = .event node ∧ node.toJson.utf8 = false) := by
  obtain ⟨registry, out⟩ := result
  unfold mutate at h
  dsimp only at h
  cases out with
  | refused =>
    obtain ⟨rfl, rfl⟩ := Prod.mk.inj h
    exact ⟨announced_nil w _, nofun⟩
  | threw =>
    obtain ⟨rfl, rfl⟩ := Prod.mk.inj h
    exact ⟨announced_nil w _, fun _ => .inl rfl⟩
  | event node =>
    obtain ⟨hm, hflow⟩ := notify_effect h
    refine ⟨⟨hm.mqtt, hm.shared, hm.http⟩, fun ht => .inr ⟨node, rfl, ?_⟩⟩
    cases hu : node.toJson.utf8 with
    | false => rfl
    | true => exact nomatch (hflow hu).symm.trans ht

end World

/-! What goes out. -/

inductive IsPacket : Bytes → Prop
  | connack (returnCode : UInt8) : IsPacket (Packet.encodeConnack returnCode)
  | puback (packetId : Nat) : IsPacket (Packet.encodePuback packetId)
  | suback (packetId : Nat) (returnCodes : Bytes) : IsPacket (Packet.encodeSuback packetId returnCodes)
  | pingresp : IsPacket Packet.encodePingresp
  | publish (topic payload : Bytes) : IsPacket (Packet.encodePublish topic payload 0 0)

/-- What a session of the transport writes at a time: a whole packet, or on a WebSocket
(`true`) a whole frame or the upgrade response. -/
inductive IsUnit : Bool → Bytes → Prop
  | packet {data : Bytes} : IsPacket data → IsUnit false data
  | frame (payload : Bytes) (opcode : UInt8) : IsUnit true (WebsocketCodec.encodeFrame payload opcode)
  | handshake (acceptKey : Bytes) :
      IsUnit true (WebsocketCodec.generateHandshakeResponse acceptKey (ascii "mqtt"))

theorem isUnit_framed (s : MqttSession) {data : Bytes} (h : IsPacket data) :
    IsUnit s.isWebsocket (s.framed data) := by
  unfold framed
  cases s.isWebsocket with
  | false => exact .packet h
  | true => exact .frame _ _

/-- What a session sends of itself: the answer to a packet, a pong, or the upgrade
response. No PUBLISH is among them. -/
inductive IsAnswer : Bytes → Prop
  | connack (returnCode : UInt8) : IsAnswer (Packet.encodeConnack returnCode)
  | puback (packetId : Nat) : IsAnswer (Packet.encodePuback packetId)
  | suback (packetId : Nat) (returnCodes : Bytes) : IsAnswer (Packet.encodeSuback packetId returnCodes)
  | pingresp : IsAnswer Packet.encodePingresp

theorem IsAnswer.isPacket {data : Bytes} (h : IsAnswer data) : IsPacket data := by
  cases h with
  | connack => exact .connack _
  | puback => exact .puback _
  | suback => exact .suback _ _
  | pingresp => exact .pingresp

inductive IsReply : Bool → Bytes → Prop
  | packet {data : Bytes} : IsAnswer data → IsReply false data
  | frame {data : Bytes} : IsAnswer data → IsReply true (WebsocketCodec.encodeFrame data 0x02)
  | pong (payload : Bytes) : IsReply true (WebsocketCodec.encodeFrame payload 0x0A)
  | handshake (acceptKey : Bytes) :
      IsReply true (WebsocketCodec.generateHandshakeResponse acceptKey (ascii "mqtt"))

theorem IsReply.isUnit {isWebsocket : Bool} {buf : Bytes} (h : IsReply isWebsocket buf) : IsUnit isWebsocket buf := by
  cases h with
  | packet h => exact .packet h.isPacket
  | frame => exact .frame _ _
  | pong => exact .frame _ _
  | handshake => exact .handshake _

theorem isReply_framed (s : MqttSession) {data : Bytes} (h : IsAnswer data) :
    IsReply s.isWebsocket (s.framed data) := by
  unfold framed
  cases s.isWebsocket with
  | false => exact .packet h
  | true => exact .frame h

/-! The acts of a handler. -/

/-- The packet is a CONNECT that decodes and carries the password for its user name. -/
def GrantsAccess (accessKey data : Bytes) : Prop :=
  data.headD 0 &&& 0xF0 = Packet.connect ∧ ∃ conn, Packet.decodeConnect data = some conn ∧
    conn.password = expectedPassword accessKey conn.username

/-- What a handler does to its own session alone. -/
inductive Own (cfg : ServerConfig) : MqttSession → MqttSession → Prop
  | write {s : MqttSession} (buf : Bytes) (kind : WriteKind) : s.wsHandshakeDone = true →
      IsReply s.isWebsocket buf → Own cfg s (s.asyncWrite buf kind)
  | startClosing {s : MqttSession} : Own cfg s { s with closing := true }
  | identify {s : MqttSession} (clientId username : Bytes) : Own cfg s { s with clientId, username }
  | authenticate {s : MqttSession} {data : Bytes} (username : Bytes) : data ∈ s.handled →
      GrantsAccess cfg.accessKey data ∨ cfg.accessKey = [] →
      Own cfg s { s with role := roleOf username, authenticated := true }
  | subscribe {s : MqttSession} (topics : List Bytes) : s.wsHandshakeDone = true → s.authenticated = true →
      Own cfg s { s with subscriptions := s.subscriptions ++ topics }
  | unlist {s : MqttSession} : Own cfg s s.unlist

/-- What the receive path does to its own session apart from handling packets. The
transport is settled once, and reads are never forgotten. -/
def Input (s s' : MqttSession) : Prop :=
  ∃ reads waits rxAcc isWebsocket wsHandshakeDone writes received,
    s' = { s with tcp := { s.tcp with reads, waits }, rxAcc, isWebsocket, wsHandshakeDone, writes, received } ∧
      (s.wsHandshakeDone = true → isWebsocket = s.isWebsocket ∧ wsHandshakeDone = true) ∧
      List.IsPrefix s.received received

/-- Session `i` becomes `s`, then `msgs` are delivered to everyone. -/
structure Effect (w w' : World) (i : Nat) (s : MqttSession) (msgs : List (Nat × Bytes × Bytes))
    (shared : Shared) : Prop where
  mqtt : w'.mqtt = (w.mqtt.set i s).map (deliverAll msgs)
  http : w'.http = w.http
  shared : w'.shared = shared

/-- The registration that a metadata publish of session `s` runs. -/
def registration (cfg : ServerConfig) (now : Int) (s : MqttSession) (m : NodeMeta) (r : Registry) :
    Registry × Outcome :=
  r.registerOrUpdateNode cfg.registry now m.role m.workers m.endpoint s.tcp.peerIp s.nodeId m.extra

/-- The session learns the id of its node, unless an exception comes first. -/
def Learns (s : MqttSession) (out : Outcome) (nodeId : Bytes) : Prop :=
  (∃ node, out = .event node ∧ nodeId = node.id) ∨
    (nodeId = s.nodeId ∧ (out = .threw ∨ ∃ node, out = .event node ∧ node.toJson.utf8 = false))

/-- The session passes on a PUBLISH it has received, outside the reserved name space. -/
structure Relays (s : MqttSession) (msgs : List (Nat × Bytes × Bytes)) : Prop where
  authenticated : s.authenticated = true
  packet : ∃ data ∈ s.handled, ∃ pub, Packet.decodePublish data = some pub ∧ isReserved pub.topic = false ∧
    msgs = [(s.server, pub.topic, pub.payload)]

/-- One act of a handler of session `i`. -/
inductive Act (cfg : ServerConfig) (now : Int) (i : Nat) (w w' : World) : Prop
  | own {s : MqttSession} : Own cfg (w.session i) s → Effect w w' i s [] w.shared → Act cfg now i w w'
  | relay {msgs : List (Nat × Bytes × Bytes)} : Relays (w.session i) msgs →
      Effect w w' i (w.session i) msgs w.shared → Act cfg now i w w'
  | publishMeta {payload nodeId : Bytes} {m : NodeMeta} :
      (w.session i).authenticated = true →
      readMeta cfg.registry.json (w.session i).role payload = some m →
      Learns (w.session i) (registration cfg now (w.session i) m w.shared.registry).2 nodeId →
      Effect w w' i (((w.session i).recordRegistration now m w.shared.registry).assignNode nodeId)
        (eventMessages cfg (registration cfg now (w.session i) m w.shared.registry))
        { w.shared with registry := (registration cfg now (w.session i) m w.shared.registry).1 } →
      Act cfg now i w w'
  | publishExtra {payload worker : Bytes} {extra : Json} :
      (w.session i).authenticated = true → (w.session i).nodeId ≠ [] →
      readExtra cfg.registry.json payload = some (worker, extra) →
      Effect w w' i (w.session i) (eventMessages cfg
        (w.shared.registry.updateNodeExtra cfg.registry now (w.session i).nodeId worker extra)) { w.shared with
        registry := (w.shared.registry.updateNodeExtra cfg.registry now (w.session i).nodeId worker extra).1 } →
      Act cfg now i w w'
  | close {registry : Registry} {msgs : List (Nat × Bytes × Bytes)} : (w.session i).tcp.closed = false →
      ((w.session i).nodeId = [] ∧ registry = w.shared.registry ∧ msgs = []) ∨
        ((w.session i).nodeId ≠ [] ∧
          registry = (w.shared.registry.markNodeGrace now (w.session i).nodeId).1 ∧
          msgs = eventMessages cfg (w.shared.registry.markNodeGrace now (w.session i).nodeId)) →
      Effect w w' i (w.session i).markClosed msgs
        ⟨registry, w.shared.guard.release (w.session i).tcp.peerIp⟩ →
      Act cfg now i w w'

/-- One move of a completion on session `i`: an act, bookkeeping, or the next packet. -/
inductive Move (cfg : ServerConfig) (now : Int) (i : Nat) (w w' : World) : Prop
  | act : Act cfg now i w w' → Move cfg now i w w'
  | input {s : MqttSession} : Input (w.session i) s → Effect w w' i s [] w.shared → Move cfg now i w w'
  | packet (data : Bytes) : Effect w w' i ((w.session i).recordPacket data) [] w.shared → Move cfg now i w w'

abbrev Acts (cfg : ServerConfig) (now : Int) (i : Nat) := Relation.ReflTransGen (Act cfg now i)
abbrev Trace (cfg : ServerConfig) (now : Int) (i : Nat) := Relation.ReflTransGen (Move cfg now i)

variable {cfg : ServerConfig} {now : Int} {i : Nat} {w w' : World} {s : MqttSession}
  {msgs : List (Nat × Bytes × Bytes)} {shared : Shared}

namespace Effect

theorem length (h : Effect w w' i s msgs shared) : w'.mqtt.length = w.mqtt.length := by
  rw [h.mqtt, List.length_map, List.length_set]

theorem get_self (h : Effect w w' i s msgs shared) (hi : i < w.mqtt.length) :
    w'.mqtt[i]? = some (deliverAll msgs s) := by
  rw [h.mqtt, List.getElem?_map, List.getElem?_set_self hi]
  rfl

theorem get_ne (h : Effect w w' i s msgs shared) {j : Nat} (hj : i ≠ j) :
    w'.mqtt[j]? = (w.mqtt[j]?).map (deliverAll msgs) := by
  rw [h.mqtt, List.getElem?_map, List.getElem?_set_ne hj]

theorem session_self (h : Effect w w' i s msgs shared) (hi : i < w.mqtt.length) :
    w'.session i = deliverAll msgs s := (World.session_of_get (h.get_self hi)).1

theorem ofAnnounced {registry : Registry} (h : w.Announced w' registry msgs) :
    Effect w w' i (w.session i) msgs { w.shared with registry } :=
  ⟨by rw [World.set_session_self, h.mqtt], h.http, h.shared⟩

theorem ofUpdate (f : MqttSession → MqttSession) : Effect w (w.update i f) i (f (w.session i)) [] w.shared :=
  ⟨(List.map_id _).symm, rfl, rfl⟩

end Effect

theorem Act.length (h : Act cfg now i w w') : w'.mqtt.length = w.mqtt.length := by
  cases h with
  | own _ e | relay _ e | publishMeta _ _ _ e | publishExtra _ _ _ e | close _ _ e => exact e.length

theorem Move.length (h : Move cfg now i w w') : w'.mqtt.length = w.mqtt.length := by
  cases h with
  | act h => exact h.length
  | input _ e | packet _ e => exact e.length

theorem acts_trace (h : Acts cfg now i w w') : Trace cfg now i w w' := by
  induction h with
  | refl => exact .refl
  | tail _ h ih => exact .tail ih (.act h)

theorem Acts.length (h : Acts cfg now i w w') : w'.mqtt.length = w.mqtt.length := by
  induction h with
  | refl => rfl
  | tail _ h ih => exact h.length.trans ih

theorem Trace.length (h : Trace cfg now i w w') : w'.mqtt.length = w.mqtt.length := by
  induction h with
  | refl => rfl
  | tail _ h ih => exact h.length.trans ih

/-- What arrived on a session and how it is to be read. No handler of a packet touches
it, and none opens a session again. -/
structure SameInput (s s' : MqttSession) : Prop where
  rxAcc : s'.rxAcc = s.rxAcc
  isWebsocket : s'.isWebsocket = s.isWebsocket
  wsHandshakeDone : s'.wsHandshakeDone = s.wsHandshakeDone
  received : s'.received = s.received
  handled : s'.handled = s.handled
  closed : s.tcp.closed = true → s'.tcp.closed = true

theorem SameInput.refl (s : MqttSession) : SameInput s s := ⟨rfl, rfl, rfl, rfl, rfl, id⟩

theorem SameInput.trans {s s' s'' : MqttSession} (h : SameInput s s') (h' : SameInput s' s'') : SameInput s s'' :=
  ⟨h'.1.trans h.1, h'.2.trans h.2, h'.3.trans h.3, h'.4.trans h.4, h'.5.trans h.5, fun hc => h'.6 (h.6 hc)⟩

theorem sameInput_deliverAll (msgs : List (Nat × Bytes × Bytes)) (s : MqttSession) :
    SameInput s (deliverAll msgs s) := by
  obtain ⟨_, _, _, h⟩ := deliverAll_same msgs s
  rw [h]
  exact ⟨rfl, rfl, rfl, rfl, rfl, id⟩

theorem Own.sameInput {s s' : MqttSession} (h : Own cfg s s') : SameInput s s' := by
  cases h <;> exact ⟨rfl, rfl, rfl, rfl, rfl, id⟩

theorem Effect.sameInput (h : Effect w w' i s msgs shared) (hi : i < w.mqtt.length)
    (hs : SameInput (w.session i) s) : SameInput (w.session i) (w'.session i) := by
  rw [h.session_self hi]
  exact hs.trans (sameInput_deliverAll msgs s)

theorem Act.sameInput (hi : i < w.mqtt.length) (h : Act cfg now i w w') :
    SameInput (w.session i) (w'.session i) := by
  cases h with
  | own ho e => exact e.sameInput hi ho.sameInput
  | relay _ e | publishMeta _ _ _ e | publishExtra _ _ _ e =>
    exact e.sameInput hi ⟨rfl, rfl, rfl, rfl, rfl, id⟩
  | close _ _ e => exact e.sameInput hi ⟨rfl, rfl, rfl, rfl, rfl, fun _ => rfl⟩

theorem Acts.sameInput (hi : i < w.mqtt.length) (h : Acts cfg now i w w') :
    SameInput (w.session i) (w'.session i) := by
  induction h with
  | refl => exact .refl _
  | tail hpre h ih => exact ih.trans (h.sameInput (Acts.length hpre ▸ hi))

end LightApr.Server
