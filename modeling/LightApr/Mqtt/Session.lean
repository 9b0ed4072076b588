import LightApr.Core.Registry
import LightApr.Core.StreamAccumulator
import LightApr.Core.TcpSession
import LightApr.Lib.Writers
import LightApr.Mqtt.Packet
import LightApr.Mqtt.Topic
import LightApr.Mqtt.WebsocketCodec

/-! One MQTT connection: its state, its writes, and the packet handlers that touch
nothing else. -/
namespace LightApr.Mqtt
open LightApr.Core Lib.Writers Packet WebsocketCodec

/-- What the completion handler of a write does: close on an error, close in any case,
or nothing. -/
inductive WriteKind where
  | reply
  | closing
  | ignored
  deriving DecidableEq, Repr

/-- What a metadata publish asks for. -/
structure NodeMeta where
  role : Bytes
  workers : List Bytes
  endpoint : Option EndpointInfo
  extra : Json

/-- A call of `register_or_update_node`, with the state of the session that makes it and
the record stored so far under the id it writes. -/
structure Registration where
  closed : Bool
  nodeId : Bytes
  asked : NodeMeta
  stored : Option NodeInfo

structure MqttSession where
  tcp : TcpSession
  /-- the listener that owns the session, and whether it is in its `sessions_` -/
  server : Nat
  listed : Bool
  rxAcc : StreamAccumulator UInt8
  isWebsocket : Bool
  wsHandshakeDone : Bool
  authenticated : Bool
  closing : Bool
  clientId : Bytes
  username : Bytes
  role : Bytes
  nodeId : Bytes
  subscriptions : List Bytes
  /-- the buffers handed to `async_write`, and how far each has got -/
  out : Channel UInt8
  /-- the pending writes: the position of the buffer and the completion handler -/
  writes : List (Nat × WriteKind)
  /-- history: the reads, the `process_packet` calls, the registrations, and the messages
  that a broadcast sent here -/
  received : List Bytes
  handled : List Bytes
  registrations : List Registration
  broadcasts : List (Bytes × Bytes)

namespace MqttSession

def new (server : Nat) (admitted : Bytes) (remote : Option Bytes) : MqttSession where
  tcp := .new admitted remote
  server := server
  listed := true
  rxAcc := .empty
  isWebsocket := false
  wsHandshakeDone := false
  authenticated := false
  closing := false
  clientId := []
  username := []
  role := []
  nodeId := []
  subscriptions := []
  out := .empty
  writes := []
  received := []
  handled := []
  registrations := []
  broadcasts := []

def startReadLoop (s : MqttSession) : MqttSession := { s with tcp := s.tcp.startReadLoop }

def asyncWrite (buf : Bytes) (kind : WriteKind) (s : MqttSession) : MqttSession :=
  { s with out := s.out.start buf, writes := s.writes ++ [(s.out.buffers.length, kind)] }

def markClosed (s : MqttSession) : MqttSession := { s with tcp := s.tcp.close }
def unlist (s : MqttSession) : MqttSession := { s with listed := false }
def recordRead (data : Bytes) (s : MqttSession) : MqttSession := { s with received := s.received ++ [data] }
def recordPacket (data : Bytes) (s : MqttSession) : MqttSession := { s with handled := s.handled ++ [data] }
def recordRegistration (now : Int) (asked : NodeMeta) (r : Registry) (s : MqttSession) : MqttSession :=
  { s with
    registrations := s.registrations ++
      [⟨s.tcp.closed, s.nodeId, asked, r.nodes.lookup (r.targetId now s.nodeId)⟩] }
def assignNode (nodeId : Bytes) (s : MqttSession) : MqttSession := { s with nodeId }

/-- The bytes of a packet on this session's transport. -/
def framed (s : MqttSession) (data : Bytes) : Bytes :=
  if s.isWebsocket then encodeFrame data 0x02 else data

def sendRaw (data : Bytes) (s : MqttSession) : MqttSession := s.asyncWrite (s.framed data) .reply

def sendRawAndClose (data : Bytes) (s : MqttSession) : MqttSession :=
  { s with closing := true }.asyncWrite (s.framed data) .closing

def matchesTopic (s : MqttSession) (topic : Bytes) : Bool :=
  s.subscriptions.any fun pat => Topic.topicMatches pat topic

/-- The part of a topic broadcast that concerns this session. -/
def deliver (server : Nat) (topic payload : Bytes) (s : MqttSession) : MqttSession :=
  if s.listed ∧ s.server = server ∧ s.matchesTopic topic then
    { s with broadcasts := s.broadcasts ++ [(topic, payload)] }.sendRaw (encodePublish topic payload 0 0)
  else s

/-- The password that grants access. -/
def expectedPassword (accessKey username : Bytes) : Bytes := accessKey ++ username

/-- The user name up to the first '_'. -/
def roleOf (username : Bytes) : Bytes :=
  match findByte 95 username with
  | some underscorePos => username.take underscorePos
  | none => username

def handleConnect (accessKey data : Bytes) (s : MqttSession) : MqttSession :=
  match decodeConnect data with
  | none => s.sendRawAndClose (encodeConnack 0x01)
  | some conn =>
    let s := { s with clientId := conn.clientId, username := conn.username }
    if conn.password ≠ expectedPassword accessKey conn.username ∧ accessKey ≠ [] then
      s.sendRawAndClose (encodeConnack 0x04)
    else
      { s with role := roleOf conn.username, authenticated := true }.sendRaw (encodeConnack 0x00)

def handleSubscribe (data : Bytes) (s : MqttSession) : MqttSession :=
  if !s.authenticated then s
  else
    match decodeSubscribe data with
    | none => s
    | some sub =>
      { s with subscriptions := s.subscriptions ++ sub.topics }.sendRaw
        (encodeSuback sub.packetId (sub.topics.map fun _ => 0x00))

def handlePingreq (s : MqttSession) : MqttSession := s.sendRaw encodePingresp

/-- The acknowledgement of a QoS 1 publish. -/
def acknowledge (pub : MqttPublish) (s : MqttSession) : MqttSession :=
  if pub.qos = 1 then s.sendRaw (encodePuback pub.packetId) else s

/-- `app/...` and every other topic outside the reserved name space. -/
def isReserved (topic : Bytes) : Bool := (ascii "apr/").isPrefixOf topic

/-! What the payload of a metadata publish asks for; none: an exception that the handler
catches. -/

def metaExtra (j : Json) : Json :=
  match j.field? (ascii "extra") with
  | some (.obj fields) => .obj fields
  | _ => .obj []

def readMeta (lib : JsonLib) (defaultRole payload : Bytes) : Option NodeMeta := do
  let j ← lib.parse payload
  let role ← j.valueString? (ascii "role") defaultRole
  let workers ← NodeInfo.workersFromJson j
  let endpoint ← NodeInfo.endpointFromJson j
  some { role, workers, endpoint, extra := metaExtra j }

/-- The worker and the data of an extra publish; none: malformed, or an exception that
the handler catches. -/
def readExtra (lib : JsonLib) (payload : Bytes) : Option (Bytes × Json) := do
  let j ← lib.parse payload
  let worker ← j.valueString? (ascii "worker") []
  match j.field? (ascii "extra") with
  | some (.obj fields) => if worker = [] then none else some (worker, .obj fields)
  | _ => none

end MqttSession
end LightApr.Mqtt
