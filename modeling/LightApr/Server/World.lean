import LightApr.Http.Session
import LightApr.Mqtt.Session

/-! The whole process: the registry, the connection guard and every session, and what
each completion does to them. A handler runs to its end before the next event. -/
namespace LightApr.Server
open LightApr.Core Lib Mqtt MqttSession

/-- The text of a peer address, as the socket library prints it. -/
structure Address where
  text : Bytes
  ascii : ∀ b ∈ text, b ≤ 0x7F

structure ServerConfig where
  http : Http.HttpConfig
  httpLimits : Http.HttpLimits
  /-- how many MQTT listeners there are: the plain one, and the WebSocket one if it is on -/
  servers : Nat
  accessKey : Bytes
  maxSessionBufferBytes : Nat
  limits : ConnectionLimits

def ServerConfig.registry (cfg : ServerConfig) : RegistryConfig := cfg.http.registry

/-- No access key and no limits, with a JSON library that reads the texts of `docs`. -/
def ServerConfig.ofDocuments (docs : List Json) (servers : Nat) : ServerConfig where
  http := .ofDocuments docs
  httpLimits := ⟨0, 0⟩
  servers := servers
  accessKey := []
  maxSessionBufferBytes := 1048576
  limits := ⟨0, 0, 0, 0⟩

structure World where
  shared : Shared
  mqtt : List MqttSession
  http : List Http.HttpSession

namespace World

def session (w : World) (i : Nat) : MqttSession := w.mqtt.getD i (.new 0 [] none)

def setSession (i : Nat) (s : MqttSession) (w : World) : World := { w with mqtt := w.mqtt.set i s }

def update (i : Nat) (f : MqttSession → MqttSession) (w : World) : World := w.setSession i (f (w.session i))

def setRegistry (registry : Registry) (w : World) : World := { w with shared := { w.shared with registry } }
def setGuard (guard : ConnectionGuard) (w : World) : World := { w with shared := { w.shared with guard } }

/-- Every listener subscribes to the registry when it is constructed. -/
def init (cfg : ServerConfig) : World :=
  ⟨⟨(List.range cfg.servers).foldl (fun r server => r.addEventCallback server) .empty, .empty⟩, [], []⟩

/-- One step over all sessions. Two threads may reach two sessions in different orders: no result compares the order of
the messages of one session with that of another. -/
def broadcast (server : Nat) (topic payload : Bytes) (w : World) : World :=
  { w with mqtt := w.mqtt.map (deliver server topic payload) }

variable (cfg : ServerConfig)

/-- The observers, one after the other; each prints the node for its own listener. -/
def notify (node : NodeInfo) : List (Nat × Nat) → World → World × Flow
  | [], w => (w, .done)
  | (_, server) :: rest, w =>
    match cfg.registry.json.dump node.toJson with
    | none => (w, .threw)
    | some text => notify node rest (w.broadcast server (ascii "apr/" ++ node.role) text)

/-- A registry mutation with its outcome: the observers run after the lock is released. -/
def mutate (result : Registry × Outcome) (w : World) : World × Flow :=
  let w := w.setRegistry result.1
  match result.2 with
  | .refused => (w, .done)
  | .threw => (w, .threw)
  | .event node => w.notify cfg node w.shared.registry.eventCbs

section
variable (now : Int) (i : Nat)

/-- `close_session` with `on_before_close`. -/
def closeSession (w : World) : World × Flow :=
  let s := w.session i
  if s.tcp.closed then (w, .done)
  else
    let w := w.update i markClosed
    let w := w.setGuard (w.shared.guard.release s.tcp.peerIp)
    if s.nodeId = [] then (w, .done)
    else w.mutate cfg (w.shared.registry.markNodeGrace now s.nodeId)

def onSessionClosed (w : World) : World := w.update i unlist

/-- `close_session(); on_session_closed();` -/
def endSession (w : World) : World × Flow :=
  match w.closeSession cfg now i with
  | (w, .threw) => (w, .threw)
  | (w, .done) => (w.onSessionClosed i, .done)

/-- The registration of a metadata publish. An exception is caught, and then the session
does not learn the id. -/
def publishMeta (m : NodeMeta) (w : World) : World :=
  let s := w.session i
  let w := w.update i (recordRegistration now m w.shared.registry)
  let result := w.shared.registry.registerOrUpdateNode cfg.registry now m.role m.workers m.endpoint
    s.tcp.peerIp s.nodeId m.extra
  match result.2, w.mutate cfg result with
  | .event node, (w, .done) => w.update i (assignNode node.id)
  | _, (w, _) => w

def publishExtra (worker : Bytes) (extra : Json) (w : World) : World :=
  (w.mutate cfg (w.shared.registry.updateNodeExtra cfg.registry now (w.session i).nodeId worker extra)).1

def handlePublish (data : Bytes) (w : World) : World :=
  let s := w.session i
  if !s.authenticated then w
  else
    match Packet.decodePublish data with
    | none => w
    | some pub =>
      let w := w.update i (acknowledge pub)
      if pub.topic = ascii "apr/node/meta" then
        match readMeta cfg.registry.json s.role pub.payload with
        | none => w
        | some m => w.publishMeta cfg now i m
      else if pub.topic = ascii "apr/node/extra" then
        if s.nodeId = [] then w
        else
          match readExtra cfg.registry.json pub.payload with
          | none => w
          | some (worker, extra) => w.publishExtra cfg now i worker extra
      else if isReserved pub.topic then w
      else w.broadcast s.server pub.topic pub.payload

def processPacket (data : Bytes) (w : World) : World × Flow :=
  match data with
  | [] => (w, .done)
  | b :: _ =>
    let w := w.update i (recordPacket data)
    let pktType := b &&& 0xF0
    if pktType = Packet.connect then (w.update i (handleConnect cfg.accessKey data), .done)
    else if pktType = Packet.publish then (w.handlePublish cfg now i data, .done)
    else if pktType = Packet.subscribe &&& 0xF0 then (w.update i (handleSubscribe data), .done)
    else if pktType = Packet.pingreq then (w.update i handlePingreq, .done)
    else if pktType = Packet.disconnect then w.endSession cfg now i
    else (w, .done)

/-- How the loop over WebSocket frames ends: it stops, the function returns from inside
it, or an exception leaves it. -/
inductive LoopEnd where
  | stopped
  | returned
  | threw

/-- The loop over the buffered frames; `fuel` bounds their number. -/
def frameLoop : Nat → World → World × LoopEnd
  | 0, w => (w, .stopped)
  | fuel + 1, w =>
    let s := w.session i
    if s.closing ∨ s.rxAcc.size = 0 then (w, .stopped)
    else
      match WebsocketCodec.decodeFrame s.rxAcc.data with
      | .incomplete => (w, .stopped)
      | .threw => (w, .threw)
      | .frame frame consumed =>
        let w := w.update i fun s => { s with rxAcc := s.rxAcc.consume consumed }
        if frame.opcode = 0x01 ∨ frame.opcode = 0x02 then
          match w.processPacket cfg now i frame.payload with
          | (w, .threw) => (w, .threw)
          | (w, .done) => frameLoop fuel w
        else if frame.opcode = 0x08 then
          match w.endSession cfg now i with
          | (w, .threw) => (w, .threw)
          | (w, .done) => (w, .returned)
        else if frame.opcode = 0x09 then
          frameLoop fuel (w.update i (asyncWrite (WebsocketCodec.encodeFrame frame.payload 0x0A) .ignored))
        else frameLoop fuel w

/-- `if (!closing_) start_read_loop();` -/
def continueReading (w : World) : World :=
  if (w.session i).closing then w else w.update i startReadLoop

/-- The tail of `on_bytes_read` on a WebSocket session. -/
def processFrames (w : World) : World × Flow :=
  match w.frameLoop cfg now i (w.session i).rxAcc.size with
  | (w, .threw) => (w, .threw)
  | (w, .returned) => (w, .done)
  | (w, .stopped) =>
    ((w.update i fun s => { s with rxAcc := s.rxAcc.compactIfNeeded 4096 }).continueReading i, .done)

/-- The upgrade: the request leaves the buffer and the response is written. -/
def acceptHandshake (headerEnd : Nat) (key : Bytes) (s : MqttSession) : MqttSession :=
  { s with
    isWebsocket := true
    wsHandshakeDone := true
    rxAcc := (s.rxAcc.consume (headerEnd + 4)).compactIfNeeded 4096 }.asyncWrite
      (WebsocketCodec.generateHandshakeResponse (WebsocketCodec.computeAcceptKey key) (ascii "mqtt")) .ignored

/-- The first bytes of an upgrade request. -/
def isHandshake (buffered : Bytes) : Bool := buffered.take 4 = ascii "GET " || buffered.take 4 = ascii "get "

/-- A plain connection: the bytes at hand are one packet. -/
def firstPacket (w : World) : World × Flow :=
  let w := w.update i fun s => { s with wsHandshakeDone := true, isWebsocket := false }
  match w.processPacket cfg now i (w.session i).rxAcc.data with
  | (w, .threw) => (w, .threw)
  | (w, .done) => ((w.update i fun s => { s with rxAcc := .empty }).continueReading i, .done)

/-- Before the transport is known. -/
def detectTransport (w : World) : World × Flow :=
  let buffered := (w.session i).rxAcc.data
  if isHandshake buffered then
    match find (ascii "\r\n\r\n") buffered with
    | none => (w.update i startReadLoop, .done)
    | some headerEnd =>
      match WebsocketCodec.parseHandshakeRequest buffered with
      | some (key, _) => (w.update i (acceptHandshake headerEnd key)).processFrames cfg now i
      | none => w.endSession cfg now i
  else w.firstPacket cfg now i

/-- A buffered read, unless the buffer exceeds its cap. -/
def buffered (data : Bytes) (next : World → World × Flow) (w : World) : World × Flow :=
  let w := w.update i fun s => { s with rxAcc := s.rxAcc.append data }
  if (w.session i).rxAcc.totalCapacity > cfg.maxSessionBufferBytes then w.endSession cfg now i
  else next w

def onBytesRead (data : Bytes) (w : World) : World × Flow :=
  let w := w.update i (recordRead data)
  let s := w.session i
  if !s.wsHandshakeDone then w.buffered cfg now i data fun w => w.detectTransport cfg now i
  else if s.isWebsocket then w.buffered cfg now i data fun w => w.processFrames cfg now i
  else
    match w.processPacket cfg now i data with
    | (w, .threw) => (w, .threw)
    | (w, .done) => (w.continueReading i, .done)

/-- The completion handler of a write. -/
def onWritten (ok : Bool) (kind : WriteKind) (w : World) : World × Flow :=
  match kind with
  | .reply => if ok then (w, .done) else w.endSession cfg now i
  | .closing => w.endSession cfg now i
  | .ignored => (w, .done)

end

/-! The events. -/

/-- What can happen on an MQTT session. -/
inductive MqttEvent where
  | read (data : Bytes)
  | readFailed
  | idleExpired
  | waitCanceled
  /-- the socket takes the next `n` bytes of buffer `k` -/
  | transferred (k n : Nat)
  | written (k : Nat) (ok : Bool)

def onMqtt (now : Int) (i : Nat) (s : MqttSession) (e : MqttEvent) (w : World) : Option World :=
  match e with
  | .read data =>
    if true ∈ s.tcp.reads ∧ data ≠ [] ∧ data.length ≤ 4096 then
      some ((w.update i fun s => { s with tcp := { s.tcp with reads := s.tcp.reads.erase true } }).onBytesRead
        cfg now i data).1
    else none
  | .readFailed =>
    if s.tcp.reads = [] then none
    else some ((w.update i fun s => { s with tcp := { s.tcp with reads := s.tcp.reads.tail } }).endSession
      cfg now i).1
  | .idleExpired =>
    if s.tcp.waits = 0 then none
    else some ((w.update i fun s => { s with tcp := { s.tcp with waits := s.tcp.waits - 1 } }).endSession
      cfg now i).1
  | .waitCanceled =>
    if s.tcp.waits = 0 then none
    else some (w.update i fun s => { s with tcp := { s.tcp with waits := s.tcp.waits - 1 } })
  | .transferred k n =>
    if s.tcp.closed = false ∧ k ∈ s.writes.map Prod.fst ∧ s.out.CanTransfer k n then
      some (w.update i fun s => { s with out := s.out.transfer k n })
    else none
  | .written k ok =>
    match s.writes.find? fun x => x.1 = k with
    | none => none
    | some (_, kind) =>
      if ok = true ∧ s.out.sent k ≠ (s.out.buffer k).length then none
      else some ((w.update i fun s => { s with writes := s.writes.filter fun x => x.1 ≠ k }).onWritten
        cfg now i ok kind).1

def acceptMqtt (server : Nat) (steady : Int) (remote : Option Address) (again : Bool) (w : World) : World :=
  let peerIp := (remote.map Address.text).getD []
  match w.shared.guard.tryAcquire cfg.limits steady peerIp with
  | (false, guard) => w.setGuard guard
  | (true, guard) =>
    let s := MqttSession.new server peerIp (if again then remote.map Address.text else none)
    { w.setGuard guard with mqtt := w.mqtt ++ [s.startReadLoop] }

def acceptHttp (steady : Int) (remote : Option Address) (again : Bool) (w : World) : World :=
  let peerIp := (remote.map Address.text).getD []
  match w.shared.guard.tryAcquire cfg.limits steady peerIp with
  | (false, guard) => w.setGuard guard
  | (true, guard) =>
    let s := Http.HttpSession.new peerIp (if again then remote.map Address.text else none)
    { w.setGuard guard with http := w.http ++ [s.start] }

def onHttp (i : Nat) (s : Http.HttpSession) (e : Http.HttpSession.Event) (w : World) : Option World :=
  (s.handle cfg.http cfg.httpLimits w.shared e).map fun x =>
    { w with shared := x.2.1, http := w.http.set i x.1 }

/-- The removing phase of a sweep; an exception ends it. -/
def removeExpired : List Bytes → World → World
  | [], w => w
  | id :: rest, w =>
    match w.mutate cfg (w.shared.registry.removeNodePermanently cfg.registry id) with
    | (w, .threw) => w
    | (w, .done) => removeExpired rest w

def sweepExpiredNodes (now : Int) (w : World) : World :=
  w.removeExpired cfg (w.shared.registry.expiredNodes cfg.registry.order now)

inductive Event where
  /-- `again`: the address query of the session's constructor succeeds -/
  | acceptMqtt (server : Nat) (steady : Int) (remote : Option Address) (again : Bool)
  | acceptHttp (steady : Int) (remote : Option Address) (again : Bool)
  | mqtt (now : Int) (i : Nat) (e : MqttEvent)
  | http (i : Nat) (e : Http.HttpSession.Event)
  /-- the last reference to a session object is dropped; only an MQTT session closes
  itself then -/
  | destroyMqtt (now : Int) (i : Nat)
  | destroyHttp (i : Nat)
  | sweep (now : Int)

/-- Nothing that would keep the session object alive is left. -/
def unreferenced (t : TcpSession) (pendingWrites : Nat) : Bool :=
  !t.gone && t.reads.isEmpty && t.waits == 0 && pendingWrites == 0

def step (w : World) : Event → Option World
  | .acceptMqtt server steady remote again =>
    if server < cfg.servers then some (w.acceptMqtt cfg server steady remote again) else none
  | .acceptHttp steady remote again => some (w.acceptHttp cfg steady remote again)
  | .mqtt now i e => (w.mqtt[i]?).bind fun s => w.onMqtt cfg now i s e
  | .http i e => (w.http[i]?).bind fun s => w.onHttp cfg i s e
  | .destroyMqtt now i => (w.mqtt[i]?).bind fun s =>
    if unreferenced s.tcp s.writes.length ∧ s.listed = false then
      some ((w.closeSession cfg now i).1.update i fun s => { s with tcp := { s.tcp with gone := true } })
    else none
  | .destroyHttp i => (w.http[i]?).bind fun s =>
    if unreferenced s.tcp s.writes.length then
      some { w with http := w.http.set i { s with tcp := { s.tcp with gone := true } } }
    else none
  | .sweep now => some (w.sweepExpiredNodes cfg now)

def machine : Machine World Event := ⟨step cfg⟩

/-! Clients with given packets. -/

def oneListener : ServerConfig := .ofDocuments [] 1

/-- The metadata of a node without workers. -/
def metaDocument (role : Bytes) : Json := .mkObj [(ascii "role", .str role), (ascii "workers", .arr [])]

def withRole (role : Bytes) (servers : Nat) : ServerConfig := .ofDocuments [metaDocument role] servers

def jobListener : ServerConfig := withRole (ascii "job") 1

def jobListeners : ServerConfig := withRole (ascii "job") 2

/-- A listener for metadata that name no role. -/
def rolelessListener : ServerConfig := .ofDocuments [.obj []] 1

def keyedListener : ServerConfig := { oneListener with accessKey := ascii "secret" }

/-- One client connects to the first listener, and its bytes come in these reads. -/
def clientSends (chunks : List Bytes) : List Event :=
  .acceptMqtt 0 0 none false :: chunks.map fun data => .mqtt 0 0 (.read data)

/-- Its first buffers, of these sizes, go out one after the other. -/
def clientGets (sizes : List Nat) : List Event := sizes.mapIdx fun k n => .mqtt 0 0 (.transferred k n)

def connectPacket : Bytes := [0x10, 0x0C, 0x00, 0x04] ++ ascii "MQTT" ++ [0x04, 0x00, 0x00, 0x3C, 0x00, 0x00]

/-- CONNECT under a user name, with an empty password. -/
def connectAs (username : Bytes) : Bytes :=
  [0x10, UInt8.ofNat (14 + username.length), 0x00, 0x04] ++ ascii "MQTT" ++
    [0x04, 0xC0, 0x00, 0x3C, 0x00, 0x00, 0x00, UInt8.ofNat username.length] ++ username ++ [0x00, 0x00]

def subscribePacket (topic : Bytes) : Bytes :=
  [0x82, UInt8.ofNat (5 + topic.length), 0x00, 0x01, 0x00, UInt8.ofNat topic.length] ++ topic ++ [0x00]

def metaPacket (document : Json) : Bytes := Packet.encodePublish (ascii "apr/node/meta") document.render 0 0

def jobPacket : Bytes := metaPacket (metaDocument (ascii "job"))

def rolelessPacket : Bytes := metaPacket (.obj [])

def upgradeRequest : Bytes :=
  ascii "GET / HTTP/1.1\r\nUpgrade: websocket\r\nSec-WebSocket-Key: dGhlIHNhbXBsZSBub25jZQ==\r\n\r\n"

/-- A binary frame of at most 125 bytes, with a zero mask. -/
def clientFrame (payload : Bytes) : Bytes := [0x82, 0x80 ||| UInt8.ofNat payload.length, 0, 0, 0, 0] ++ payload

end World
end LightApr.Server
