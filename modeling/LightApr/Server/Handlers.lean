import LightApr.Server.Effect
import LightApr.Server.FrameRound

/-! Every handler of a session is a sequence of acts, and every completion a sequence of
moves. -/
namespace LightApr.Server
open LightApr.Core Lib Mqtt MqttSession World

variable {cfg : ServerConfig} {now : Int} {i : Nat} {w w' : World}

/-! The packet handlers that stay within the session. -/

abbrev Owns (cfg : ServerConfig) := Relation.ReflTransGen (Own cfg)

theorem owns_sendRaw {s : MqttSession} (hd : s.wsHandshakeDone = true) {data : Bytes} (h : IsAnswer data) :
    Owns cfg s (s.sendRaw data) :=
  .single (.write _ _ hd (isReply_framed s h))

theorem owns_sendRawAndClose {s : MqttSession} (hd : s.wsHandshakeDone = true) {data : Bytes} (h : IsAnswer data) :
    Owns cfg s (s.sendRawAndClose data) :=
  .tail (.single .startClosing) (.write _ _ hd (isReply_framed s h))

theorem owns_handleConnect {s : MqttSession} {data : Bytes} (hs : s.wsHandshakeDone = true) (hm : data ∈ s.handled)
    (ht : data.headD 0 &&& 0xF0 = Packet.connect) : Owns cfg s (s.handleConnect cfg.accessKey data) := by
  unfold handleConnect
  cases hd : Packet.decodeConnect data with
  | none => exact owns_sendRawAndClose hs (.connack _)
  | some conn =>
    dsimp only
    have hid : Own cfg s { s with clientId := conn.clientId, username := conn.username } := .identify _ _
    split
    · exact .head hid (owns_sendRawAndClose (by exact hs) (.connack _))
    · rename_i hpw
      have hgrant : GrantsAccess cfg.accessKey data ∨ cfg.accessKey = [] := by
        by_cases hk : cfg.accessKey = []
        · exact .inr hk
        · refine .inl ⟨ht, conn, hd, ?_⟩
          by_contra hne
          exact hpw ⟨hne, hk⟩
      refine .head hid (.head (.authenticate conn.username hm hgrant) ?_)
      exact owns_sendRaw (by exact hs) (.connack _)

theorem owns_handleSubscribe {s : MqttSession} (hs : s.wsHandshakeDone = true) (data : Bytes) :
    Owns cfg s (s.handleSubscribe data) := by
  unfold handleSubscribe
  split
  · exact .refl
  · rename_i ha
    split
    · exact .refl
    · exact .head (.subscribe _ hs (by simpa using ha)) (owns_sendRaw (by exact hs) (.suback _ _))

theorem owns_acknowledge {s : MqttSession} (hs : s.wsHandshakeDone = true) (pub : Packet.MqttPublish) :
    Owns cfg s (s.acknowledge pub) := by
  unfold acknowledge
  split
  · exact owns_sendRaw hs (.puback _)
  · exact .refl

theorem acts_setSession {s : MqttSession} (hi : i < w.mqtt.length) (h : Owns cfg (w.session i) s) :
    Acts cfg now i w (w.setSession i s) := by
  induction h with
  | refl =>
    rw [setSession, set_session_self]
  | @tail b c _ hown ih =>
    have hb : (w.setSession i b).session i = b := by
      simp [setSession, session, hi]
    refine .tail ih (.own (hb.symm ▸ hown) ⟨?_, rfl, rfl⟩)
    rw [setSession, setSession, List.set_set]
    exact (List.map_id _).symm

theorem acts_update {f : MqttSession → MqttSession} (hi : i < w.mqtt.length)
    (h : Owns cfg (w.session i) (f (w.session i))) : Acts cfg now i w (w.update i f) := acts_setSession hi h

/-! Closing, and the publishes that reach the registry. -/

theorem closeSession_effect (cfg : ServerConfig) (now : Int) (i : Nat) (w : World) :
    ((w.session i).tcp.closed = true ∧ (w.closeSession cfg now i).1 = w) ∨
      ((w.session i).tcp.closed = false ∧ ∃ registry msgs,
        (((w.session i).nodeId = [] ∧ registry = w.shared.registry ∧ msgs = []) ∨
          ((w.session i).nodeId ≠ [] ∧
            registry = (w.shared.registry.markNodeGrace now (w.session i).nodeId).1 ∧
            msgs = eventMessages cfg (w.shared.registry.markNodeGrace now (w.session i).nodeId))) ∧
        Effect w (w.closeSession cfg now i).1 i (w.session i).markClosed msgs
          ⟨registry, w.shared.guard.release (w.session i).tcp.peerIp⟩) := by
  unfold closeSession
  dsimp only
  split
  · rename_i hc
    exact .inl ⟨hc, rfl⟩
  · rename_i hopen
    refine .inr ⟨by simpa using hopen, ?_⟩
    split
    · rename_i hnode
      exact ⟨_, [], .inl ⟨hnode, rfl, rfl⟩, (List.map_id _).symm, rfl, rfl⟩
    · rename_i hnode
      have hmutate : ((w.update i markClosed).setGuard
          ((w.update i markClosed).shared.guard.release (w.session i).tcp.peerIp)).mutate cfg
            (w.shared.registry.markNodeGrace now (w.session i).nodeId) = (_, _) := rfl
      obtain ⟨hm, -⟩ := mutate_effect hmutate
      exact ⟨_, _, .inr ⟨hnode, rfl, rfl⟩, hm.mqtt, hm.http, hm.shared⟩

theorem acts_closeSession (cfg : ServerConfig) (now : Int) (i : Nat) (w : World) :
    Acts cfg now i w (w.closeSession cfg now i).1 := by
  rcases closeSession_effect cfg now i w with ⟨-, he⟩ | ⟨hopen, _, _, hnode, he⟩
  · rw [he]
  · exact .single (.close hopen hnode he)

/-- A session that `close_session` has returned from is closed. -/
theorem closed_closeSession (cfg : ServerConfig) (now : Int) (hi : i < w.mqtt.length) :
    ((w.closeSession cfg now i).1.session i).tcp.closed = true := by
  rcases closeSession_effect cfg now i w with ⟨hc, he⟩ | ⟨-, _, msgs, -, he⟩
  · rw [he]
    exact hc
  · obtain ⟨_, _, _, hd⟩ := deliverAll_same msgs (w.session i).markClosed
    rw [he.session_self hi, hd]
    rfl

theorem acts_endSession (cfg : ServerConfig) (now : Int) (hi : i < w.mqtt.length) :
    Acts cfg now i w (w.endSession cfg now i).1 := by
  have hclose := acts_closeSession cfg now i w
  unfold endSession
  split
  · rename_i w1 he
    rwa [he] at hclose
  · rename_i w1 he
    rw [he] at hclose
    exact hclose.trans (acts_update (hclose.length.symm ▸ hi) (.single .unlist))

private theorem deliverAll_assignNode (msgs : List (Nat × Bytes × Bytes)) (nodeId : Bytes) (s : MqttSession) :
    deliverAll msgs (s.assignNode nodeId) = (deliverAll msgs s).assignNode nodeId := by
  induction msgs generalizing s with
  | nil => rfl
  | cons m msgs ih =>
    have hd : (s.assignNode nodeId).deliver m.1 m.2.1 m.2.2 = (s.deliver m.1 m.2.1 m.2.2).assignNode nodeId := by
      unfold deliver
      split
      · rename_i h
        rw [if_pos (by exact h)]
        rfl
      · rename_i h
        rw [if_neg (by exact h)]
    rw [deliverAll, List.foldl_cons, hd]
    exact ih _

/-- Learning the id after the announcement is learning it before. -/
private theorem assign_announced {s : MqttSession} {msgs : List (Nat × Bytes × Bytes)} {registry : Registry}
    (hi : i < w.mqtt.length) (nodeId : Bytes) (h : (w.setSession i s).Announced w' registry msgs) :
    Effect w (w'.update i (assignNode nodeId)) i (s.assignNode nodeId) msgs { w.shared with registry } := by
  have hs : w'.session i = deliverAll msgs s := by
    refine (session_of_get ?_).1
    rw [h.mqtt, List.getElem?_map, get_setSession s hi, if_pos rfl]
    rfl
  refine ⟨?_, h.http, h.shared⟩
  rw [update, setSession, hs, h.mqtt, ← deliverAll_assignNode, setSession, List.map_set, List.map_set,
    List.set_set]

theorem publishMeta_effect (cfg : ServerConfig) (now : Int) (m : NodeMeta) (hi : i < w.mqtt.length) :
    ∃ nodeId, Learns (w.session i) (registration cfg now (w.session i) m w.shared.registry).2 nodeId ∧
      Effect w (w.publishMeta cfg now i m) i
        (((w.session i).recordRegistration now m w.shared.registry).assignNode nodeId)
        (eventMessages cfg (registration cfg now (w.session i) m w.shared.registry))
        { w.shared with registry := (registration cfg now (w.session i) m w.shared.registry).1 } := by
  unfold publishMeta
  dsimp only
  rw [shared_update]
  obtain ⟨result, hr⟩ : ∃ x, registration cfg now (w.session i) m w.shared.registry = x := ⟨_, rfl⟩
  obtain ⟨⟨w1, flow⟩, hw⟩ : ∃ x, (w.update i (recordRegistration now m w.shared.registry)).mutate cfg result = x :=
    ⟨_, rfl⟩
  obtain ⟨heff, hthrew⟩ := mutate_effect hw
  have hout : (∃ node, result.2 = .event node) ∨ result.2 = .threw := by
    have hr : registration cfg now (w.session i) m w.shared.registry = (result.1, result.2) := hr
    obtain ⟨node, -, -, -, h | h, -⟩ := Registry.registerOrUpdateNode_effect hr
    · exact .inl ⟨node, h⟩
    · exact .inr h
  have hw' : w.setSession i ((w.session i).recordRegistration now m w.shared.registry) = w.update i
    (recordRegistration now m w.shared.registry) := rfl
  -- without the id, the session keeps the one it had
  have hkeep : Effect w w1 i
    (((w.session i).recordRegistration now m w.shared.registry).assignNode (w.session i).nodeId)
      (eventMessages cfg result) { w.shared with registry := result.1 } := ⟨heff.mqtt, heff.http, heff.shared⟩
  rw [show w.shared.registry.registerOrUpdateNode cfg.registry now m.role m.workers m.endpoint
    (w.session i).tcp.peerIp (w.session i).nodeId m.extra = result from hr, hw, hr]
  rcases hout with ⟨node, ho⟩ | ho
  · cases flow with
    | done =>
      rw [ho]
      exact ⟨node.id, .inl ⟨node, rfl, rfl⟩, assign_announced hi node.id (hw' ▸ heff)⟩
    | threw =>
      refine ⟨_, .inr ⟨rfl, hthrew rfl⟩, ?_⟩
      rw [ho]
      exact hkeep
  · refine ⟨_, .inr ⟨rfl, .inl ho⟩, ?_⟩
    rw [ho]
    exact hkeep

theorem acts_publishMeta {payload : Bytes} {m : NodeMeta} (hi : i < w.mqtt.length)
    (ha : (w.session i).authenticated = true)
    (hm : readMeta cfg.registry.json (w.session i).role payload = some m) :
    Acts cfg now i w (w.publishMeta cfg now i m) := by
  obtain ⟨nodeId, hl, he⟩ := publishMeta_effect cfg now m hi
  exact .single (.publishMeta ha hm hl he)

theorem publishExtra_effect (cfg : ServerConfig) (now : Int) (i : Nat) (worker : Bytes) (extra : Json) (w : World) :
    Effect w (w.publishExtra cfg now i worker extra) i (w.session i) (eventMessages cfg
      (w.shared.registry.updateNodeExtra cfg.registry now (w.session i).nodeId worker extra)) { w.shared with
      registry := (w.shared.registry.updateNodeExtra cfg.registry now (w.session i).nodeId worker extra).1 } := by
  obtain ⟨⟨w1, flow⟩, hw⟩ : ∃ x, w.mutate cfg
    (w.shared.registry.updateNodeExtra cfg.registry now (w.session i).nodeId worker extra) = x := ⟨_, rfl⟩
  obtain ⟨heff, -⟩ := mutate_effect hw
  rw [publishExtra, hw]
  exact .ofAnnounced heff

theorem acts_publishExtra {payload worker : Bytes} {extra : Json} (ha : (w.session i).authenticated = true)
    (hn : (w.session i).nodeId ≠ []) (hx : readExtra cfg.registry.json payload = some (worker, extra)) :
    Acts cfg now i w (w.publishExtra cfg now i worker extra) :=
  .single (.publishExtra ha hn hx (publishExtra_effect cfg now i worker extra w))

theorem acts_relay {server : Nat} {topic payload : Bytes}
    (h : Relays (w.session i) [(server, topic, payload)]) :
    Acts cfg now i w (w.broadcast server topic payload) := by
  have he : Effect w (w.broadcast server topic payload) i (w.session i) [(server, topic, payload)] w.shared := by
    refine ⟨?_, rfl, rfl⟩
    rw [set_session_self]
    rfl
  exact .single (.relay h he)

theorem acts_handlePublish (hi : i < w.mqtt.length) (hs : (w.session i).wsHandshakeDone = true) {data : Bytes}
    (hdata : data ∈ (w.session i).handled) : Acts cfg now i w (w.handlePublish cfg now i data) := by
  unfold handlePublish
  dsimp only
  split
  · exact .refl
  · rename_i ha
    have ha : (w.session i).authenticated = true := by simpa using ha
    split
    · exact .refl
    · rename_i pub hpub
      have hack : Acts cfg now i w (w.update i (acknowledge pub)) := acts_update hi (owns_acknowledge hs pub)
      have hi' : i < (w.update i (acknowledge pub)).mqtt.length := by simpa using hi
      -- acknowledging leaves what the branches read alone
      obtain ⟨hauth, hrole, hnode, hserver, hhandled⟩ : ((w.session i).acknowledge pub).authenticated = true ∧
          ((w.session i).acknowledge pub).role = (w.session i).role ∧
          ((w.session i).acknowledge pub).nodeId = (w.session i).nodeId ∧
          ((w.session i).acknowledge pub).server = (w.session i).server ∧
          ((w.session i).acknowledge pub).handled = (w.session i).handled := by
        unfold acknowledge
        split <;> exact ⟨ha, rfl, rfl, rfl, rfl⟩
      rw [← session_update hi (acknowledge pub)] at hauth hrole hnode hserver hhandled
      refine hack.trans ?_
      split
      · split
        · exact .refl
        · rename_i m hm
          exact acts_publishMeta hi' hauth (by rw [hrole]; exact hm)
      · split
        · split
          · exact .refl
          · rename_i hne
            split
            · exact .refl
            · rename_i worker extra hx
              exact acts_publishExtra hauth (by rw [hnode]; exact hne) hx
        · split
          · exact .refl
          · rename_i hfree
            refine acts_relay ⟨hauth, data, hhandled ▸ hdata, pub, hpub, by simpa using hfree, ?_⟩
            rw [hserver]

/-- What each type of packet leads to. -/
inductive PacketCase (cfg : ServerConfig) (now : Int) (i : Nat) (data : Bytes) (w : World) : World × Flow → Prop
  | connect : data.headD 0 &&& 0xF0 = Packet.connect →
      PacketCase cfg now i data w (w.update i (handleConnect cfg.accessKey data), .done)
  | publish : data.headD 0 &&& 0xF0 = Packet.publish → PacketCase cfg now i data w
    (w.handlePublish cfg now i data, .done)
  | subscribe : data.headD 0 &&& 0xF0 = Packet.subscribe &&& 0xF0 →
      PacketCase cfg now i data w (w.update i (handleSubscribe data), .done)
  | pingreq : data.headD 0 &&& 0xF0 = Packet.pingreq → PacketCase cfg now i data w (w.update i handlePingreq, .done)
  | disconnect : data.headD 0 &&& 0xF0 = Packet.disconnect → PacketCase cfg now i data w (w.endSession cfg now i)
  | dropped : data.headD 0 &&& 0xF0 ≠ Packet.connect → data.headD 0 &&& 0xF0 ≠ Packet.publish →
      data.headD 0 &&& 0xF0 ≠ Packet.subscribe &&& 0xF0 → data.headD 0 &&& 0xF0 ≠ Packet.pingreq →
      data.headD 0 &&& 0xF0 ≠ Packet.disconnect → PacketCase cfg now i data w (w, .done)

theorem processPacket_cases (cfg : ServerConfig) (now : Int) (i : Nat) (w : World) {data : Bytes} (hne : data ≠ []) :
    PacketCase cfg now i data (w.update i (recordPacket data)) (w.processPacket cfg now i data) := by
  obtain ⟨b, rest, rfl⟩ := List.exists_cons_of_ne_nil hne
  unfold processPacket
  dsimp only
  by_cases hconnect : b &&& 0xF0 = Packet.connect
  · rw [if_pos hconnect]
    exact .connect hconnect
  · by_cases hpublish : b &&& 0xF0 = Packet.publish
    · rw [if_neg hconnect, if_pos hpublish]
      exact .publish hpublish
    · by_cases hsubscribe : b &&& 0xF0 = Packet.subscribe &&& 0xF0
      · rw [if_neg hconnect, if_neg hpublish, if_pos hsubscribe]
        exact .subscribe hsubscribe
      · by_cases hping : b &&& 0xF0 = Packet.pingreq
        · rw [if_neg hconnect, if_neg hpublish, if_neg hsubscribe, if_pos hping]
          exact .pingreq hping
        · by_cases hdisconnect : b &&& 0xF0 = Packet.disconnect
          · rw [if_neg hconnect, if_neg hpublish, if_neg hsubscribe, if_neg hping, if_pos hdisconnect]
            exact .disconnect hdisconnect
          · rw [if_neg hconnect, if_neg hpublish, if_neg hsubscribe, if_neg hping, if_neg hdisconnect]
            exact .dropped hconnect hpublish hsubscribe hping hdisconnect

/-- A packet is recorded, and then handled by acts alone. -/
theorem acts_processPacket (cfg : ServerConfig) (now : Int) (hi : i < w.mqtt.length)
    (hs : (w.session i).wsHandshakeDone = true) {data : Bytes} (hne : data ≠ []) :
    Acts cfg now i (w.update i (recordPacket data)) (w.processPacket cfg now i data).1 := by
  have hi' : i < (w.update i (recordPacket data)).mqtt.length := by simpa using hi
  have hs' : ((w.update i (recordPacket data)).session i).wsHandshakeDone = true := by
    rw [session_update hi]
    exact hs
  have hdata : data ∈ ((w.update i (recordPacket data)).session i).handled := by
    rw [session_update hi]
    simp [recordPacket]
  have hcase := processPacket_cases cfg now i w hne
  generalize w.processPacket cfg now i data = x at hcase ⊢
  cases hcase with
  | connect ht => exact acts_update hi' (owns_handleConnect hs' hdata ht)
  | publish _ => exact acts_handlePublish hi' hs' hdata
  | subscribe _ => exact acts_update hi' (owns_handleSubscribe hs' _)
  | pingreq _ => exact acts_update hi' (owns_sendRaw hs' .pingresp)
  | disconnect _ => exact acts_endSession cfg now hi'
  | dropped => exact .refl

/-- A packet leaves the input of its session alone, and is recorded when it is not empty. -/
theorem sameInput_processPacket (cfg : ServerConfig) (now : Int) (hi : i < w.mqtt.length)
    (hs : (w.session i).wsHandshakeDone = true) {data : Bytes} (hne : data ≠ []) :
    SameInput ((w.session i).recordPacket data) ((w.processPacket cfg now i data).1.session i) := by
  have h := (acts_processPacket cfg now hi hs hne).sameInput (by simpa using hi)
  rwa [session_update hi] at h

theorem trace_processPacket (cfg : ServerConfig) (now : Int) (hi : i < w.mqtt.length)
    (hs : (w.session i).wsHandshakeDone = true) (data : Bytes) : Trace cfg now i w
    (w.processPacket cfg now i data).1 := by
  cases data with
  | nil => exact .refl
  | cons b rest =>
    exact .head (.packet (b :: rest) (.ofUpdate _))
      (acts_trace (acts_processPacket cfg now hi hs (List.cons_ne_nil _ _)))

/-! The receive path. -/

theorem trace_input {f : MqttSession → MqttSession} (h : Input (w.session i) (f (w.session i))) :
    Trace cfg now i w (w.update i f) := .single (.input h (.ofUpdate f))

/-- Bookkeeping that leaves the transport alone. -/
theorem input_same {s s' : MqttSession} (h : ∃ reads waits rxAcc writes,
    s' = { s with tcp := { s.tcp with reads, waits }, rxAcc, writes }) : Input s s' := by
  obtain ⟨reads, waits, rxAcc, writes, rfl⟩ := h
  exact ⟨reads, waits, rxAcc, _, _, writes, _, rfl, fun h => ⟨rfl, h⟩, List.prefix_rfl⟩

theorem input_recordRead (data : Bytes) (s : MqttSession) : Input s (s.recordRead data) :=
  ⟨_, _, _, _, _, _, _, rfl, fun h => ⟨rfl, h⟩, List.prefix_append _ _⟩

/-- Bookkeeping that settles the transport. -/
theorem input_settle {s : MqttSession} (hs : s.wsHandshakeDone = false) (isWebsocket : Bool)
    (rxAcc : StreamAccumulator UInt8) : Input s { s with isWebsocket, wsHandshakeDone := true, rxAcc } :=
  ⟨_, _, rxAcc, isWebsocket, true, _, _, rfl, fun h => (nomatch hs.symm.trans h), List.prefix_rfl⟩

theorem input_startReadLoop (s : MqttSession) : Input s s.startReadLoop := input_same ⟨_, _, _, _, rfl⟩

theorem trace_continueReading (w : World) : Trace cfg now i w (w.continueReading i) := by
  unfold continueReading
  split
  · exact .refl
  · exact trace_input (input_startReadLoop _)

/-- The transport is a WebSocket, and known to be one. -/
structure OnWebsocket (s : MqttSession) : Prop where
  settled : s.wsHandshakeDone = true
  websocket : s.isWebsocket = true

theorem onWebsocket_processPacket (cfg : ServerConfig) (now : Int) (hi : i < w.mqtt.length)
    (hs : OnWebsocket (w.session i)) (data : Bytes) : OnWebsocket ((w.processPacket cfg now i data).1.session i) := by
  by_cases hne : data = []
  · subst hne
    exact hs
  · have h := sameInput_processPacket cfg now hi hs.settled hne
    exact ⟨h.wsHandshakeDone.trans hs.settled, h.isWebsocket.trans hs.websocket⟩

/-- Inside the loop over the frames, for a handler that began in `w₀`. -/
structure Tracing (cfg : ServerConfig) (now : Int) (i : Nat) (w₀ w : World) : Prop where
  present : i < w.mqtt.length
  onWebsocket : OnWebsocket (w.session i)
  traced : Trace cfg now i w₀ w

theorem Tracing.consuming {w₀ : World} (h : Tracing cfg now i w₀ w) (n : Nat) :
    Tracing cfg now i w₀ (w.update i (FrameLoop.consuming n)) := by
  refine ⟨by simpa using h.present, ?_, h.traced.trans (trace_input (input_same ⟨_, _, _, _, rfl⟩))⟩
  rw [session_update h.present]
  exact ⟨h.onWebsocket.settled, h.onWebsocket.websocket⟩

theorem tracing_round (cfg : ServerConfig) (now : Int) (i : Nat) (w₀ : World) :
    FrameLoop.Round cfg now i (fun _ _ => Tracing cfg now i w₀) fun _ => Trace cfg now i w₀ where
  halts h _ := h.traced
  packet {_ _ w w' frame n flow} h _ _ hp := by
    have hnext := h.consuming n
    have htrace := trace_processPacket cfg now hnext.present hnext.onWebsocket.settled frame.payload
    have hon := onWebsocket_processPacket cfg now hnext.present hnext.onWebsocket frame.payload
    rw [hp] at htrace hon
    have hall := hnext.traced.trans htrace
    exact ⟨fun _ => hall, fun _ => ⟨Trace.length htrace ▸ hnext.present, hon, hall⟩⟩
  close {_ _ w frame n} h _ _ := by
    have hnext := h.consuming n
    exact hnext.traced.trans (acts_trace (acts_endSession cfg now hnext.present))
  ping {_ _ w frame n} h _ _ := by
    have hnext := h.consuming n
    have hpong : IsReply ((w.update i (FrameLoop.consuming n)).session i).isWebsocket
        (WebsocketCodec.encodeFrame frame.payload 0x0A) := hnext.onWebsocket.websocket ▸ .pong _
    have hwrite : Acts cfg now i (w.update i (FrameLoop.consuming n)) _ :=
      acts_update hnext.present (.single (.write _ .ignored hnext.onWebsocket.settled hpong))
    refine ⟨by simpa using h.present, ?_, hnext.traced.trans (acts_trace hwrite)⟩
    rw [session_update hnext.present]
    exact ⟨hnext.onWebsocket.settled, hnext.onWebsocket.websocket⟩
  skip h _ _ _ _ := h.consuming _

theorem trace_frameLoop (cfg : ServerConfig) (now : Int) (fuel : Nat) (hi : i < w.mqtt.length)
    (hs : OnWebsocket (w.session i)) :
    Trace cfg now i w (w.frameLoop cfg now i fuel).1 :=
  @FrameLoop.Round.loop cfg now i w _ _ (tracing_round cfg now i w) [] fuel ⟨hi, hs, .refl⟩

theorem trace_processFrames (hi : i < w.mqtt.length) (hs : OnWebsocket (w.session i)) :
    Trace cfg now i w (w.processFrames cfg now i).1 := by
  have hloop := trace_frameLoop cfg now (w.session i).rxAcc.size hi hs
  rcases FrameLoop.processFrames_cases cfg now i w with he | he
  · rwa [he]
  · rw [he]
    exact hloop.trans ((trace_input (input_same ⟨_, _, _, _, rfl⟩)).trans (trace_continueReading _))

theorem trace_acceptHandshake (hi : i < w.mqtt.length) (hs : (w.session i).wsHandshakeDone = false)
    (headerEnd : Nat) (key : Bytes) : Trace cfg now i w (w.update i (acceptHandshake headerEnd key)) := by
  have hin : Trace cfg now i w (w.update i fun s =>
      { s with
        isWebsocket := true
        wsHandshakeDone := true
        rxAcc := (s.rxAcc.consume (headerEnd + 4)).compactIfNeeded 4096 }) :=
    trace_input (input_settle hs true _)
  have hw : Acts cfg now i _ (World.update i (asyncWrite (WebsocketCodec.generateHandshakeResponse
      (WebsocketCodec.computeAcceptKey key) (ascii "mqtt")) .ignored) _) :=
    acts_update (Trace.length hin ▸ hi) (by
      rw [session_update hi]
      exact .single (.write _ _ rfl (.handshake _)))
  rw [update_update hi] at hw
  exact hin.trans (acts_trace hw)

theorem trace_firstPacket (hi : i < w.mqtt.length) (hs : (w.session i).wsHandshakeDone = false) :
    Trace cfg now i w (w.firstPacket cfg now i).1 := by
  have hin : Trace cfg now i w (w.update i fun s => { s with wsHandshakeDone := true, isWebsocket := false }) :=
    trace_input (input_settle hs false _)
  have hp := trace_processPacket cfg now (Trace.length hin ▸ hi)
    (by rw [session_update hi])
    ((w.update i fun s => { s with wsHandshakeDone := true, isWebsocket := false }).session i).rxAcc.data
  refine hin.trans ?_
  unfold firstPacket
  dsimp only
  split
  · rename_i w1 he
    rwa [he] at hp
  · rename_i w1 he
    rw [he] at hp
    exact hp.trans ((trace_input (input_same ⟨_, _, _, _, rfl⟩)).trans (trace_continueReading _))

theorem trace_detectTransport (hi : i < w.mqtt.length) (hs : (w.session i).wsHandshakeDone = false) :
    Trace cfg now i w (w.detectTransport cfg now i).1 := by
  unfold detectTransport
  dsimp only
  split
  · split
    · exact trace_input (input_startReadLoop _)
    · split
      · refine (trace_acceptHandshake hi hs _ _).trans (trace_processFrames (by simpa using hi) ?_)
        rw [session_update hi]
        exact ⟨rfl, rfl⟩
      · exact acts_trace (acts_endSession cfg now hi)
  · exact trace_firstPacket hi hs

/-- The buffered read and what follows it, for a follower that asks for `P` of the session. -/
theorem trace_buffered (hi : i < w.mqtt.length) (data : Bytes) {next : World → World × Flow}
    {P : MqttSession → Prop} (hP : P { w.session i with rxAcc := (w.session i).rxAcc.append data })
    (hnext : ∀ {w}, i < w.mqtt.length → P (w.session i) → Trace cfg now i w (next w).1) :
    Trace cfg now i w (w.buffered cfg now i data next).1 := by
  have hin : Trace cfg now i w (w.update i fun s => { s with rxAcc := s.rxAcc.append data }) :=
    trace_input (input_same ⟨_, _, _, _, rfl⟩)
  have hi' := Trace.length hin ▸ hi
  refine hin.trans ?_
  unfold buffered
  dsimp only
  split
  · exact acts_trace (acts_endSession cfg now hi')
  · refine hnext hi' ?_
    rw [session_update hi]
    exact hP

theorem trace_onBytesRead (cfg : ServerConfig) (now : Int) (hi : i < w.mqtt.length) (data : Bytes) :
    Trace cfg now i w (w.onBytesRead cfg now i data).1 := by
  have hin : Trace cfg now i w (w.update i (recordRead data)) := trace_input (input_recordRead data _)
  have hi' := Trace.length hin ▸ hi
  refine hin.trans ?_
  unfold onBytesRead
  dsimp only
  split
  · rename_i hdone
    exact trace_buffered hi' data (P := fun s => s.wsHandshakeDone = false) (by simpa using hdone)
      trace_detectTransport
  · rename_i hdone
    have hdone : ((w.update i (recordRead data)).session i).wsHandshakeDone = true := by simpa using hdone
    split
    · rename_i hws
      exact trace_buffered hi' data (P := OnWebsocket) ⟨hdone, hws⟩ trace_processFrames
    · have hp := trace_processPacket cfg now hi' hdone data
      split
      · rename_i w1 he
        rwa [he] at hp
      · rename_i w1 he
        rw [he] at hp
        exact hp.trans (trace_continueReading _)

theorem trace_onWritten (hi : i < w.mqtt.length) (ok : Bool) (kind : WriteKind) :
    Trace cfg now i w (w.onWritten cfg now i ok kind).1 := by
  unfold onWritten
  split
  · split
    · exact .refl
    · exact acts_trace (acts_endSession cfg now hi)
  · exact acts_trace (acts_endSession cfg now hi)
  · exact .refl

/-! The completions of a session. -/

def readDone (s : MqttSession) : MqttSession := { s with tcp := { s.tcp with reads := s.tcp.reads.erase true } }

def readDropped (s : MqttSession) : MqttSession := { s with tcp := { s.tcp with reads := s.tcp.reads.tail } }

def waitDone (s : MqttSession) : MqttSession := { s with tcp := { s.tcp with waits := s.tcp.waits - 1 } }

def writeDone (k : Nat) (s : MqttSession) : MqttSession := { s with writes := s.writes.filter fun x => x.1 ≠ k }

/-- What each completion comes to. -/
inductive Completed (cfg : ServerConfig) (now : Int) (i : Nat) (w : World) : MqttEvent → World → Prop
  | read {data : Bytes} : true ∈ (w.session i).tcp.reads → data ≠ [] → data.length ≤ 4096 →
      Completed cfg now i w (.read data) ((w.update i readDone).onBytesRead cfg now i data).1
  | readFailed : (w.session i).tcp.reads ≠ [] →
      Completed cfg now i w .readFailed ((w.update i readDropped).endSession cfg now i).1
  | idleExpired : (w.session i).tcp.waits ≠ 0 →
      Completed cfg now i w .idleExpired ((w.update i waitDone).endSession cfg now i).1
  | waitCanceled : (w.session i).tcp.waits ≠ 0 → Completed cfg now i w .waitCanceled (w.update i waitDone)
  | transferred {k n : Nat} : (w.session i).tcp.closed = false → (w.session i).out.CanTransfer k n →
      Completed cfg now i w (.transferred k n) (w.update i fun s => { s with out := s.out.transfer k n })
  | written {k : Nat} {ok : Bool} {kind : WriteKind} :
      (w.session i).writes.find? (fun x => x.1 = k) = some (k, kind) →
      Completed cfg now i w (.written k ok) ((w.update i (writeDone k)).onWritten cfg now i ok kind).1

theorem onMqtt_cases {e : MqttEvent} (h : w.onMqtt cfg now i (w.session i) e = some w') :
    Completed cfg now i w e w' := by
  cases e with
  | read data =>
    simp only [onMqtt] at h
    split at h
    · rename_i hc
      obtain rfl := Option.some.inj h
      exact .read hc.1 hc.2.1 hc.2.2
    · cases h
  | readFailed =>
    simp only [onMqtt] at h
    split at h
    · cases h
    · rename_i hc
      obtain rfl := Option.some.inj h
      exact .readFailed hc
  | idleExpired =>
    simp only [onMqtt] at h
    split at h
    · cases h
    · rename_i hc
      obtain rfl := Option.some.inj h
      exact .idleExpired hc
  | waitCanceled =>
    simp only [onMqtt] at h
    split at h
    · cases h
    · rename_i hc
      obtain rfl := Option.some.inj h
      exact .waitCanceled hc
  | transferred k n =>
    simp only [onMqtt] at h
    split at h
    · rename_i hc
      obtain rfl := Option.some.inj h
      exact .transferred hc.1 hc.2.2
    · cases h
  | written k ok =>
    simp only [onMqtt] at h
    split at h
    · cases h
    · rename_i k' kind hfind
      split at h
      · cases h
      · obtain rfl := Option.some.inj h
        obtain rfl : k' = k := by simpa using List.find?_some hfind
        exact .written hfind

/-- An event on a session is a trace, or a transfer that changes the session's writes alone. -/
theorem trace_onMqtt {s : MqttSession} {e : MqttEvent} (hs : w.mqtt[i]? = some s)
    (h : w.onMqtt cfg now i s e = some w') :
    Trace cfg now i w w' ∨ ∃ k n, e = .transferred k n ∧ s.tcp.closed = false ∧ s.out.CanTransfer k n ∧
      w' = w.setSession i { s with out := s.out.transfer k n } := by
  obtain ⟨rfl, hi⟩ := session_of_get hs
  have kept {f : MqttSession → MqttSession} (hf : Input (w.session i) (f (w.session i))) :
      i < (w.update i f).mqtt.length ∧ Trace cfg now i w (w.update i f) := ⟨by simpa using hi, trace_input hf⟩
  cases onMqtt_cases h with
  | @read data =>
    obtain ⟨hi', htrace⟩ := kept (f := readDone) (input_same ⟨_, _, _, _, rfl⟩)
    exact .inl (htrace.trans (trace_onBytesRead cfg now hi' data))
  | readFailed =>
    obtain ⟨hi', htrace⟩ := kept (f := readDropped) (input_same ⟨_, _, _, _, rfl⟩)
    exact .inl (htrace.trans (acts_trace (acts_endSession cfg now hi')))
  | idleExpired =>
    obtain ⟨hi', htrace⟩ := kept (f := waitDone) (input_same ⟨_, _, _, _, rfl⟩)
    exact .inl (htrace.trans (acts_trace (acts_endSession cfg now hi')))
  | waitCanceled => exact .inl (kept (input_same ⟨_, _, _, _, rfl⟩)).2
  | transferred hopen hn => exact .inr ⟨_, _, rfl, hopen, hn, rfl⟩
  | @written k ok kind =>
    obtain ⟨hi', htrace⟩ := kept (f := writeDone k) (input_same ⟨_, _, _, _, rfl⟩)
    exact .inl (htrace.trans (trace_onWritten hi' ok kind))

/-- Closing a session adds none and takes none away. -/
@[simp] theorem length_closeSession (cfg : ServerConfig) (now : Int) (i : Nat) (w : World) :
    (w.closeSession cfg now i).1.mqtt.length = w.mqtt.length := Acts.length (acts_closeSession cfg now i w)

theorem endSession_cases (cfg : ServerConfig) (now : Int) (i : Nat) (w : World) :
    (w.endSession cfg now i).1 = (w.closeSession cfg now i).1 ∨
      (w.endSession cfg now i).1 = (w.closeSession cfg now i).1.update i unlist := by
  unfold endSession
  split
  · rename_i he
    rw [he]
    exact .inl rfl
  · rename_i he
    rw [he]
    exact .inr rfl

end LightApr.Server
