import LightApr.Server.Effect

/-! One broadcast of a listener, as its loop over `sessions_` runs: packets go out as they
are, and one frame built on first use is shared by all WebSocket sessions. -/
namespace LightApr.Server
open LightApr.Core Lib Mqtt MqttSession WebsocketCodec

/-- `send_raw(data, already_framed)` -/
def sendRawShared (data : Bytes) (alreadyFramed : Bool) (s : MqttSession) : MqttSession :=
  s.asyncWrite (if s.isWebsocket && !alreadyFramed then encodeFrame data 0x02 else data) .reply

def recordBroadcast (topic payload : Bytes) (s : MqttSession) : MqttSession :=
  { s with broadcasts := s.broadcasts ++ [(topic, payload)] }

namespace World

/-- The listener's `sessions_`. -/
def sessionsOf (server : Nat) (w : World) : List Nat :=
  (List.range w.mqtt.length).filter fun i => (w.session i).listed && decide ((w.session i).server = server)

/-- The loop over the sessions; `wsFramed` is the shared frame, once there is one. -/
def broadcastLoop (topic payload packet : Bytes) : List Nat → Option Bytes → World → World
  | [], _, w => w
  | i :: rest, wsFramed, w =>
    if !(w.session i).matchesTopic topic then broadcastLoop topic payload packet rest wsFramed w
    else if (w.session i).isWebsocket then
      let frame := wsFramed.getD (encodeFrame packet 0x02)
      broadcastLoop topic payload packet rest (some frame)
        (w.update i fun s => sendRawShared frame true (recordBroadcast topic payload s))
    else
      broadcastLoop topic payload packet rest wsFramed
        (w.update i fun s => sendRawShared packet false (recordBroadcast topic payload s))

/-- `order`: the order in which the set of sessions is visited. -/
def broadcastShared (order : MapOrder) (server : Nat) (topic payload : Bytes) (w : World) : World :=
  broadcastLoop topic payload (Packet.encodePublish topic payload 0 0) (order.order (w.sessionsOf server)) none w

end World

/-! One session. -/

/-- What the loop does to a session it visits: the framing of `send_raw`, or the shared one. -/
def visited (topic payload packet : Bytes) (s : MqttSession) : MqttSession :=
  if s.matchesTopic topic then (recordBroadcast topic payload s).sendRaw packet else s

theorem sendRawShared_plain (data : Bytes) (s : MqttSession) : sendRawShared data false s = s.sendRaw data := by
  simp [sendRawShared, sendRaw, framed]

/-- The shared frame is the frame `send_raw` would have built. -/
theorem sendRawShared_framed (data : Bytes) {s : MqttSession} (h : s.isWebsocket = true) :
    sendRawShared (encodeFrame data 0x02) true s = s.sendRaw data := by
  simp [sendRawShared, sendRaw, framed, h]

namespace World
variable {w : World} {wsFramed : Option Bytes} {visits : List Nat} (topic payload packet : Bytes)

private theorem broadcastLoop_cons (i : Nat) (visits : List Nat) (w : World)
    (hframe : ∀ frame ∈ wsFramed, frame = encodeFrame packet 0x02) :
    ∃ wsFramed', (∀ frame ∈ wsFramed', frame = encodeFrame packet 0x02) ∧
      broadcastLoop topic payload packet (i :: visits) wsFramed w =
        broadcastLoop topic payload packet visits wsFramed' (w.update i (visited topic payload packet)) := by
  have hget : wsFramed.getD (encodeFrame packet 0x02) = encodeFrame packet 0x02 := by
    cases wsFramed with
    | none => rfl
    | some frame => exact hframe frame rfl
  have hupdate {f : MqttSession → MqttSession}
      (h : f (w.session i) = visited topic payload packet (w.session i)) :
      w.update i f = w.update i (visited topic payload packet) := congrArg (fun s => w.setSession i s) h
  rw [broadcastLoop, hget]
  dsimp only
  split
  · rename_i hno
    refine ⟨wsFramed, hframe, ?_⟩
    have hsame : w.update i (visited topic payload packet) = w.update i id := by
      refine congrArg (fun s => w.setSession i s) ?_
      rw [visited, if_neg (by simpa using hno)]
      rfl
    rw [hsame, update, setSession, id, set_session_self]
  · rename_i hmatch
    have hmatch : (w.session i).matchesTopic topic = true := by simpa using hmatch
    split
    · rename_i hws
      refine ⟨some (encodeFrame packet 0x02), fun _ h => (Option.some.inj h).symm, ?_⟩
      rw [hupdate]
      rw [visited, if_pos hmatch]
      exact sendRawShared_framed packet hws
    · refine ⟨wsFramed, hframe, ?_⟩
      rw [hupdate]
      rw [visited, if_pos hmatch, sendRawShared_plain]

/-- The loop visits each session once, and no visit sees another. -/
theorem broadcastLoop_get (hframe : ∀ frame ∈ wsFramed, frame = encodeFrame packet 0x02) (hnodup : visits.Nodup)
    (hin : ∀ i ∈ visits, i < w.mqtt.length) (j : Nat) :
    (broadcastLoop topic payload packet visits wsFramed w).mqtt[j]? =
      (w.mqtt[j]?).map fun s => if j ∈ visits then visited topic payload packet s else s := by
  induction visits generalizing w wsFramed with
  | nil => simp [broadcastLoop]
  | cons i rest ih =>
    obtain ⟨hni, hnodup⟩ := List.nodup_cons.mp hnodup
    have hi : i < w.mqtt.length := hin i (by simp)
    obtain ⟨wsFramed', hframe', he⟩ :=
      broadcastLoop_cons topic payload packet i rest w hframe
    have hrest : ∀ k ∈ rest, k < (w.update i (visited topic payload packet)).mqtt.length := by
      intro k hk
      rw [length_update]
      exact hin k (List.mem_cons_of_mem _ hk)
    rw [he, ih hframe' hnodup hrest, update, get_setSession _ hi]
    by_cases hj : i = j
    · subst hj
      simp [session_eq hi, hni]
    · have hne : j ≠ i := fun h => hj h.symm
      simp [hj, hne]

theorem broadcastLoop_shared (visits : List Nat) (wsFramed : Option Bytes) (w : World) :
    (broadcastLoop topic payload packet visits wsFramed w).shared = w.shared ∧
      (broadcastLoop topic payload packet visits wsFramed w).http = w.http := by
  induction visits generalizing w wsFramed with
  | nil => exact ⟨rfl, rfl⟩
  | cons i rest ih =>
    rw [broadcastLoop]
    split
    · exact ih _ _
    · split
      · exact ih _ _
      · exact ih _ _

theorem mem_sessionsOf {server i : Nat} : i ∈ w.sessionsOf server ↔
    i < w.mqtt.length ∧ (w.session i).listed = true ∧ (w.session i).server = server := by
  simp [sessionsOf]

/-- **The loop with its shared frame does what delivering to every session of the listener
by `send_raw` does, in whatever order it visits them.** -/
theorem broadcastShared_eq (order : MapOrder) (server : Nat) (topic payload : Bytes) (w : World) :
    w.broadcastShared order server topic payload = w.broadcast server topic payload := by
  have hperm := order.perm (w.sessionsOf server)
  have hnone : ∀ frame ∈ (none : Option Bytes),
      frame = encodeFrame (Packet.encodePublish topic payload 0 0) 0x02 := nofun
  have hget := broadcastLoop_get (w := w) topic payload (Packet.encodePublish topic payload 0 0) hnone
    (hperm.nodup_iff.mpr (List.nodup_range.filter _)) fun i hi => (mem_sessionsOf.mp (hperm.mem_iff.mp hi)).1
  have hmqtt : (w.broadcastShared order server topic payload).mqtt =
      (w.broadcast server topic payload).mqtt := by
    apply List.ext_getElem?
    intro j
    rw [broadcastShared, hget, broadcast, List.getElem?_map]
    cases hs : w.mqtt[j]? with
    | none => rfl
    | some s =>
      obtain ⟨rfl, hj⟩ := session_of_get hs
      have hmem : j ∈ order.order (w.sessionsOf server) ↔
          (w.session j).listed = true ∧ (w.session j).server = server := by
        rw [hperm.mem_iff, mem_sessionsOf]
        exact ⟨fun h => h.2, fun h => ⟨hj, h⟩⟩
      simp only [Option.map_some, hmem, deliver, visited, recordBroadcast]
      split
      · rename_i h
        simp [h]
      · rename_i h
        rw [if_neg fun hc => h ⟨hc.1, hc.2.1⟩]
  obtain ⟨hshared, hhttp⟩ :=
    broadcastLoop_shared topic payload (Packet.encodePublish topic payload 0 0)
      (order.order (w.sessionsOf server)) none w
  generalize hl : w.broadcastShared order server topic payload = l at hmqtt
  rw [broadcastShared] at hl
  rw [hl] at hshared hhttp
  cases l
  simp_all [broadcast]

end World

/-! What each session is sent. -/

/-- Some filter of the session matches the topic, and the listener still lists it. -/
def Receives (server : Nat) (topic : Bytes) (s : MqttSession) : Prop :=
  s.listed = true ∧ s.server = server ∧ ∃ pat ∈ s.subscriptions, Topic.topicMatches pat topic = true

/-- One buffer more: the packet itself, or one binary frame that decodes to it. -/
structure SentOnce (packet : Bytes) (s s' : MqttSession) : Prop where
  perSession : s'.out = (s.sendRaw packet).out
  one : s'.out.buffers = s.out.buffers ++ [s.framed packet]
  plain : s.isWebsocket = false → s.framed packet = packet
  websocket : s.isWebsocket = true →
    decodeFrame (s.framed packet) = .frame ⟨0x02, true, packet⟩ (s.framed packet).length

theorem sentOnce (topic payload : Bytes) {packet : Bytes} (s : MqttSession)
    (hsize : (encodeFrame packet 0x02).length < sizeMax) :
    SentOnce packet s ({ s with broadcasts := s.broadcasts ++ [(topic, payload)] }.sendRaw packet) where
  perSession := rfl
  one := rfl
  plain hws := by simp [framed, hws]
  websocket hws := by
    have hd := decodeFrame_encodeFrame packet 0x02 [] hsize
    rw [List.append_nil, show (0x02 : UInt8) &&& 0x0F = 0x02 by decide] at hd
    simpa [framed, hws] using hd

theorem receives_iff {server : Nat} {topic : Bytes} {s : MqttSession} :
    Receives server topic s ↔ s.listed ∧ s.server = server ∧ s.matchesTopic topic := by
  simp [Receives, matchesTopic]

/-- **A broadcast queues exactly one buffer to each session of the listener with a filter
that matches the topic, the same that `send_raw` would frame for it alone, and nothing to
any other session.** -/
theorem broadcastShared_sends (order : MapOrder) (server : Nat) (topic payload : Bytes) (w : World)
    (hsize : (encodeFrame (Packet.encodePublish topic payload 0 0) 0x02).length < sizeMax) :
    (w.broadcastShared order server topic payload).mqtt.length = w.mqtt.length ∧
      ∀ (i : Nat) (s : MqttSession), w.mqtt[i]? = some s →
        ∃ s', (w.broadcastShared order server topic payload).mqtt[i]? = some s' ∧
          (Receives server topic s → SentOnce (Packet.encodePublish topic payload 0 0) s s') ∧
          (¬ Receives server topic s → s' = s) := by
  rw [World.broadcastShared_eq]
  refine ⟨List.length_map .., fun i s hs => ?_⟩
  refine ⟨s.deliver server topic payload, by rw [World.broadcast, List.getElem?_map, hs]; rfl, ?_, ?_⟩
  · intro h
    rw [deliver, if_pos (receives_iff.mp h)]
    exact sentOnce topic payload s hsize
  · intro h
    rw [deliver, if_neg fun hc => h (receives_iff.mpr hc)]

/-- A WebSocket session with two matching filters. -/
private def viewer : MqttSession :=
  { MqttSession.new 0 [] none with isWebsocket := true, subscriptions := [ascii "app/+", ascii "#"] }

private def audience : World := ⟨⟨.empty, .empty⟩, [MqttSession.new 0 [] none, viewer], []⟩

theorem viewer_sent : ∃ s', (audience.broadcastShared .written 0 (ascii "app/x") (ascii "hi")).mqtt[1]? = some s' ∧
    SentOnce (Packet.encodePublish (ascii "app/x") (ascii "hi") 0 0) viewer s' := by
  obtain ⟨s', hs', hsent, -⟩ :=
    (broadcastShared_sends .written 0 (ascii "app/x") (ascii "hi") audience (by decide +kernel)).2 1 viewer rfl
  exact ⟨s', hs', hsent ⟨rfl, rfl, ascii "app/+", by simp [viewer], by decide +kernel⟩⟩

end LightApr.Server
