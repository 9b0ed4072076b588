import LightApr.Server.Receiving

/-! How a plain session cuts its stream into packets: at the ends of the reads. -/
namespace LightApr.Server.PlainFraming
open LightApr.Core Lib Lib.Framing Mqtt MqttSession World Receiving

variable {s : MqttSession} {cap : Nat}

/-- The first byte is that of an upgrade request. -/
def AsksUpgrade (s : MqttSession) : Prop :=
  s.received.flatten.head? = some 0x47 ∨ s.received.flatten.head? = some 0x67

/-! The packets of a client. -/

/-- A control packet: a fixed header whose remaining length is that of the body. -/
def WellFormed (packet : Bytes) : Prop := ∃ header body,
  packet = header :: (Packet.encodeRemainingLength body.length ++ body) ∧ body.length ≤ 268435455

/-- What a client sends: control packets, a CONNECT first. -/
structure ClientPackets (packets : List Bytes) : Prop where
  wellFormed : ∀ p ∈ packets, WellFormed p
  connect : ∀ p ∈ packets.head?, p.headD 0 &&& 0xF0 = Packet.connect

theorem ClientPackets.ne_nil {packets : List Bytes} (h : ClientPackets packets) : ∀ p ∈ packets, p ≠ [] := by
  intro p hp
  obtain ⟨header, body, rfl, -⟩ := h.wellFormed p hp
  exact List.cons_ne_nil _ _

/-- A CONNECT does not begin like an upgrade request. -/
theorem ClientPackets.not_upgrade {packets : List Bytes} (h : ClientPackets packets)
    (hin : List.IsPrefix s.received.flatten packets.flatten) : ¬ AsksUpgrade s := by
  intro hu
  obtain ⟨more, hm⟩ := hin
  have hhead : packets.flatten.head? = some 0x47 ∨ packets.flatten.head? = some 0x67 := by
    rw [← hm, List.head?_append]
    rcases hu with hu | hu
    · exact .inl (by rw [hu]; rfl)
    · exact .inr (by rw [hu]; rfl)
  cases packets with
  | nil => exact absurd hhead (by decide)
  | cons p packets =>
    have hc := h.connect p rfl
    obtain ⟨header, body, rfl, -⟩ := h.wellFormed p (List.mem_cons_self ..)
    change header &&& 0xF0 = Packet.connect at hc
    rcases hhead with hhead | hhead
    · obtain rfl := Option.some.inj hhead
      exact absurd hc (by decide)
    · obtain rfl := Option.some.inj hhead
      exact absurd hc (by decide)

theorem asksUpgrade (h : Asks s) : AsksUpgrade s := by
  obtain ⟨first, hf, hask⟩ := h
  obtain ⟨more, hr⟩ := List.head?_eq_some_iff.mp hf
  unfold AsksUpgrade
  rw [hr, List.flatten_cons]
  rcases isHandshake_iff.mp hask with ⟨rest, rfl⟩ | ⟨rest, rfl⟩
  · exact .inl rfl
  · exact .inr rfl

/-- An open session that has read a part of a client's packets has handled its reads. -/
theorem handled_eq_received (h : Stage cap s) (hopen : s.tcp.closed = false) {packets : List Bytes}
    (hp : ClientPackets packets) (hin : List.IsPrefix s.received.flatten packets.flatten) :
    s.handled = s.received := by
  cases h with
  | undecided _ _ _ hh hr =>
    rcases hr with hr | hask | ⟨-, hc⟩
    · rw [hr, hh]
    · exact absurd (asksUpgrade hask) (hp.not_upgrade hin)
    · exact nomatch hopen.symm.trans hc
  | plain h => exact h.handled
  | websocket _ hask => exact absurd (asksUpgrade hask) (hp.not_upgrade hin)

/-- **As long as a session is open, the packets it has handled are those of the client's
packets that have arrived completely, exactly if its reads are these packets, one in each
read.** -/
theorem packets_handled_iff (cfg : ServerConfig) {es : List World.Event} {w : World}
    (hrun : (machine cfg).Reaches (init cfg) es w) {i : Nat} {s : MqttSession} (hs : w.mqtt[i]? = some s)
    (hopen : s.tcp.closed = false) {packets : List Bytes} (hp : ClientPackets packets)
    (hin : List.IsPrefix s.received.flatten packets.flatten) :
    s.handled = complete packets s.received.flatten ↔ List.IsPrefix s.received packets := by
  rw [handled_eq_received (stage_run hrun i s hs) hopen hp hin]
  exact eq_complete_iff hp.ne_nil

private def subscribeAll : Bytes := subscribePacket (ascii "#")

private theorem clientPackets_subscribe : ClientPackets [connectPacket, subscribeAll] := by
  refine ⟨fun p hp => ?_, fun p hp => ?_⟩
  · rcases List.mem_pair.mp hp with rfl | rfl
    · exact ⟨0x10, connectPacket.drop 2, by decide +kernel, by decide⟩
    · exact ⟨0x82, subscribeAll.drop 2, by decide +kernel, by decide⟩
  · obtain rfl := Option.some.inj hp
    decide

private def after (reads : List Bytes) : World :=
  ((machine oneListener).exec (init oneListener) (clientSends reads)).getD (init oneListener)

private theorem reaches_separate : (machine oneListener).Reaches (init oneListener)
    (clientSends [connectPacket, subscribeAll]) (after [connectPacket, subscribeAll]) :=
  (machine oneListener).reaches_exec (by decide +kernel)

/-- CONNECT and SUBSCRIBE in reads of their own are handled. -/
theorem connect_then_subscribe_handled :
    ((after [connectPacket, subscribeAll]).session 0).handled = [connectPacket, subscribeAll] := by
  have h := packets_handled_iff oneListener (i := 0)
    reaches_separate
    (session_eq (by decide +kernel)) (by decide +kernel) clientPackets_subscribe (by decide +kernel)
  exact (h.mpr (by decide +kernel)).trans (by decide +kernel)

/-- CONNECT and SUBSCRIBE in one read are handled as one packet. -/
theorem connect_and_subscribe_handled_as_one : ¬ ∀ (cfg : ServerConfig) (es : List World.Event) (w : World),
    (machine cfg).Reaches (init cfg) es w → ∀ (i : Nat) (s : MqttSession), w.mqtt[i]? = some s →
      s.tcp.closed = false → ∀ packets, ClientPackets packets → List.IsPrefix s.received.flatten packets.flatten →
        s.handled = complete packets s.received.flatten := by
  intro h
  have hall := h oneListener (clientSends [connectPacket ++ subscribeAll]) _
    ((machine oneListener).reaches_exec (by decide +kernel)) 0 _ (session_eq (by decide +kernel))
    (by decide +kernel) _ clientPackets_subscribe (by decide +kernel)
  exact absurd hall (by decide +kernel)

end LightApr.Server.PlainFraming
