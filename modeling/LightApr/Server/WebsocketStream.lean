import LightApr.Server.PlainFraming

/-! How a WebSocket session cuts its stream into packets: at the ends of text and binary
frames. -/
namespace LightApr.Server.WebsocketStream
open LightApr.Core Lib Lib.Framing Mqtt MqttSession World Receiving PlainFraming FrameStream

variable {s : MqttSession} {cap : Nat}

/-- The WebSocket frames that have arrived on a session. -/
def arrivedFrames (s : MqttSession) : List WebsocketCodec.WsFrame :=
  arrived ((frameStream s.received.flatten).getD [])

/-- An open WebSocket session has handled the text and binary frames that have arrived. -/
theorem handled_eq_packets (h : Stage cap s) (hws : s.isWebsocket = true) (hopen : s.tcp.closed = false)
    (hgoing : s.closing = false) : s.handled = packets (arrivedFrames s) := by
  cases h with
  | undecided _ hw => exact nomatch hws.symm.trans hw
  | plain h => exact nomatch hws.symm.trans h.plain
  | websocket _ _ hcut hrest =>
    obtain ⟨raws, hp, hh⟩ := hcut.peels
    have hstuck : framer.Stuck s.rxAcc.data := by
      rcases hrest with h | h | h
      · exact nomatch hopen.symm.trans h
      · exact nomatch hgoing.symm.trans h
      · exact h
    rw [hh, arrivedFrames, hcut.received, Option.getD_some, arrived_eq hp hstuck]

/-- **As long as a WebSocket session is open, what it has handled are those of the client's
packets that have arrived completely in its data frames, exactly if the text and binary
frames with a payload hold these packets, one each, and the continuation frames together are
shorter than the packet that comes next.** -/
theorem websocket_packets_handled_iff (cfg : ServerConfig) {es : List World.Event} {w : World}
    (hrun : (machine cfg).Reaches (init cfg) es w) {i : Nat} {s : MqttSession} (hs : w.mqtt[i]? = some s)
    (hws : s.isWebsocket = true) (hopen : s.tcp.closed = false) (hgoing : s.closing = false)
    {pieces : List Bytes} (hin : List.IsPrefix (data (arrivedFrames s)) pieces.flatten) :
    s.handled = complete pieces (data (arrivedFrames s)) ↔
      List.IsPrefix (packets (arrivedFrames s)) pieces ∧
        ∀ p, pieces[(packets (arrivedFrames s)).length]? = some p →
          (continued (arrivedFrames s)).length < p.length := by
  have hlen := length_data (arrivedFrames s)
  rw [handled_eq_packets (stage_run hrun i s hs) hws hopen hgoing,
    taken_eq_complete_iff hin (hlen ▸ Nat.le_add_right _ _), hlen]
  simp only [Nat.add_lt_add_iff_left]

private def pingPacket : Bytes := [0xC0, 0x00]

private theorem clientPackets_ping : ClientPackets [connectPacket, pingPacket] := by
  refine ⟨fun p hp => ?_, fun p hp => ?_⟩
  · rcases List.mem_pair.mp hp with rfl | rfl
    · exact ⟨0x10, connectPacket.drop 2, by decide +kernel, by decide⟩
    · exact ⟨0xC0, [], by decide +kernel, by decide⟩
  · obtain rfl := Option.some.inj hp
    decide

private def run (frames : List Bytes) : List World.Event := clientSends (upgradeRequest :: frames)

private def after (frames : List Bytes) : World :=
  ((machine oneListener).exec (init oneListener) (run frames)).getD (init oneListener)

/-- The run carries the frames, and `handled` is what the session gets out of them. -/
private abbrev Carries (frames handled : List Bytes) : Prop :=
  ((machine oneListener).exec (init oneListener) (run frames)).isSome = true ∧
    0 < (after frames).mqtt.length ∧ ((after frames).session 0).isWebsocket = true ∧
    ((after frames).session 0).tcp.closed = false ∧ ((after frames).session 0).closing = false ∧
    binaryMessages false (arrivedFrames ((after frames).session 0)) = true ∧
    data (arrivedFrames ((after frames).session 0)) = [connectPacket, pingPacket].flatten ∧
    packets (arrivedFrames ((after frames).session 0)) = handled ∧ ((after frames).session 0).handled = handled

private theorem reaches_after {frames handled : List Bytes} (h : Carries frames handled) :
    (machine oneListener).Reaches (init oneListener) (run frames) (after frames) :=
  (machine oneListener).reaches_exec h.1

private theorem carries_separately :
    Carries [clientFrame connectPacket, clientFrame pingPacket] [connectPacket, pingPacket] := by decide +kernel

private theorem carries_jointly :
    Carries [clientFrame (connectPacket ++ pingPacket)] [connectPacket ++ pingPacket] := by decide +kernel

/-- CONNECT and PINGREQ in frames of their own are handled. -/
theorem connect_and_ping_frames_handled :
    ((after [clientFrame connectPacket, clientFrame pingPacket]).session 0).handled =
      [connectPacket, pingPacket] := by
  obtain ⟨-, hi, hws, hopen, hgoing, -, hdata, hpackets, -⟩ := carries_separately
  have hin : List.IsPrefix
    (data (arrivedFrames ((after [clientFrame connectPacket, clientFrame pingPacket]).session 0)))
      [connectPacket, pingPacket].flatten := hdata ▸ List.prefix_rfl
  have h := websocket_packets_handled_iff oneListener (reaches_after carries_separately) (session_eq hi)
    hws hopen hgoing hin
  rw [hpackets] at h
  refine (h.mpr ⟨List.prefix_rfl, fun p hp => ?_⟩).trans ?_
  · cases hp
  · rw [hdata]
    decide

/-- CONNECT and PINGREQ in one binary frame are handled as one packet. -/
theorem connect_and_ping_in_one_frame : ¬ ∀ (cfg : ServerConfig) (es : List World.Event) (w : World),
    (machine cfg).Reaches (init cfg) es w → ∀ (i : Nat) (s : MqttSession), w.mqtt[i]? = some s →
      s.isWebsocket = true → s.tcp.closed = false → s.closing = false →
      binaryMessages false (arrivedFrames s) = true → ∀ pieces, ClientPackets pieces →
        List.IsPrefix (data (arrivedFrames s)) pieces.flatten →
        s.handled = complete pieces (data (arrivedFrames s)) := by
  intro h
  obtain ⟨-, hi, hws, hopen, hgoing, hmessages, hdata, -, hhandled⟩ := carries_jointly
  have hall := h oneListener _ _ (reaches_after carries_jointly) 0 _ (session_eq hi) hws hopen hgoing
    hmessages _ clientPackets_ping (hdata ▸ List.prefix_rfl)
  exact absurd (hhandled.symm.trans (hall.trans (congrArg (complete _) hdata))) (by decide)

end LightApr.Server.WebsocketStream
