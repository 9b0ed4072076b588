import LightApr.Server.SingleRefusal

/-! However a stream is divided into reads, a WebSocket session takes the same frames from it. -/
namespace LightApr.Server.FrameDivision
open LightApr.Core Lib Lib.Framing Mqtt MqttSession World FrameStream Receiving FrameLoop WebsocketCodec Refusal

variable {cfg : ServerConfig} {s t : MqttSession} {frames more : List WsFrame} {stream packet : Bytes} {cap : Nat}
  {raws raws' : List Bytes} {rest : Bytes}

/-- Every piece that is cut off a stream is a frame. -/
theorem length_readFrames (h : framer.Peels stream raws rest) : (raws.filterMap readFrame).length = raws.length := by
  induction h with
  | done => rfl
  | next hc _ ih =>
    simp only [framer] at hc
    split at hc
    · rename_i f n hd
      obtain rfl := Option.some.inj hc
      rw [List.filterMap_cons_some (readFrame_take hd), List.length_cons, List.length_cons, ih]
    · cases hc
    · cases hc

theorem ne_nil_of_refuses {accessKey : Bytes} (h : refuses accessKey packet = true) : packet ≠ [] := by
  rintro rfl
  rw [refuses, List.headD_nil] at h
  exact absurd h (by simp [Packet.connect])

/-- The packet of the last frame is among the packets. -/
theorem mem_packets_of_carried (h : Carried (frames ++ more) packet) (hne : packet ≠ []) (hmore : more ≠ []) :
    packet ∈ packets more := by
  obtain ⟨front, frame, hf, hop, hpayload⟩ := h
  obtain ⟨init, last, rfl⟩ : ∃ init last, more = init ++ [last] :=
    ⟨more.dropLast, more.getLast hmore, (List.dropLast_concat_getLast hmore).symm⟩
  rw [← List.append_assoc] at hf
  obtain ⟨-, hlast⟩ := List.append_inj' hf rfl
  obtain rfl := List.singleton_inj.mp hlast
  rw [packets_snoc]
  refine List.mem_append_right _
    (List.mem_map.mpr ⟨last, List.mem_filter.mpr ⟨List.mem_singleton_self _, ?_⟩, hpayload⟩)
  exact decide_eq_true ⟨hop, hpayload ▸ hne⟩

/-- After a refused CONNECT no frame is taken, in any division. -/
theorem none_after_refused {accessKey : Bytes} (hs : Refused accessKey frames s)
    (ht : Kept accessKey (frames ++ more) t)
    (hwst : t.isWebsocket = true) (hhandled : s.handled = packets frames) : more = [] := by
  by_contra hmore
  obtain ⟨before, packet, hlast, hyes, -, -⟩ := hs.last
  have hmem : packet ∈ packets frames := by
    rw [← hhandled, hlast]
    exact List.mem_append_right _ (List.mem_singleton_self _)
  have hsplit : t.handled = packets frames ++ packets more := by
    rw [(ht.peeled hwst).handled, packets, List.filter_append, List.map_append]
    rfl
  rcases ht.standing.judged with hg | hr
  · have hno := hg.handled packet (hsplit ▸ List.mem_append_left _ hmem)
    cases hno.symm.trans hyes
  · obtain ⟨before', packet', hlast', hyes', hno', hcarried⟩ := hr.last
    have hmem' := mem_packets_of_carried (hcarried hwst) (ne_nil_of_refuses hyes') hmore
    obtain ⟨init, last, hpackets⟩ : ∃ init last, packets more = init ++ [last] := by
      have hne := List.ne_nil_of_mem hmem'
      exact ⟨_, _, (List.dropLast_concat_getLast hne).symm⟩
    rw [hlast', hpackets, ← List.append_assoc] at hsplit
    obtain ⟨hbefore, -⟩ := List.append_inj' hsplit rfl
    have hno := hno' packet (hbefore ▸ List.mem_append_left _ hmem)
    cases hno.symm.trans hyes

/-- An open session that has cut less off the stream than another has cut off as much. -/
theorem frames_eq_of_le {framesT : List WsFrame} (hks : Kept cfg.accessKey frames s)
    (hkt : Kept cfg.accessKey framesT t) (hstage : Stage cap s) (hws : s.isWebsocket = true)
    (hopen : s.tcp.closed = false)
    (hwst : t.isWebsocket = true) (hp : framer.Peels stream raws s.rxAcc.data)
    (hp' : framer.Peels stream raws' t.rxAcc.data) (hframes : raws.filterMap readFrame = frames)
    (hframes' : raws'.filterMap readFrame = framesT) (hle : raws <+: raws') : raws = raws' := by
  have hrest : Rests s := by
    cases hstage with
    | undecided _ hw => cases hws.symm.trans hw
    | plain h => cases hws.symm.trans h.plain
    | websocket _ _ _ hrest => exact hrest
  obtain ⟨extra, rfl⟩ := hle
  rcases hrest with hclosed | hclosing | hstuck
  · cases hopen.symm.trans hclosed
  · have hr : Refused cfg.accessKey frames s := by
      rcases hks.standing.judged with hg | hr
      · cases hg.going.symm.trans hclosing
      · exact hr
    have hsplit : framesT = frames ++ extra.filterMap readFrame := by
      rw [← hframes', List.filterMap_append, hframes]
    have hnone : extra.filterMap readFrame = [] :=
      none_after_refused hr (hsplit ▸ hkt) hwst (hks.peeled hws).handled
    have hlen := length_readFrames hp
    have hlen' := length_readFrames hp'
    rw [List.filterMap_append, List.length_append, List.length_append, hnone, hlen, List.length_nil] at hlen'
    rw [List.eq_nil_of_length_eq_zero (by omega : extra.length = 0), List.append_nil]
  · exact List.IsPrefix.eq_of_length_le (List.prefix_append _ _) (hp'.le_stuck hp hstuck).length_le

/-- Two open WebSocket sessions have taken the same frames from one stream. -/
theorem same_frames {framesT : List WsFrame} (hks : Kept cfg.accessKey frames s) (hkt : Kept cfg.accessKey framesT t)
    (hstages : Stage cap s) (hstaget : Stage cap t) (hwss : s.isWebsocket = true) (hwst : t.isWebsocket = true)
    (hopens : s.tcp.closed = false) (hopent : t.tcp.closed = false)
    (hstreams : frameStream s.received.flatten = some stream)
    (hstreamt : frameStream t.received.flatten = some stream) :
    frames = framesT ∧ s.handled = t.handled ∧ s.rxAcc.data = t.rxAcc.data := by
  obtain ⟨raws, hp, hframes⟩ := (hks.peeled hwss).raws stream hstreams
  obtain ⟨raws', hp', hframes'⟩ := (hkt.peeled hwst).raws stream hstreamt
  have hraws : raws = raws' := by
    rcases Nat.le_total raws.length raws'.length with hle | hle
    · exact frames_eq_of_le hks hkt hstages hwss hopens hwst hp hp' hframes hframes' (hp.comparable hp' hle)
    · exact (frames_eq_of_le hkt hks hstaget hwst hopent hwss hp' hp hframes' hframes (hp'.comparable hp hle)).symm
  subst hraws
  have hsame : frames = framesT := hframes.symm.trans hframes'
  exact ⟨hsame, by rw [(hks.peeled hwss).handled, (hkt.peeled hwst).handled, hsame], hp.rest_eq hp'⟩

/-- **Two open WebSocket sessions that have received the same bytes after the upgrade request, each in reads of its
own and with anything happening in between, have taken the same frames from them, have handled the same packets and
hold the same bytes in their buffers.** -/
theorem frames_of_division (cfg : ServerConfig) {es es' : List World.Event} {x y : Watched}
    (hx : (watch cfg).Reaches (watched cfg) es x) (hy : (watch cfg).Reaches (watched cfg) es' y) {i j : Nat}
    {s t : MqttSession} (hs : x.world.mqtt[i]? = some s) (ht : y.world.mqtt[j]? = some t)
    (hwss : s.isWebsocket = true) (hwst : t.isWebsocket = true) (hopens : s.tcp.closed = false)
    (hopent : t.tcp.closed = false) {stream : Bytes} (hstreams : frameStream s.received.flatten = some stream)
    (hstreamt : frameStream t.received.flatten = some stream) :
    x.frames i = y.frames j ∧ s.handled = t.handled ∧ s.rxAcc.data = t.rxAcc.data := by
  have hsoundx := sound_run hx
  have hsoundy := sound_run hy
  have hks : Kept cfg.accessKey (x.frames i) s := hsoundx.kept i s hs
  have hkt : Kept cfg.accessKey (y.frames j) t := hsoundy.kept j t ht
  exact same_frames hks hkt (hsoundx.stages i s hs) (hsoundy.stages j t ht) hwss hwst hopens hopent hstreams hstreamt

/-- A PINGREQ in a masked frame, a ping, and the first byte of another frame. -/
private def twoFrames : Bytes := clientFrame [0xC0, 0x00] ++ [0x89, 0x80, 1, 2, 3, 4] ++ [0x82]

private def afterReads (chunks : List Bytes) : Watched :=
  ((watch oneListener).exec (watched oneListener) (clientSends chunks)).getD (watched oneListener)

/-- The reads bring the two frames to an open WebSocket session. -/
private abbrev Brings (chunks : List Bytes) : Prop :=
  ((watch oneListener).exec (watched oneListener) (clientSends chunks)).isSome = true ∧
    0 < (afterReads chunks).world.mqtt.length ∧ ((afterReads chunks).world.session 0).isWebsocket = true ∧
    ((afterReads chunks).world.session 0).tcp.closed = false ∧
    frameStream ((afterReads chunks).world.session 0).received.flatten = some twoFrames

private theorem at_once : Brings [upgradeRequest ++ twoFrames] := by decide +kernel

private theorem in_pieces : Brings [upgradeRequest, twoFrames.take 5, (twoFrames.drop 5).take 4, twoFrames.drop 9] := by
  decide +kernel

/-- Two frames in the read that upgrades, or cut inside the mask and inside a header. -/
theorem two_frames_divided :
    (afterReads [upgradeRequest ++ twoFrames]).frames 0 =
      (afterReads [upgradeRequest, twoFrames.take 5, (twoFrames.drop 5).take 4, twoFrames.drop 9]).frames 0 := by
  obtain ⟨hx, hi, hwss, hopens, hstreams⟩ := at_once
  obtain ⟨hy, hj, hwst, hopent, hstreamt⟩ := in_pieces
  exact (frames_of_division oneListener ((watch oneListener).reaches_exec hx)
    ((watch oneListener).reaches_exec hy) (session_eq hi) (session_eq hj) hwss hwst hopens hopent
    hstreams hstreamt).1

end LightApr.Server.FrameDivision
