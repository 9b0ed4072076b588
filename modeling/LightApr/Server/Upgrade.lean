import LightApr.Mqtt.UpgradeRequest
import LightApr.Server.Receiving
import LightApr.Server.Wire

/-! The upgrade of a connection to a WebSocket, however its stream is cut into reads. -/
namespace LightApr.Server.Upgrade
open LightApr.Core Lib Mqtt MqttSession World Receiving UpgradeRequest

variable {cfg : ServerConfig} {now : Int} {i : Nat} {v w : World} {header frames : Bytes}

/-- The response to an accepted request. -/
def response (key : Bytes) : Bytes :=
  WebsocketCodec.generateHandshakeResponse (WebsocketCodec.computeAcceptKey key) (ascii "mqtt")

/-- What the header block of a request decides. An accepted one is answered with its key,
and the loop over frames begins with the bytes behind it; a refused one ends the session
without an answer. -/
inductive Decided (cfg : ServerConfig) (now : Int) (i : Nat) (header frames : Bytes) (v w : World) : Prop
  | accepted {key protocol : Bytes} {s : MqttSession} :
      WebsocketCodec.parseHandshakeRequest header = some (key, protocol) → OnWebsocket s →
      s.rxAcc.data = frames → s.out.buffers = [response key] →
      w = ((v.setSession i s).processFrames cfg now i).1 → Decided cfg now i header frames v w
  | refused : WebsocketCodec.parseHandshakeRequest header = none → (w.session i).tcp.closed = true →
      (w.session i).wsHandshakeDone = false → (w.session i).out.buffers = [] → Decided cfg now i header frames v w

/-! The loop over frames, from outside. -/

theorem session_setSession (hi : i < v.mqtt.length) (s : MqttSession) : (v.setSession i s).session i = s :=
  (session_of_get (by rw [get_setSession s hi, if_pos rfl])).1

theorem length_setSession (s : MqttSession) : (v.setSession i s).mqtt.length = v.mqtt.length := List.length_set

theorem update_setSession (hi : i < v.mqtt.length) (s : MqttSession) (f : MqttSession → MqttSession) :
    (v.setSession i s).update i f = v.setSession i (f s) := by
  rw [update, session_setSession hi, setSession, setSession, List.set_set]
  rfl

theorem processFrames_websocket (cfg : ServerConfig) (now : Int) (hi : i < v.mqtt.length)
    (hs : OnWebsocket (v.session i)) :
    OnWebsocket ((v.processFrames cfg now i).1.session i) := by
  have ht : Trace cfg now i v (v.processFrames cfg now i).1 := trace_processFrames hi hs
  obtain ⟨hd, hw⟩ := settled_trace hi ht hs.settled
  exact ⟨hd, hw.trans hs.websocket⟩

theorem buffers_queued {c c' : Writers.Channel UInt8} (h : Wire.Queued c c') : List.IsPrefix c.buffers c'.buffers := by
  induction h with
  | same => exact List.prefix_rfl
  | more buf _ ih => exact ih.trans (List.prefix_append _ _)

/-- What was handed to the socket before comes first. -/
theorem processFrames_buffers (cfg : ServerConfig) (now : Int) (hi : i < v.mqtt.length)
    (hs : OnWebsocket (v.session i)) :
    List.IsPrefix (v.session i).out.buffers ((v.processFrames cfg now i).1.session i).out.buffers := by
  have ht : Trace cfg now i v (v.processFrames cfg now i).1 := trace_processFrames hi hs
  obtain ⟨s', hs', hq⟩ := ((Wire.quiet_preserved cfg v).trace hi (.refl v) ht).keeps i _ (session_eq hi)
  rw [(session_of_get hs').1]
  exact buffers_queued hq

/-! The read that completes the header block. -/

theorem onBytesRead_request (cfg : ServerConfig) (now : Int) (hi : i < v.mqtt.length) {data text : Bytes}
    {headerEnd : Nat}
    (hd : (v.session i).wsHandshakeDone = false) (ha : (v.session i).rxAcc = ⟨(v.session i).received.flatten, 0⟩)
    (htext : (v.session i).received.flatten ++ data = text) (hcap : text.length ≤ cfg.maxSessionBufferBytes)
    (hget : isHandshake text = true) (hend : find (ascii "\r\n\r\n") text = some headerEnd) :
    v.onBytesRead cfg now i data = match WebsocketCodec.parseHandshakeRequest text with
      | some (key, _) =>
        (v.setSession i (acceptHandshake headerEnd key (buffering data (v.session i)))).processFrames cfg now i
      | none => (v.setSession i (buffering data (v.session i))).endSession cfg now i := by
  have hbuffer : (buffering data (v.session i)).rxAcc = ⟨text, 0⟩ := by
    rw [← htext]
    simp only [buffering, StreamAccumulator.append, ha]
  have happend : (v.update i (recordRead data)).update i (fun s => { s with rxAcc := s.rxAcc.append data }) =
      v.setSession i (buffering data (v.session i)) := buffered_eq hi data
  unfold onBytesRead
  dsimp only
  rw [session_update hi, show (recordRead data (v.session i)).wsHandshakeDone = false from hd, Bool.not_false,
    if_pos rfl]
  unfold buffered
  dsimp only
  have hfits : ¬ (⟨text, 0⟩ : StreamAccumulator UInt8).totalCapacity > cfg.maxSessionBufferBytes :=
    Nat.not_lt.mpr hcap
  rw [happend, session_setSession hi, hbuffer, if_neg hfits]
  unfold detectTransport
  dsimp only
  rw [session_setSession hi, hbuffer, show (⟨text, 0⟩ : StreamAccumulator UInt8).data = text from rfl, if_pos hget,
    hend]
  cases WebsocketCodec.parseHandshakeRequest text with
  | none => rfl
  | some found => exact congrArg (World.processFrames cfg now i) (update_setSession hi _ _)

theorem accepted_websocket (cfg : ServerConfig) (now : Int) (hi : i < v.mqtt.length) {s : MqttSession}
    (ho : OnWebsocket s) : OnWebsocket (((v.setSession i s).processFrames cfg now i).1.session i) :=
  processFrames_websocket cfg now (by rwa [length_setSession]) (by rwa [session_setSession hi])

theorem accepted_first (cfg : ServerConfig) (now : Int) (hi : i < v.mqtt.length) {s : MqttSession} {buf : Bytes}
    (ho : OnWebsocket s) (hb : s.out.buffers = [buf]) :
    (((v.setSession i s).processFrames cfg now i).1.session i).out.buffers.head? = some buf := by
  have hi' : i < (v.setSession i s).mqtt.length := by rwa [length_setSession]
  have ho' : OnWebsocket ((v.setSession i s).session i) := by rwa [session_setSession hi]
  obtain ⟨more, hm⟩ := processFrames_buffers cfg now hi' ho'
  rw [session_setSession hi, hb] at hm
  rw [← hm]
  rfl

/-- The session that has just accepted a request. -/
theorem acceptHandshake_session {s : MqttSession} {data : Bytes} (hnone : s.out.buffers = [])
    (ha : s.rxAcc = ⟨s.received.flatten, 0⟩) (hdata : s.received.flatten ++ data = header ++ frames)
    (hend : IsHeader header) (key : Bytes) :
    OnWebsocket (acceptHandshake (header.length - 4) key (buffering data s)) ∧
      (acceptHandshake (header.length - 4) key (buffering data s)).out.buffers = [response key] ∧
      (acceptHandshake (header.length - 4) key (buffering data s)).rxAcc.data = frames := by
  refine ⟨⟨rfl, rfl⟩, ?_, ?_⟩
  · simp [acceptHandshake, asyncWrite, buffering, recordRead, Writers.Channel.start, hnone, response]
  · have hbuffer : (buffering data s).rxAcc = ⟨header ++ frames, 0⟩ := by
      rw [← hdata]
      simp only [buffering, StreamAccumulator.append, ha]
    simp only [acceptHandshake, asyncWrite, hbuffer, StreamAccumulator.data_compactIfNeeded,
      StreamAccumulator.data_consume]
    rw [show (⟨header ++ frames, 0⟩ : StreamAccumulator UInt8).data = header ++ frames from rfl,
      Nat.sub_add_cancel hend.length, List.drop_left]

theorem answer?_eq_none {text : Bytes} : answer? text = none ↔ WebsocketCodec.parseHandshakeRequest text = none := by
  simp only [answer?, acceptedKey?, Option.map_eq_none_iff]

/-- A refused buffer: the decision is that of the header block if it is refused too. -/
theorem decided_refused_iff (hi : i < v.mqtt.length) {data : Bytes} (hall : All (fun _ => Wire.Fits) v)
    (hd : (v.session i).wsHandshakeDone = false)
    (hread : v.onBytesRead cfg now i data = (v.setSession i (buffering data (v.session i))).endSession cfg now i) :
    Decided cfg now i header frames v (v.onBytesRead cfg now i data).1 ↔ answer? header = none := by
  rw [answer?_eq_none]
  have hi' : i < (v.setSession i (buffering data (v.session i))).mqtt.length := by rwa [length_setSession]
  have hsame : SameInput _ (((v.setSession i (buffering data (v.session i))).endSession cfg now i).1.session i) :=
    sameInput_endSession hi'
  rw [session_setSession hi] at hsame
  have hdone := hsame.wsHandshakeDone.trans hd
  have hclosed : (((v.setSession i (buffering data (v.session i))).endSession cfg now i).1.session i).tcp.closed =
    true := closed_endSession hi'
  have hfits := (Wire.fits_preserved cfg).trace hi hall (trace_onBytesRead cfg now hi data)
  have hlen := Trace.length (trace_onBytesRead cfg now hi data)
  rw [hread] at hfits hlen ⊢
  have hbuffers := ((hfits.session (hlen.symm ▸ hi)).unsettled hdone).1
  constructor
  · rintro (⟨-, ho, -, -, hw⟩ | ⟨hnone, -⟩)
    · have hset := (accepted_websocket cfg now hi ho).settled
      rw [← hw, hdone] at hset
      cases hset
    · exact hnone
  · intro hnone
    exact .refused hnone hclosed hdone hbuffers

/-- An accepted buffer: the decision is that of the header block if both have the same
accept key. -/
theorem decided_accepted_iff (hi : i < v.mqtt.length) {data key : Bytes} {headerEnd : Nat}
    (ho : OnWebsocket (acceptHandshake headerEnd key (buffering data (v.session i))))
    (hbuffers : (acceptHandshake headerEnd key (buffering data (v.session i))).out.buffers = [response key])
    (hrest : (acceptHandshake headerEnd key (buffering data (v.session i))).rxAcc.data = frames)
    (hread : v.onBytesRead cfg now i data =
      (v.setSession i (acceptHandshake headerEnd key (buffering data (v.session i)))).processFrames cfg now i) :
    Decided cfg now i header frames v (v.onBytesRead cfg now i data).1 ↔
      answer? header = some (WebsocketCodec.computeAcceptKey key) := by
  rw [hread]
  have hfirst := accepted_first cfg now hi ho hbuffers
  unfold answer? acceptedKey?
  constructor
  · rintro (⟨hkey, ho', -, hbuffers', hw⟩ | ⟨-, -, hnot, -⟩)
    · rw [hw, accepted_first cfg now hi ho' hbuffers'] at hfirst
      rw [hkey]
      exact congrArg some (generateHandshakeResponse_inj (Option.some.inj hfirst))
    · exact nomatch (accepted_websocket cfg now hi ho).settled.symm.trans hnot
  · intro hanswer
    cases hkey : WebsocketCodec.parseHandshakeRequest header with
    | none =>
      rw [hkey] at hanswer
      cases hanswer
    | some found =>
      obtain ⟨key', protocol'⟩ := found
      rw [hkey] at hanswer
      have hsame : WebsocketCodec.computeAcceptKey key' = WebsocketCodec.computeAcceptKey key :=
        Option.some.inj hanswer
      refine .accepted hkey ho hrest ?_ rfl
      rw [hbuffers, response, response, hsame]

/-- With the whole header block in the buffer, the decision is that of the header block
exactly if the bytes behind it are inert. -/
theorem decided_request_iff (hi : i < v.mqtt.length) {data : Bytes} (hall : All (fun _ => Wire.Fits) v)
    (hd : (v.session i).wsHandshakeDone = false) (ha : (v.session i).rxAcc = ⟨(v.session i).received.flatten, 0⟩)
    (hdata : (v.session i).received.flatten ++ data = header ++ frames)
    (hcap : (header ++ frames).length ≤ cfg.maxSessionBufferBytes) (hget : isHandshake header = true)
    (hend : IsHeader header) :
    Decided cfg now i header frames v (v.onBytesRead cfg now i data).1 ↔ Inert header frames := by
  have hstarts : find (ascii "GET ") header = some 0 ∨ find (ascii "get ") header = some 0 := by
    rwa [find_zero_iff, find_zero_iff, ← isHandshake_iff]
  have hget' : isHandshake (header ++ frames) = true := by
    rw [isHandshake_append (length_of_isHandshake hget), hget]
  have hread := onBytesRead_request cfg now hi hd ha hdata hcap hget' (find_append frames hend)
  rw [← answer?_append_iff hend hstarts frames]
  cases hparse : WebsocketCodec.parseHandshakeRequest (header ++ frames) with
  | none =>
    rw [hparse] at hread
    rw [decided_refused_iff hi hall hd hread, answer?_eq_none.mpr hparse]
    exact eq_comm
  | some found =>
    obtain ⟨key, protocol⟩ := found
    rw [hparse] at hread
    obtain ⟨ho, hbuffers, hrest⟩ := acceptHandshake_session ((hall.session hi).unsettled hd).1 ha hdata hend key
    have hanswer : answer? (header ++ frames) = some (WebsocketCodec.computeAcceptKey key) := by
      rw [answer?, acceptedKey?, hparse]
      rfl
    rw [decided_accepted_iff hi ho hbuffers hrest hread, hanswer]
    exact eq_comm

/-! Runs. -/

/-- A session that took its stream for a plain one does not come to the decision. -/
theorem not_decided_of_plain (hi : i < v.mqtt.length) (hd : (w.session i).wsHandshakeDone = true)
    (hw : (w.session i).isWebsocket = false) : ¬ Decided cfg now i header frames v w := by
  rintro (⟨-, ho, -, -, rfl⟩ | ⟨-, -, hnot, -⟩)
  · exact nomatch (accepted_websocket cfg now hi ho).websocket.symm.trans hw
  · exact nomatch hd.symm.trans hnot

/-- A read as the event of a run. -/
theorem step_read {data : Bytes} (h : step cfg v (.mqtt now i (.read data)) = some w) : i < v.mqtt.length ∧
    ∃ reads, w = ((v.update i fun s => { s with tcp := { s.tcp with reads } }).onBytesRead cfg now i data).1 := by
  obtain ⟨s, hs, h⟩ := Option.bind_eq_some_iff.mp h
  obtain ⟨rfl, hi⟩ := session_of_get hs
  cases onMqtt_cases h with
  | read _ _ _ => exact ⟨hi, _, rfl⟩

theorem decided_reads (reads : List Bool) : Decided cfg now i header frames
    (v.update i fun s => { s with tcp := { s.tcp with reads } }) w ↔ Decided cfg now i header frames v w := by
  have hset (s : MqttSession) :
      (v.update i fun s => { s with tcp := { s.tcp with reads } }).setSession i s = v.setSession i s := by
    rw [update, setSession, setSession, List.set_set]
    rfl
  constructor
  · rintro (⟨hkey, ho, hrest, hb, hw⟩ | ⟨h1, h2, h3, h4⟩)
    · exact .accepted hkey ho hrest hb (hset _ ▸ hw)
    · exact .refused h1 h2 h3 h4
  · rintro (⟨hkey, ho, hrest, hb, hw⟩ | ⟨h1, h2, h3, h4⟩)
    · exact .accepted hkey ho hrest hb (by rw [hset]; exact hw)
    · exact .refused h1 h2 h3 h4

/-- **The read that completes the header block of an upgrade request brings the session to
what the header block decides, exactly if the first read held the four bytes "GET " and the
bytes that came with the end of the header block are inert.** -/
theorem upgrade_decided_iff (cfg : ServerConfig) {es : List World.Event} {v w : World}
    (hrun : (machine cfg).Reaches (init cfg) es v) {now : Int} {i : Nat} {data : Bytes}
    (hstep : step cfg v (.mqtt now i (.read data)) = some w) {header frames : Bytes}
    (hget : isHandshake header = true) (hend : IsHeader header)
    (hbefore : (v.session i).received.flatten.length < header.length)
    (hdata : (v.session i).received.flatten ++ data = header ++ frames)
    (hcap : (header ++ frames).length ≤ cfg.maxSessionBufferBytes) :
    Decided cfg now i header frames v w ↔
      (∀ first ∈ ((v.session i).received ++ [data]).head?, 4 ≤ first.length) ∧ Inert header frames := by
  obtain ⟨hi, reads, rfl⟩ := step_read hstep
  have hs₁ := session_update hi fun s => { s with tcp := { s.tcp with reads } }
  obtain ⟨v₁, hv₁⟩ : ∃ x, v.update i (fun s => { s with tcp := { s.tcp with reads } }) = x := ⟨_, rfl⟩
  have hi₁ : i < v₁.mqtt.length := by rwa [← hv₁, length_update]
  rw [← decided_reads reads]
  rw [hv₁] at hs₁ ⊢
  have hpart : List.IsPrefix (v.session i).received.flatten header :=
    List.prefix_of_prefix_length_le (hdata ▸ List.prefix_append _ _) (List.prefix_append _ _) (Nat.le_of_lt hbefore)
  cases stage_run hrun i _ (session_eq hi) with
  | websocket _ _ hcut _ =>
    -- the header block would have ended before
    obtain ⟨n, hn, -⟩ := Option.map_eq_some_iff.mp hcut.received
    obtain ⟨more, rfl⟩ := hpart
    have hle : n + 4 ≤ (v.session i).received.flatten.length := (find_spec hn).2
    have heq := Option.some.inj ((find_append more hn).symm.trans hend)
    omega
  | plain hplain =>
    obtain ⟨first, hf, hnot⟩ := hplain.first
    obtain ⟨hd', hws'⟩ := settled_trace hi₁ (trace_onBytesRead cfg now hi₁ data) (by rw [hs₁]; exact hplain.settled)
    rw [hs₁] at hws'
    refine iff_of_false (not_decided_of_plain hi₁ hd' (hws'.trans hplain.plain)) fun h => ?_
    have h4 : 4 ≤ first.length := h.1 first (by rw [List.head?_append, hf]; rfl)
    obtain ⟨more, hmore⟩ : List.IsPrefix first header := by
      refine List.IsPrefix.trans ?_ hpart
      obtain ⟨rest, hrest⟩ := List.head?_eq_some_iff.mp hf
      rw [hrest, List.flatten_cons]
      exact List.prefix_append _ _
    rw [← hmore, isHandshake_append h4, hnot] at hget
    cases hget
  | undecided hd _ ha _ hr =>
    have hfits : All (fun _ => Wire.Fits) v₁ := by
      have hv := Wire.fits_run hrun
      rw [← hv₁]
      exact Wire.fits_effect hv (.ofUpdate _) fun _ => ⟨(hv.session hi).units, (hv.session hi).unsettled⟩
    rw [decided_request_iff hi₁ hfits (by rw [hs₁]; exact hd) (by rw [hs₁]; exact ha) (by rw [hs₁]; exact hdata) hcap
      hget hend]
    refine (and_iff_right fun first hf => ?_).symm
    rcases hr with hr | ⟨first', hf', hask⟩ | ⟨hover, -⟩
    · rw [hr] at hf hdata
      obtain rfl := Option.some.inj hf
      rw [List.flatten_nil, List.nil_append] at hdata
      rw [hdata, List.length_append]
      exact Nat.le_add_right_of_le hend.length
    · rw [List.head?_append, hf'] at hf
      obtain rfl := Option.some.inj hf
      exact length_of_isHandshake hask
    · rw [List.length_append] at hcap
      omega

/-- A masked ping without a payload. -/
private def pingFrame : Bytes := [0x89, 0x80, 0, 0, 0, 0]

private def before (first : Bytes) : World :=
  ((machine oneListener).exec (init oneListener) (clientSends [first])).getD (init oneListener)

private def afterwards (first rest : Bytes) : World :=
  (step oneListener (before first) (.mqtt 0 0 (.read rest))).getD (before first)

/-- The stream comes in two reads. -/
private abbrev TwoReads (first rest : Bytes) : Prop :=
  ((machine oneListener).exec (init oneListener) (clientSends [first])).isSome = true ∧
    (step oneListener (before first) (.mqtt 0 0 (.read rest))).isSome = true ∧
    ((before first).session 0).received = [first]

private theorem reaches_before {first rest : Bytes} (h : TwoReads first rest) :
    (machine oneListener).Reaches (init oneListener) (clientSends [first]) (before first) :=
  (machine oneListener).reaches_exec h.1

private theorem step_afterwards {first rest : Bytes} (h : TwoReads first rest) :
    step oneListener (before first) (.mqtt 0 0 (.read rest)) = some (afterwards first rest) := by
  obtain ⟨w, hw⟩ := Option.isSome_iff_exists.mp h.2.1
  rw [afterwards, hw]
  rfl

private theorem request_header : isHandshake upgradeRequest = true ∧ IsHeader upgradeRequest ∧
    AsksUpgrade upgradeRequest ∧
    upgradeRequest.length = 83 := by decide +kernel

private theorem length_request (k : Nat) (hk : k < 83) :
    [upgradeRequest.take k].flatten.length < upgradeRequest.length := by
  rw [List.flatten_singleton, List.length_take, request_header.2.2.2]
  omega

private theorem request_fits : (upgradeRequest ++ pingFrame).length ≤ oneListener.maxSessionBufferBytes := by
  rw [List.length_append, request_header.2.2.2]
  decide

private theorem twoReads_split : TwoReads (upgradeRequest.take 20)
    (upgradeRequest.drop 20 ++ pingFrame) := by decide +kernel

private theorem twoReads_early : TwoReads (upgradeRequest.take 2) (upgradeRequest.drop 2) := by decide +kernel

/-- A upgradeRequest cut after twenty bytes, with a frame behind it. -/
theorem split_request_decided : Decided oneListener 0 0 upgradeRequest pingFrame (before (upgradeRequest.take 20))
    (afterwards (upgradeRequest.take 20) (upgradeRequest.drop 20 ++ pingFrame)) := by
  have hrec := twoReads_split.2.2
  refine (upgrade_decided_iff oneListener (reaches_before twoReads_split) (step_afterwards twoReads_split)
    request_header.1 request_header.2.1 ?_ ?_ request_fits).mpr ⟨fun first hf => ?_, ?_⟩
  · rw [hrec]
    exact length_request 20 (by decide)
  · rw [hrec, List.flatten_singleton, ← List.append_assoc, List.take_append_drop]
  · rw [hrec] at hf
    obtain rfl := Option.some.inj hf
    rw [List.length_take, request_header.2.2.2]
    decide
  · have hkeys : keys pingFrame = [] := by decide
    refine ⟨fun _ key hk => ?_, fun hnot => absurd request_header.2.2.1 hnot⟩
    rw [hkeys] at hk
    cases hk

/-- The first read holds the two bytes "GE": the stream is taken for a plain one. -/
theorem early_cut_undecided : ¬ ∀ (cfg : ServerConfig) (es : List World.Event) (v w : World),
    (machine cfg).Reaches (init cfg) es v → ∀ (now : Int) (i : Nat) (data : Bytes),
      step cfg v (.mqtt now i (.read data)) = some w → ∀ header frames : Bytes, isHandshake header = true →
        IsHeader header → (v.session i).received.flatten.length < header.length →
        (v.session i).received.flatten ++ data = header ++ frames →
        (header ++ frames).length ≤ cfg.maxSessionBufferBytes → Decided cfg now i header frames v w := by
  intro h
  have hrec := twoReads_early.2.2
  have hdecided := h oneListener _ _ _ (reaches_before twoReads_early) 0 0 _ (step_afterwards twoReads_early)
    upgradeRequest [] request_header.1 request_header.2.1 (by rw [hrec]; exact length_request 2 (by decide))
    (by rw [hrec, List.flatten_singleton, List.take_append_drop, List.append_nil])
    (by rw [List.append_nil]; exact Nat.le_trans (by simp) request_fits)
  have hplain : 0 < (before (upgradeRequest.take 2)).mqtt.length ∧
      ((afterwards (upgradeRequest.take 2) (upgradeRequest.drop 2)).session 0).wsHandshakeDone = true ∧
      ((afterwards (upgradeRequest.take 2) (upgradeRequest.drop 2)).session 0).isWebsocket = false := by decide +kernel
  exact not_decided_of_plain hplain.1 hplain.2.1 hplain.2.2 hdecided

end LightApr.Server.Upgrade
