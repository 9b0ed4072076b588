import LightApr.Mqtt.FrameStream
import LightApr.Server.Step

/-! What a session does with its reads, from the first one on. -/
namespace LightApr.Server.Receiving
open LightApr.Core Lib Lib.Framing Mqtt MqttSession World FrameStream

variable {cfg : ServerConfig} {now : Int} {i : Nat} {w w' : World} {s s' : MqttSession} {stream : Bytes}

/-! What other events leave alone. -/

theorem sameInput_passive : Passive SameInput where
  refl := .refl
  trans := .trans
  messages := sameInput_deliverAll
  closed _ := ⟨rfl, rfl, rfl, rfl, rfl, fun _ => rfl⟩
  unlisted _ := ⟨rfl, rfl, rfl, rfl, rfl, id⟩
  gone _ := ⟨rfl, rfl, rfl, rfl, rfl, id⟩

/-- An update of the session that keeps the input. -/
theorem sameInput_update {f : MqttSession → MqttSession} (hi : i < w.mqtt.length)
    (h : SameInput (w.session i) (f (w.session i))) : SameInput (w.session i) ((w.update i f).session i) := by
  rwa [session_update hi]

theorem sameInput_endSession (hi : i < w.mqtt.length) :
    SameInput (w.session i) ((w.endSession cfg now i).1.session i) := sameInput_passive.endSession cfg now hi

theorem sameInput_onWritten (hi : i < w.mqtt.length) (ok : Bool) (kind : WriteKind) :
    SameInput (w.session i) ((w.onWritten cfg now i ok kind).1.session i) := by
  unfold onWritten
  split
  · split
    · exact .refl _
    · exact sameInput_endSession hi
  · exact sameInput_endSession hi
  · exact .refl _

/-- Of its own events, only a read adds to the input of a session. -/
theorem sameInput_onMqtt {e : MqttEvent} (hi : i < w.mqtt.length) (he : ∀ data, e ≠ .read data)
    (h : w.onMqtt cfg now i (w.session i) e = some w') : SameInput (w.session i) (w'.session i) := by
  have keep {f : MqttSession → MqttSession} (h : SameInput (w.session i) (f (w.session i))) :
      i < (w.update i f).mqtt.length ∧ SameInput (w.session i) ((w.update i f).session i) :=
    ⟨by simpa using hi, sameInput_update hi h⟩
  cases onMqtt_cases h with
  | read _ _ _ => exact absurd rfl (he _)
  | readFailed _ =>
    obtain ⟨hi', hk⟩ := keep (f := readDropped) ⟨rfl, rfl, rfl, rfl, rfl, id⟩
    exact hk.trans (sameInput_endSession hi')
  | idleExpired _ =>
    obtain ⟨hi', hk⟩ := keep (f := waitDone) ⟨rfl, rfl, rfl, rfl, rfl, id⟩
    exact hk.trans (sameInput_endSession hi')
  | waitCanceled _ => exact (keep ⟨rfl, rfl, rfl, rfl, rfl, id⟩).2
  | transferred _ _ => exact (keep ⟨rfl, rfl, rfl, rfl, rfl, id⟩).2
  | @written k ok kind _ =>
    obtain ⟨hi', hk⟩ := keep (f := writeDone k) ⟨rfl, rfl, rfl, rfl, rfl, id⟩
    exact hk.trans (sameInput_onWritten hi' ok kind)

/-- Only a read of the session itself adds to its input. -/
theorem sameInput_step {e : World.Event} (hi : i < w.mqtt.length) (he : ∀ now data, e ≠ .mqtt now i (.read data))
    (h : step cfg w e = some w') : SameInput (w.session i) (w'.session i) := by
  refine sameInput_passive.step hi (fun now e' hown hs => ?_) h
  exact sameInput_onMqtt hi (fun data hd => he now data (hd ▸ hown)) hs

theorem closed_endSession (hi : i < w.mqtt.length) :
    ((w.endSession cfg now i).1.session i).tcp.closed = true := by
  have hc := closed_closeSession cfg now hi
  rcases endSession_cases cfg now i w with he | he
  · rwa [he]
  · rw [he, session_update (by simpa using hi)]
    exact hc

theorem sameInput_continueReading (hi : i < w.mqtt.length) :
    SameInput (w.session i) ((w.continueReading i).session i) := by
  unfold continueReading
  split
  · exact .refl _
  · exact sameInput_update hi ⟨rfl, rfl, rfl, rfl, rfl, id⟩

/-! A session that has begun to close stays so. -/

private theorem closing_deliverAll (msgs : List (Nat × Bytes × Bytes)) (s : MqttSession) :
    (deliverAll msgs s).closing = s.closing := by
  obtain ⟨_, _, _, h⟩ := deliverAll_same msgs s
  rw [h]

private theorem closing_own (h : Own cfg s s') (hc : s.closing = true) : s'.closing = true := by
  cases h with
  | startClosing => rfl
  | write | identify | authenticate | subscribe | unlist => exact hc

/-- The sessions that were closing in `w₀` are closing. -/
abbrev StillClosing (w₀ : World) : World → Prop :=
  All fun j s => j < w₀.mqtt.length → (w₀.session j).closing = true → s.closing = true

theorem stillClosing_effect {w₀ : World} {msgs : List (Nat × Bytes × Bytes)} {shared : Shared}
    (hw : StillClosing w₀ w) (e : Effect w w' i s msgs shared)
    (hs : i < w.mqtt.length → (w.session i).closing = true → s.closing = true) : StillClosing w₀ w' := by
  refine hw.effect e (fun j t h hj hc => ?_) fun hi hj hc => hs hi (hw.session hi hj hc)
  rw [closing_deliverAll]
  exact h hj hc

theorem stillClosing_preserved (cfg : ServerConfig) (w₀ : World) :
    Preserved cfg (fun _ _ => True) fun w => StillClosing w₀ w ∧ w₀.mqtt.length ≤ w.mqtt.length where
  rejected hw _ := hw
  acceptedMqtt hw _ _ := by
    refine ⟨hw.1.append rfl (fun hj _ => absurd hj (Nat.not_lt.mpr hw.2)) rfl, ?_⟩
    rw [List.length_append]
    exact Nat.le_add_right_of_le hw.2
  acceptedHttp hw _ _ := hw
  act _ hw h := by
    refine ⟨?_, h.length.symm ▸ hw.2⟩
    cases h with
    | own ho e => exact stillClosing_effect hw.1 e fun _ => closing_own ho
    | relay _ e | publishMeta _ _ _ e | publishExtra _ _ _ e | close _ _ e =>
      exact stillClosing_effect hw.1 e fun _ => id
  input _ hw hin e := by
    obtain ⟨_, _, _, _, _, _, _, rfl, -⟩ := hin
    exact ⟨stillClosing_effect hw.1 e fun _ => id, e.length.symm ▸ hw.2⟩
  packet _ hw e := ⟨stillClosing_effect hw.1 e fun _ => id, e.length.symm ▸ hw.2⟩
  transferred _ _ hw _ _ _ := ⟨stillClosing_effect hw.1 (.ofUpdate _) fun _ => id, by simpa using hw.2⟩
  http _ hw _ _ := hw
  destroyedMqtt _ hw _ := ⟨stillClosing_effect hw.1 (.ofUpdate _) fun _ => id, by simpa using hw.2⟩
  destroyedHttp _ hw _ := hw
  removed hw ha := by
    refine ⟨hw.1.announced ha fun j t h hj hc => ?_, ?_⟩
    · rw [closing_deliverAll]
      exact h hj hc
    · rw [ha.mqtt, List.length_map]
      exact hw.2

theorem stillClosing_refl (w : World) : StillClosing w w ∧ w.mqtt.length ≤ w.mqtt.length := by
  refine ⟨fun j s hs _ hc => ?_, Nat.le_refl _⟩
  rwa [(session_of_get hs).1] at hc

theorem closing_step {e : World.Event} (hi : i < w.mqtt.length) (h : step cfg w e = some w')
    (hc : (w.session i).closing = true) : (w'.session i).closing = true := by
  obtain ⟨hstill, hlen⟩ := (stillClosing_preserved cfg w).step (stillClosing_refl w) trivial h
  exact hstill.session (Nat.lt_of_lt_of_le hi hlen) hi hc

theorem closing_trace (hi : i < w.mqtt.length) (h : Trace cfg now i w w')
    (hc : (w.session i).closing = true) : (w'.session i).closing = true := by
  obtain ⟨hstill, hlen⟩ := (stillClosing_preserved cfg w).trace hi (stillClosing_refl w) h
  exact hstill.session (Nat.lt_of_lt_of_le hi hlen) hi hc

/-! The receive loop. -/

/-- What follows the request header. -/
def frameStream (received : Bytes) : Option Bytes :=
  (find (ascii "\r\n\r\n") received).map fun headerEnd => received.drop (headerEnd + 4)

theorem frameStream_append {received : Bytes} (h : frameStream received = some stream) (data : Bytes) :
    frameStream (received ++ data) = some (stream ++ data) := by
  obtain ⟨n, hn, rfl⟩ := Option.map_eq_some_iff.mp h
  have hle : n + 4 ≤ received.length := (find_spec hn).2
  rw [frameStream, find_append data hn, Option.map_some, List.drop_append_of_le_length hle]

/-- The frames cut off the stream so far have been handled, and the buffer holds the rest. -/
structure Cut (stream : Bytes) (s : MqttSession) : Prop where
  received : frameStream s.received.flatten = some stream
  inRange : s.rxAcc.InRange
  peels : ∃ raws, framer.Peels stream raws s.rxAcc.data ∧ s.handled = packets (raws.filterMap readFrame)

/-- There is nothing to do before the next read. -/
def Rests (s : MqttSession) : Prop :=
  s.tcp.closed = true ∨ s.closing = true ∨ framer.Stuck s.rxAcc.data

theorem Cut.same (h : Cut stream s) (hs : SameInput s s') : Cut stream s' :=
  ⟨hs.received ▸ h.received, hs.rxAcc ▸ h.inRange, by rw [hs.rxAcc, hs.handled]; exact h.peels⟩

theorem Rests.same (h : Rests s) (hs : SameInput s s') (hc : s.closing = true → s'.closing = true) : Rests s' := by
  rcases h with h | h | h
  · exact .inl (hs.closed h)
  · exact .inr (.inl (hc h))
  · exact .inr (.inr (by rwa [hs.rxAcc]))

/-- One more frame. -/
theorem Cut.next (h : Cut stream s) {f : WebsocketCodec.WsFrame} {n : Nat}
    (hd : WebsocketCodec.decodeFrame s.rxAcc.data = .frame f n) (hrec : s'.received = s.received)
    (hr : s'.rxAcc = s.rxAcc.consume n) (hh : s'.handled = s.handled ++ packets [f]) : Cut stream s' := by
  obtain ⟨raws, hp, hpackets⟩ := h.peels
  refine ⟨hrec ▸ h.received, hr ▸ h.inRange.consume (WebsocketCodec.decodeFrame_within hd).2,
    raws ++ [s.rxAcc.data.take n], ?_, ?_⟩
  · rw [hr, StreamAccumulator.data_consume]
    exact hp.trans (.next (framer_cut hd) (.done _))
  · rw [hh, hpackets, List.filterMap_append, List.filterMap_cons_some (readFrame_take hd), List.filterMap_nil]
    simp [packets]

/-- More bytes. -/
theorem Cut.extend (h : Cut stream s) (data : Bytes) (hrec : s'.received = s.received ++ [data])
    (hr : s'.rxAcc = s.rxAcc.append data) (hh : s'.handled = s.handled) : Cut (stream ++ data) s' := by
  obtain ⟨raws, hp, hpackets⟩ := h.peels
  refine ⟨?_, hr ▸ h.inRange.append data, raws, ?_, hh.trans hpackets⟩
  · rw [hrec, List.flatten_append, List.flatten_singleton]
    exact frameStream_append h.received data
  rw [hr, StreamAccumulator.data_append h.inRange]
  exact hp.extend data

theorem stuck_nil : framer.Stuck [] := rfl

/-- A text or binary frame is cut off and handed to `process_packet`. -/
theorem cut_processPacket (cfg : ServerConfig) (now : Int) (hi : i < w.mqtt.length) (hs : OnWebsocket (w.session i))
    {f : WebsocketCodec.WsFrame}
    {n : Nat} (hd : WebsocketCodec.decodeFrame (w.session i).rxAcc.data = .frame f n)
    (hop : f.opcode = 0x01 ∨ f.opcode = 0x02) (hc : Cut stream (w.session i)) :
    Cut stream (((w.update i fun s => { s with rxAcc := s.rxAcc.consume n }).processPacket cfg now i
      f.payload).1.session i) ∧
    (((w.update i fun s => { s with rxAcc := s.rxAcc.consume n }).processPacket cfg now i
      f.payload).1.session i).rxAcc = (w.session i).rxAcc.consume n := by
  have hi' : i < (w.update i fun s => { s with rxAcc := s.rxAcc.consume n }).mqtt.length := by simpa using hi
  have hs' := session_update hi fun s => { s with rxAcc := s.rxAcc.consume n }
  by_cases hne : f.payload = []
  · rw [hne]
    rw [processPacket, hs']
    exact ⟨hc.next hd rfl rfl (by simp [packets, hne]), rfl⟩
  · have hsame := sameInput_processPacket cfg now hi' (by rw [hs']; exact hs.settled) hne
    rw [hs'] at hsame
    have hrecorded : Cut stream (({ w.session i with rxAcc := (w.session i).rxAcc.consume n }).recordPacket
        f.payload) := hc.next hd rfl rfl (by simp [recordPacket, packets, hop, hne])
    exact ⟨hrecorded.same hsame, hsame.rxAcc⟩

theorem cut_endSession (cfg : ServerConfig) (now : Int) (hi : i < w.mqtt.length) (hc : Cut stream (w.session i)) :
    Cut stream ((w.endSession cfg now i).1.session i) ∧ ((w.endSession cfg now i).1.session i).tcp.closed = true :=
  ⟨hc.same (sameInput_endSession hi), closed_endSession hi⟩

/-- Only the end of a session lets an exception out of a packet. -/
theorem closed_of_threw (hi : i < w.mqtt.length) {data : Bytes} (h : w.processPacket cfg now i data = (w', .threw)) :
    (w'.session i).tcp.closed = true := by
  by_cases hne : data = []
  · rw [hne] at h
    cases (Prod.mk.inj h).2
  · have hi' : i < (w.update i (recordPacket data)).mqtt.length := by simpa using hi
    have hend : (((w.update i (recordPacket data)).endSession cfg now i).1.session i).tcp.closed = true :=
      closed_endSession hi'
    have hcase := processPacket_cases cfg now i w hne
    generalize w.processPacket cfg now i data = x at h hcase
    cases hcase with
    | connect | publish | subscribe | pingreq | dropped => cases (Prod.mk.inj h).2
    | disconnect _ => rwa [h] at hend

/-- What the loop needs for its next round. -/
structure Resumes (stream : Bytes) (fuel : Nat) (s : MqttSession) : Prop where
  onWebsocket : OnWebsocket s
  cut : Cut stream s
  fuel : s.rxAcc.size ≤ fuel

/-- Every frame takes at least two bytes off the buffer. -/
theorem size_consume {fuel : Nat} {f : WebsocketCodec.WsFrame} {n : Nat}
    (hd : WebsocketCodec.decodeFrame s.rxAcc.data = .frame f n) (hf : s.rxAcc.size ≤ fuel + 1)
    (hr : s'.rxAcc = s.rxAcc.consume n) : s'.rxAcc.size ≤ fuel := by
  obtain ⟨h2, hle⟩ := WebsocketCodec.decodeFrame_within hd
  rw [StreamAccumulator.size_eq] at hf ⊢
  rw [hr, StreamAccumulator.data_consume, List.length_drop]
  omega

/-- A control frame is cut off and carries no packet. -/
theorem Resumes.skip {fuel : Nat} (h : Resumes stream (fuel + 1) s) {f : WebsocketCodec.WsFrame} {n : Nat}
    (hd : WebsocketCodec.decodeFrame s.rxAcc.data = .frame f n) (hop : ¬ (f.opcode = 0x01 ∨ f.opcode = 0x02)) :
    Resumes stream fuel { s with rxAcc := s.rxAcc.consume n } where
  onWebsocket := ⟨h.onWebsocket.settled, h.onWebsocket.websocket⟩
  cut := h.cut.next hd rfl rfl (by simp [packets, hop])
  fuel := size_consume hd h.fuel rfl

/-- A write leaves it as it is. -/
theorem Resumes.asyncWrite {fuel : Nat} (h : Resumes stream fuel s) (buf : Bytes) (kind : WriteKind) :
    Resumes stream fuel (s.asyncWrite buf kind) where
  onWebsocket := ⟨h.onWebsocket.settled, h.onWebsocket.websocket⟩
  cut := ⟨h.cut.received, h.cut.inRange, h.cut.peels⟩
  fuel := h.fuel

/-- A packet frame is cut off, and what it carries is handled, unless that ends the session. -/
theorem Resumes.packet (cfg : ServerConfig) (now : Int) (hi : i < w.mqtt.length) {fuel : Nat}
    (h : Resumes stream (fuel + 1) (w.session i)) {f : WebsocketCodec.WsFrame} {n : Nat}
    (hd : WebsocketCodec.decodeFrame (w.session i).rxAcc.data = .frame f n) (hop : f.opcode = 0x01 ∨ f.opcode = 0x02) :
    Resumes stream fuel (((w.update i fun s => { s with rxAcc := s.rxAcc.consume n }).processPacket cfg now i
      f.payload).1.session i) := by
  have hs' := session_update hi fun s => { s with rxAcc := s.rxAcc.consume n }
  obtain ⟨hcut, hrx⟩ := cut_processPacket cfg now hi h.onWebsocket hd hop h.cut
  refine ⟨onWebsocket_processPacket cfg now (by simpa using hi) ?_ f.payload, hcut, size_consume hd h.fuel hrx⟩
  rw [hs']
  exact ⟨h.onWebsocket.settled, h.onWebsocket.websocket⟩

theorem rests_of_halts {fuel : Nat} (h : Resumes stream fuel s) (hhalts : FrameLoop.Halts fuel s) : Rests s := by
  have hempty (hsize : s.rxAcc.size = 0) : Rests s := by
    rw [StreamAccumulator.size_eq] at hsize
    exact .inr (.inr (List.eq_nil_of_length_eq_zero hsize ▸ stuck_nil))
  rcases hhalts with hfuel | hclosing | hsize | hnone
  · exact hempty (Nat.le_zero.mp (hfuel ▸ h.fuel))
  · exact .inr (.inl hclosing)
  · exact hempty hsize
  · refine .inr (.inr ?_)
    simp only [Framer.Stuck, framer]
    split
    · rename_i frame n hd
      exact absurd hd (hnone frame n)
    · rfl
    · rfl

theorem resumes_round (cfg : ServerConfig) (now : Int) (i : Nat) (stream : Bytes) :
    FrameLoop.Round cfg now i (fun _ fuel w => i < w.mqtt.length ∧ Resumes stream fuel (w.session i))
      (fun _ w => Cut stream (w.session i) ∧ Rests (w.session i)) where
  halts h hhalts := ⟨h.2.cut, rests_of_halts h.2 hhalts⟩
  packet {_ _ w w' frame n flow} h ht hop hp := by
    obtain ⟨hi, hr⟩ := h
    have hi' : i < (w.update i (FrameLoop.consuming n)).mqtt.length := by simpa using hi
    have hset : ((w.update i (FrameLoop.consuming n)).session i).wsHandshakeDone = true := by
      rw [session_update hi]
      exact hr.onWebsocket.settled
    have hlen := Trace.length (trace_processPacket cfg now hi' hset frame.payload)
    have hnext : Resumes stream _
        (((w.update i (FrameLoop.consuming n)).processPacket cfg now i frame.payload).1.session i) :=
      hr.packet cfg now hi ht.decoded hop
    rw [hp] at hlen hnext
    refine ⟨fun hthrew => ⟨hnext.cut, .inl (closed_of_threw hi' (hthrew ▸ hp))⟩, fun _ => ⟨hlen.symm ▸ hi', hnext⟩⟩
  close {_ _ w frame n} h ht hop := by
    obtain ⟨hi, hr⟩ := h
    have hskip := hr.skip ht.decoded (by rw [hop]; decide)
    obtain ⟨hcut, hclosed⟩ :=
      cut_endSession cfg now (show i < (w.update i (FrameLoop.consuming n)).mqtt.length by simpa using hi)
      (by rw [session_update hi]; exact hskip.cut)
    exact ⟨hcut, .inl hclosed⟩
  ping {_ _ w frame n} h ht hop := by
    obtain ⟨hi, hr⟩ := h
    have hskip := hr.skip ht.decoded (by rw [hop]; decide)
    refine ⟨by simpa using hi, ?_⟩
    rw [session_update (by simpa using hi), session_update hi]
    exact hskip.asyncWrite _ _
  skip {_ _ w frame n} h ht hop _ _ := by
    obtain ⟨hi, hr⟩ := h
    refine ⟨by simpa using hi, ?_⟩
    rw [session_update hi]
    exact hr.skip ht.decoded hop

/-- The loop ends where the bytes complete no further frame, or with the session ending. -/
theorem frameLoop_rests (cfg : ServerConfig) (now : Int) (fuel : Nat) (hi : i < w.mqtt.length)
    (h : Resumes stream fuel (w.session i)) :
    Cut stream ((w.frameLoop cfg now i fuel).1.session i) ∧ Rests ((w.frameLoop cfg now i fuel).1.session i) :=
  @FrameLoop.Round.loop cfg now i w _ _ (resumes_round cfg now i stream) [] fuel ⟨hi, h⟩

theorem processFrames_rests (cfg : ServerConfig) (now : Int) (hi : i < w.mqtt.length)
    (hs : OnWebsocket (w.session i)) (hc : Cut stream (w.session i)) :
    Cut stream ((w.processFrames cfg now i).1.session i) ∧ Rests ((w.processFrames cfg now i).1.session i) := by
  have hloop := frameLoop_rests cfg now (w.session i).rxAcc.size hi ⟨hs, hc, Nat.le_refl _⟩
  have hlen := Trace.length (trace_frameLoop cfg now (w.session i).rxAcc.size hi hs)
  rcases FrameLoop.processFrames_cases cfg now i w with he | he
  · rwa [he]
  · rw [he, FrameLoop.resume]
    generalize (w.frameLoop cfg now i (w.session i).rxAcc.size).1 = w₁ at hloop hlen
    obtain ⟨hcut, hrest⟩ := hloop
    have hi₁ : i < w₁.mqtt.length := hlen.symm ▸ hi
    have hs₁ := session_update hi₁ fun s => { s with rxAcc := s.rxAcc.compactIfNeeded 4096 }
    have hi₂ : i < (w₁.update i fun s => { s with rxAcc := s.rxAcc.compactIfNeeded 4096 }).mqtt.length := by
      simpa using hi₁
    have hcompact : Cut stream ((w₁.update i fun s => { s with rxAcc := s.rxAcc.compactIfNeeded 4096 }).session i) ∧
        Rests ((w₁.update i fun s => { s with rxAcc := s.rxAcc.compactIfNeeded 4096 }).session i) := by
      rw [hs₁]
      refine ⟨⟨hcut.received, hcut.inRange.compactIfNeeded 4096, ?_⟩, hrest.imp_right (Or.imp_right fun h => ?_)⟩
      · rw [StreamAccumulator.data_compactIfNeeded]
        exact hcut.peels
      · rwa [StreamAccumulator.data_compactIfNeeded]
    have hsame := sameInput_continueReading hi₂
    refine ⟨hcompact.1.same hsame, hcompact.2.same hsame fun hclosing => ?_⟩
    unfold continueReading
    rwa [if_pos hclosing]

/-! The stages of a session. -/

/-- The first read begins like an upgrade request. -/
def Asks (s : MqttSession) : Prop := ∃ first ∈ s.received.head?, isHandshake first = true

/-- The session has taken its stream for a plain one, and handled each read as it came. -/
structure Plain (s : MqttSession) : Prop where
  settled : s.wsHandshakeDone = true
  plain : s.isWebsocket = false
  first : ∃ first ∈ s.received.head?, isHandshake first = false
  handled : s.handled = s.received

/-- The first read decides on the transport, if the buffer may hold it. -/
inductive Stage (cap : Nat) (s : MqttSession) : Prop
  | undecided : s.wsHandshakeDone = false → s.isWebsocket = false → s.rxAcc = ⟨s.received.flatten, 0⟩ →
      s.handled = [] → s.received = [] ∨ Asks s ∨ (cap < s.received.flatten.length ∧ s.tcp.closed = true) →
      Stage cap s
  | plain : Plain s → Stage cap s
  | websocket {stream : Bytes} : OnWebsocket s → Asks s → Cut stream s → Rests s → Stage cap s

variable {cap : Nat}

theorem Asks.extend (h : Asks s) (hr : List.IsPrefix s.received s'.received) : Asks s' := by
  obtain ⟨first, hf, hask⟩ := h
  obtain ⟨more, hm⟩ := hr
  refine ⟨first, ?_, hask⟩
  rw [← hm, List.head?_append, hf]
  rfl

theorem Asks.same (h : Asks s) (hs : SameInput s s') : Asks s' := by rwa [Asks, hs.received]

theorem Plain.same (h : Plain s) (hs : SameInput s s') : Plain s' where
  settled := hs.wsHandshakeDone.trans h.settled
  plain := hs.isWebsocket.trans h.plain
  first := by rw [hs.received]; exact h.first
  handled := hs.handled.trans (h.handled.trans hs.received.symm)

theorem OnWebsocket.same (h : OnWebsocket s) (hs : SameInput s s') : OnWebsocket s' :=
  ⟨hs.wsHandshakeDone.trans h.settled, hs.isWebsocket.trans h.websocket⟩

theorem Stage.same (h : Stage cap s) (hs : SameInput s s') (hc : s.closing = true → s'.closing = true) :
    Stage cap s' := by
  cases h with
  | undecided hd hw ha hh hr =>
    refine .undecided (hs.wsHandshakeDone.trans hd) (hs.isWebsocket.trans hw) ?_ (hs.handled.trans hh) ?_
    · rw [hs.rxAcc, hs.received, ha]
    · rw [hs.received]
      exact hr.imp_right fun hr => hr.imp (·.same hs) fun hover => ⟨hover.1, hs.closed hover.2⟩
  | plain hp => exact .plain (hp.same hs)
  | websocket ho hask hcut hrest =>
    exact .websocket (OnWebsocket.same ho hs) (hask.same hs) (hcut.same hs) (hrest.same hs hc)

theorem isHandshake_iff {buffered : Bytes} : isHandshake buffered = true ↔
    List.IsPrefix (ascii "GET ") buffered ∨ List.IsPrefix (ascii "get ") buffered := by
  have hget : (ascii "GET ").length = 4 := by decide
  have hget' : (ascii "get ").length = 4 := by decide
  rw [isHandshake, Bool.or_eq_true, decide_eq_true_iff, decide_eq_true_iff, List.prefix_iff_eq_take,
    List.prefix_iff_eq_take, hget, hget', eq_comm, eq_comm (b := ascii "get ")]

theorem length_of_isHandshake {first : Bytes} (h : isHandshake first = true) : 4 ≤ first.length := by
  rcases isHandshake_iff.mp h with h | h
  · exact h.length_le
  · exact h.length_le

/-- Only the first four bytes matter. -/
theorem isHandshake_append {first : Bytes} (h : 4 ≤ first.length) (more : Bytes) :
    isHandshake (first ++ more) = isHandshake first := by
  rw [isHandshake, isHandshake, List.take_append_of_le_length h]

/-- The transport is settled once. -/
theorem settled_trace (hi : i < w.mqtt.length) (h : Trace cfg now i w w')
    (hd : (w.session i).wsHandshakeDone = true) :
    (w'.session i).wsHandshakeDone = true ∧ (w'.session i).isWebsocket = (w.session i).isWebsocket := by
  induction h with
  | refl => exact ⟨hd, rfl⟩
  | tail hpre h ih =>
    have hi' := Trace.length hpre ▸ hi
    obtain ⟨hd', hw'⟩ := ih
    cases h with
    | act h =>
      have hs := h.sameInput hi'
      exact ⟨hs.wsHandshakeDone.trans hd', hs.isWebsocket.trans hw'⟩
    | input hin e =>
      obtain ⟨_, _, _, _, _, _, _, rfl, hset, -⟩ := hin
      obtain ⟨rfl, rfl⟩ := hset hd'
      rw [e.session_self hi']
      exact ⟨rfl, hw'⟩
    | packet _ e =>
      rw [e.session_self hi']
      exact ⟨hd', hw'⟩

/-- Reads stay read. -/
theorem received_trace (hi : i < w.mqtt.length) (h : Trace cfg now i w w') :
    List.IsPrefix (w.session i).received (w'.session i).received := by
  induction h with
  | refl => exact List.prefix_rfl
  | tail hpre h ih =>
    have hi' := Trace.length hpre ▸ hi
    refine ih.trans ?_
    cases h with
    | act h => exact (h.sameInput hi').received ▸ List.prefix_rfl
    | input hin e =>
      obtain ⟨_, _, _, _, _, _, _, rfl, -, hread⟩ := hin
      rw [e.session_self hi']
      exact hread
    | packet _ e =>
      rw [e.session_self hi']
      exact List.prefix_rfl

/-- What arrives on a plain session goes to `process_packet` as it is. -/
theorem plain_processPacket (cfg : ServerConfig) (now : Int) (hi : i < w.mqtt.length) {data : Bytes} (hne : data ≠ [])
    (h : Plain ((w.session i).recordPacket data)) : Plain ((w.processPacket cfg now i data).1.session i) :=
  h.same (sameInput_processPacket cfg now hi h.settled hne)

theorem plain_firstPacket (cfg : ServerConfig) (now : Int) (hi : i < w.mqtt.length) {first : Bytes} (hne : first ≠ [])
    (ha : (w.session i).rxAcc.data = first) (hr : (w.session i).received = [first])
    (hh : (w.session i).handled = []) (hf : isHandshake first = false) :
    Plain ((w.firstPacket cfg now i).1.session i) := by
  obtain ⟨w₁, hw₁⟩ : ∃ x, w.update i (fun s => { s with wsHandshakeDone := true, isWebsocket := false }) = x :=
    ⟨_, rfl⟩
  have hi₁ : i < w₁.mqtt.length := by rwa [← hw₁, length_update]
  have hs₁ : w₁.session i = { w.session i with wsHandshakeDone := true, isWebsocket := false } :=
    hw₁ ▸ session_update hi _
  have hplain : Plain ((w₁.processPacket cfg now i first).1.session i) := by
    refine plain_processPacket cfg now hi₁ hne ?_
    rw [hs₁]
    refine ⟨rfl, rfl, ⟨first, ?_, hf⟩, ?_⟩
    · simp [recordPacket, hr]
    · simp [recordPacket, hr, hh]
  have hlen := Trace.length (trace_processPacket cfg now hi₁ (by rw [hs₁]) first)
  unfold firstPacket
  dsimp only
  rw [hw₁, show (w₁.session i).rxAcc.data = first by rw [hs₁, ← ha]]
  split
  · rename_i w₂ he
    rwa [he] at hplain
  · rename_i w₂ he
    rw [he] at hplain hlen
    have hi₂ : i < w₂.mqtt.length := hlen.symm ▸ hi₁
    refine Plain.same ?_ (sameInput_continueReading (by simpa using hi₂))
    rw [session_update hi₂]
    exact ⟨hplain.settled, hplain.plain, hplain.first, hplain.handled⟩

/-- The bytes behind an accepted request are the first of the frame stream. -/
theorem stage_accepted (hi : i < w.mqtt.length) (ha : (w.session i).rxAcc = ⟨(w.session i).received.flatten, 0⟩)
    (hh : (w.session i).handled = []) (hask : Asks (w.session i)) {n : Nat}
    (hn : find (ascii "\r\n\r\n") (w.session i).received.flatten = some n) (key : Bytes) :
    Stage cap (((w.update i (acceptHandshake n key)).processFrames cfg now i).1.session i) := by
  have hdata : (w.session i).rxAcc.data = (w.session i).received.flatten := by
    rw [ha]
    rfl
  have hs' := session_update hi (acceptHandshake n key)
  have hi' : i < (w.update i (acceptHandshake n key)).mqtt.length := by simpa using hi
  have hset : OnWebsocket ((w.update i (acceptHandshake n key)).session i) := by
    rw [hs']
    exact ⟨rfl, rfl⟩
  have hask' : Asks ((w.update i (acceptHandshake n key)).session i) := by
    rw [hs']
    exact hask
  have hcut : Cut ((w.session i).received.flatten.drop (n + 4))
      ((w.update i (acceptHandshake n key)).session i) := by
    rw [hs']
    have hle : n + 4 ≤ (w.session i).rxAcc.data.length := hdata ▸ (find_spec hn).2
    have hin : (w.session i).rxAcc.InRange := by
      rw [ha]
      exact Nat.zero_le _
    have hrest : (acceptHandshake n key (w.session i)).rxAcc.data =
        (w.session i).received.flatten.drop (n + 4) := by simp [acceptHandshake, asyncWrite, hdata]
    refine ⟨?_, (hin.consume hle).compactIfNeeded 4096, [], hrest ▸ .done _, hh⟩
    exact congrArg (Option.map _) hn
  have ht : Trace cfg now i _ (World.processFrames cfg now i _).1 := trace_processFrames hi' hset
  obtain ⟨hd, hw⟩ := settled_trace hi' ht hset.settled
  obtain ⟨hcut', hrests⟩ := processFrames_rests cfg now hi' hset hcut
  exact .websocket ⟨hd, hw.trans hset.websocket⟩ (hask'.extend (received_trace hi' ht)) hcut' hrests

theorem stage_detectTransport (hi : i < w.mqtt.length) (hd : (w.session i).wsHandshakeDone = false)
    (hw : (w.session i).isWebsocket = false) (ha : (w.session i).rxAcc = ⟨(w.session i).received.flatten, 0⟩)
    (hh : (w.session i).handled = []) {first : Bytes} {more : List Bytes}
    (hr : (w.session i).received = first :: more) (hf : (more = [] ∧ first ≠ []) ∨ isHandshake first = true) :
    Stage cap ((w.detectTransport cfg now i).1.session i) := by
  have hdata : (w.session i).rxAcc.data = (w.session i).received.flatten := by
    rw [ha]
    rfl
  unfold detectTransport
  dsimp only
  rw [hdata]
  by_cases hreq : isHandshake (w.session i).received.flatten = true
  · rw [if_pos hreq]
    have hfirst : isHandshake first = true := by
      rcases hf with ⟨rfl, -⟩ | hf
      · simpa [hr] using hreq
      · exact hf
    have hask : Asks (w.session i) := ⟨first, by rw [hr]; rfl, hfirst⟩
    have hwait : Stage cap (w.session i) := .undecided hd hw ha hh (.inr (.inl hask))
    split
    · refine hwait.same (sameInput_update hi ⟨rfl, rfl, rfl, rfl, rfl, id⟩) fun hc => ?_
      rw [session_update hi]
      exact hc
    · rename_i hn
      split
      · exact stage_accepted hi ha hh hask hn _
      · exact hwait.same (sameInput_endSession hi) (closing_trace hi (acts_trace (acts_endSession cfg now hi)))
  · rw [if_neg hreq]
    have hnot : isHandshake first = false := by
      by_contra h
      refine hreq ?_
      have hfirst : isHandshake first = true := by simpa using h
      rw [hr, List.flatten_cons, isHandshake_append (length_of_isHandshake hfirst), hfirst]
    rcases hf with ⟨rfl, hne⟩ | hf
    · exact .plain (plain_firstPacket cfg now hi hne (by rw [hdata, hr, List.flatten_singleton]) hr hh hnot)
    · exact nomatch hnot.symm.trans hf

/-! One read. -/

theorem plain_onBytesRead (cfg : ServerConfig) (now : Int) (hi : i < w.mqtt.length) {data : Bytes} (hne : data ≠ [])
    (hp : Plain (w.session i)) : Plain ((w.onBytesRead cfg now i data).1.session i) := by
  obtain ⟨w₁, hw₁⟩ : ∃ x, w.update i (recordRead data) = x := ⟨_, rfl⟩
  have hi₁ : i < w₁.mqtt.length := by rwa [← hw₁, length_update]
  have hs₁ : w₁.session i = (w.session i).recordRead data := hw₁ ▸ session_update hi _
  have hplain : Plain ((w₁.processPacket cfg now i data).1.session i) := by
    refine plain_processPacket cfg now hi₁ hne ?_
    rw [hs₁]
    refine ⟨hp.settled, hp.plain, ?_, congrArg (· ++ [data]) hp.handled⟩
    obtain ⟨first, hf, hnot⟩ := hp.first
    refine ⟨first, ?_, hnot⟩
    show first ∈ ((w.session i).received ++ [data]).head?
    rw [List.head?_append, hf]
    rfl
  have hlen := Trace.length (trace_processPacket cfg now hi₁ (by rw [hs₁]; exact hp.settled) data)
  unfold onBytesRead
  dsimp only
  rw [hw₁, hs₁, show ((w.session i).recordRead data).wsHandshakeDone = true from hp.settled, if_neg (by simp),
    show ((w.session i).recordRead data).isWebsocket = false from hp.plain, if_neg (by simp)]
  split
  · rename_i w₂ he
    rwa [he] at hplain
  · rename_i w₂ he
    rw [he] at hplain hlen
    exact hplain.same (sameInput_continueReading (hlen.symm ▸ hi₁))

/-- The session with a read in its buffer. -/
def buffering (data : Bytes) (s : MqttSession) : MqttSession :=
  { s.recordRead data with rxAcc := s.rxAcc.append data }

/-- The world in which session `i` has a read in its buffer. -/
theorem buffered_eq (hi : i < w.mqtt.length) (data : Bytes) :
    (w.update i (recordRead data)).update i (fun s => { s with rxAcc := s.rxAcc.append data }) =
      w.update i (buffering data) := update_update hi _ _

theorem stage_undecided_read (hi : i < w.mqtt.length) {data : Bytes} (hne : data ≠ [])
    (hd : (w.session i).wsHandshakeDone = false) (hw : (w.session i).isWebsocket = false)
    (ha : (w.session i).rxAcc = ⟨(w.session i).received.flatten, 0⟩) (hh : (w.session i).handled = [])
    (hr : (w.session i).received = [] ∨ Asks (w.session i) ∨
      (cfg.maxSessionBufferBytes < (w.session i).received.flatten.length ∧ (w.session i).tcp.closed = true)) :
    Stage cfg.maxSessionBufferBytes ((w.onBytesRead cfg now i data).1.session i) := by
  have hflat : ((w.session i).received ++ [data]).flatten = (w.session i).received.flatten ++ data := by simp
  have hs₁ := session_update hi (buffering data)
  have hi₁ : i < (w.update i (buffering data)).mqtt.length := by simpa using hi
  have hbuffer : (buffering data (w.session i)).rxAcc = ⟨((w.session i).received ++ [data]).flatten, 0⟩ := by
    rw [hflat]
    simp only [buffering, StreamAccumulator.append, ha]
  unfold onBytesRead buffered
  dsimp only
  rw [session_update hi, show ((w.session i).recordRead data).wsHandshakeDone = false from hd, Bool.not_false,
    if_pos rfl, buffered_eq hi, hs₁, hbuffer]
  split
  · rename_i hfull
    have hsame : SameInput _ (World.session (World.endSession cfg now i _).1 i) := sameInput_endSession hi₁
    rw [hs₁] at hsame
    refine .undecided (hsame.wsHandshakeDone.trans hd) (hsame.isWebsocket.trans hw) ?_ (hsame.handled.trans hh)
      (.inr (.inr ⟨?_, closed_endSession hi₁⟩))
    · rw [hsame.rxAcc, hsame.received]
      exact hbuffer
    · rw [hsame.received]
      exact hfull
  · rename_i hfits
    have hcap : ¬ cfg.maxSessionBufferBytes < ((w.session i).received ++ [data]).flatten.length := hfits
    obtain ⟨first, more, hrec, hf⟩ : ∃ first more, (w.session i).received ++ [data] = first :: more ∧
        ((more = [] ∧ first ≠ []) ∨ isHandshake first = true) := by
      rcases hr with hr | ⟨first, hf, hask⟩ | ⟨hover, -⟩
      · exact ⟨data, [], by rw [hr]; rfl, .inl ⟨rfl, hne⟩⟩
      · obtain ⟨more, hl⟩ := List.head?_eq_some_iff.mp hf
        exact ⟨first, more ++ [data], by rw [hl]; rfl, .inr hask⟩
      · rw [hflat, List.length_append] at hcap
        omega
    refine stage_detectTransport hi₁ ?_ ?_ ?_ ?_ ?_ hf
    · rw [hs₁]
      exact hd
    · rw [hs₁]
      exact hw
    · rw [hs₁]
      exact hbuffer
    · rw [hs₁]
      exact hh
    · rw [hs₁]
      exact hrec

theorem websocket_onBytesRead (cfg : ServerConfig) (now : Int) (hi : i < w.mqtt.length) (data : Bytes)
    (ho : OnWebsocket (w.session i)) (hcut : Cut stream (w.session i)) :
    Cut (stream ++ data) ((w.onBytesRead cfg now i data).1.session i) ∧
      Rests ((w.onBytesRead cfg now i data).1.session i) := by
  have hs₁ := session_update hi (buffering data)
  have hi₁ : i < (w.update i (buffering data)).mqtt.length := by simpa using hi
  have hcut₁ : Cut (stream ++ data) (buffering data (w.session i)) := hcut.extend data rfl rfl rfl
  have ho₁ : OnWebsocket (buffering data (w.session i)) := ⟨ho.settled, ho.websocket⟩
  rw [← hs₁] at hcut₁ ho₁
  unfold onBytesRead buffered
  dsimp only
  rw [session_update hi, show ((w.session i).recordRead data).wsHandshakeDone = true from ho.settled,
    if_neg (by simp), show ((w.session i).recordRead data).isWebsocket = true from ho.websocket, if_pos rfl,
    buffered_eq hi]
  split
  · obtain ⟨hcut', hclosed⟩ := cut_endSession cfg now hi₁ hcut₁
    exact ⟨hcut', .inl hclosed⟩
  · exact processFrames_rests cfg now hi₁ ho₁ hcut₁

theorem stage_onBytesRead (hi : i < w.mqtt.length) {data : Bytes} (hne : data ≠ [])
    (h : Stage cfg.maxSessionBufferBytes (w.session i)) :
    Stage cfg.maxSessionBufferBytes ((w.onBytesRead cfg now i data).1.session i) := by
  cases h with
  | undecided hd hw ha hh hr => exact stage_undecided_read hi hne hd hw ha hh hr
  | plain hp => exact .plain (plain_onBytesRead cfg now hi hne hp)
  | websocket ho hask hcut _ =>
    have ht := trace_onBytesRead cfg now hi data
    obtain ⟨hd, hw⟩ := settled_trace hi ht ho.settled
    obtain ⟨hcut', hrests⟩ := websocket_onBytesRead cfg now hi data ho hcut
    exact .websocket ⟨hd, hw.trans ho.websocket⟩ (hask.extend (received_trace hi ht)) hcut' hrests

/-! Runs. -/

/-- Sessions only come from a listener. -/
theorem sessions_step {e : World.Event} (h : step cfg w e = some w') : w'.mqtt.length = w.mqtt.length ∨
    ∃ server remote again, w'.mqtt = w.mqtt ++ [accepted server remote again] := by
  cases step_cases h with
  | rejected _ _ hw | acceptedHttp _ hw | http _ _ hw | destroyedHttp _ _ hw => exact .inl (hw ▸ rfl)
  | acceptedMqtt _ hw =>
    subst hw
    exact .inr ⟨_, _, _, rfl⟩
  | moved _ ht => exact .inl (Trace.length ht)
  | transferred _ _ _ hw => exact .inl (hw ▸ List.length_set)
  | destroyedMqtt _ hc hw =>
    subst hc hw
    rw [length_update]
    exact .inl (length_closeSession cfg _ _ w)
  | swept hs =>
    refine .inl ?_
    clear h
    induction hs with
    | none => rfl
    | remove ha _ ih => rw [ih, ha.mqtt, List.length_map]

/-- Sessions stay. -/
theorem length_step {e : World.Event} (h : step cfg w e = some w') : w.mqtt.length ≤ w'.mqtt.length := by
  rcases sessions_step h with hlen | ⟨_, _, _, hm⟩
  · exact Nat.le_of_eq hlen.symm
  · rw [hm, List.length_append]
    exact Nat.le_add_right _ _

theorem stage_onMqtt {data : Bytes} (hi : i < w.mqtt.length)
    (hw : Stage cfg.maxSessionBufferBytes (w.session i))
    (h : w.onMqtt cfg now i (w.session i) (.read data) = some w') :
    Stage cfg.maxSessionBufferBytes (w'.session i) := by
  cases onMqtt_cases h with
  | read _ hne _ =>
    refine stage_onBytesRead (by simpa using hi) hne
      (hw.same (sameInput_update hi ⟨rfl, rfl, rfl, rfl, rfl, id⟩) fun hc => ?_)
    rw [session_update hi]
    exact hc

theorem stage_step {e : World.Event} (hw : All (fun _ => Stage cfg.maxSessionBufferBytes) w)
    (h : step cfg w e = some w') : All (fun _ => Stage cfg.maxSessionBufferBytes) w' := by
  have old {j : Nat} (hj : j < w.mqtt.length) : Stage cfg.maxSessionBufferBytes (w'.session j) := by
    by_cases he : ∃ now data, e = .mqtt now j (.read data)
    · obtain ⟨now, data, rfl⟩ := he
      rw [step, session_eq hj] at h
      exact stage_onMqtt hj (hw.session hj) h
    · exact (hw.session hj).same (sameInput_step hj (fun now data hd => he ⟨now, data, hd⟩) h) (closing_step hj h)
  intro j s hs
  rcases sessions_step h with hlen | ⟨server, remote, again, hm⟩
  · obtain ⟨rfl, hj⟩ := session_of_get hs
    exact old (hlen ▸ hj)
  · rcases getElem?_snoc (hm ▸ hs) with hold | ⟨-, rfl⟩
    · rw [← (session_of_get hs).1]
      exact old (session_of_get hold).2
    · exact .undecided rfl rfl rfl rfl (.inl rfl)

theorem stage_run {es : List World.Event} (h : (machine cfg).Reaches (init cfg) es w) :
    All (fun _ => Stage cfg.maxSessionBufferBytes) w :=
  h.invariant (All fun _ => Stage cfg.maxSessionBufferBytes) (all_init _ cfg)
    fun _ _ _ hm _ hs => stage_step hm hs

end LightApr.Server.Receiving
