import LightApr.Server.Refusal

/-! In every run a session evaluates at most one CONNECT that it refuses, and nothing after it. -/
namespace LightApr.Server.Refusal
open LightApr.Core Lib Lib.Framing Mqtt MqttSession World FrameStream Receiving FrameLoop WebsocketCodec Packet

/-- Nothing has been refused. -/
structure Granted (accessKey : Bytes) (s : MqttSession) : Prop where
  going : s.closing = false
  handled : ∀ p ∈ s.handled, refuses accessKey p = false
  buffers : ∀ buf ∈ s.out.buffers, Harmless s buf
  writes : ∀ x ∈ s.writes, x.2 ≠ .closing

/-- The last frame that was taken carried the packet. -/
def Carried (frames : List WsFrame) (packet : Bytes) : Prop :=
  ∃ front frame, frames = front ++ [frame] ∧ (frame.opcode = 0x01 ∨ frame.opcode = 0x02) ∧ frame.payload = packet

/-- The refusal is written, only messages of others stand behind it, and the end of its write closes the session. -/
def Answered (s : MqttSession) : Prop :=
  ∃ before refusal after, s.out.buffers = before ++ refusal :: after ∧ IsRefusal s.isWebsocket refusal ∧
    (∀ buf ∈ before, Harmless s buf) ∧ (∀ buf ∈ after, IsDelivery s.isWebsocket buf) ∧
    (s.tcp.closed = true ∨ (before.length, WriteKind.closing) ∈ s.writes)

/-- The last packet was refused, and no other. -/
structure Refused (accessKey : Bytes) (frames : List WsFrame) (s : MqttSession) : Prop where
  closing : s.closing = true
  settled : s.wsHandshakeDone = true
  last : ∃ before packet, s.handled = before ++ [packet] ∧ refuses accessKey packet = true ∧
    (∀ p ∈ before, refuses accessKey p = false) ∧ (s.isWebsocket = true → Carried frames packet)
  answered : Answered s

structure Standing (accessKey : Bytes) (frames : List WsFrame) (s : MqttSession) : Prop where
  reads : s.tcp.reads.length ≤ 1
  stopped : s.closing = true → s.tcp.reads = []
  placed : ∀ x ∈ s.writes, x.1 < s.out.buffers.length
  /-- the writes of one buffer -/
  only : ∀ x ∈ s.writes, ∀ y ∈ s.writes, y.2 = .closing → x.1 = y.1 → x.2 = .closing
  judged : Granted accessKey s ∨ Refused accessKey frames s

/-- The frames are those that have been cut off the stream, and the packets in them have been handled. -/
structure Peeled (frames : List WsFrame) (s : MqttSession) : Prop where
  handled : s.handled = packets frames
  raws : ∀ stream, frameStream s.received.flatten = some stream →
    ∃ raws, framer.Peels stream raws s.rxAcc.data ∧ raws.filterMap readFrame = frames

structure Kept (accessKey : Bytes) (frames : List WsFrame) (s : MqttSession) : Prop where
  standing : Standing accessKey frames s
  peeled : s.isWebsocket = true → Peeled frames s
  plain : s.isWebsocket = false → frames = []

variable {cfg : ServerConfig} {now : Int} {i : Nat} {w w' : World} {s s' : MqttSession} {accessKey data : Bytes}
  {frames done : List WsFrame}

/-! What others do to the session. -/

theorem Granted.keeps (h : Granted accessKey s) (hk : Keeps (Harmless s) s s') : Granted accessKey s' := by
  obtain ⟨more, hm, hall⟩ := hk.buffers
  refine ⟨hk.closing.trans h.going, ?_, fun buf hbuf => ?_, fun x hx => ?_⟩
  · rw [hk.input.handled]
    exact h.handled
  · rw [Harmless, hk.input.isWebsocket]
    rcases List.mem_append.mp (hm ▸ hbuf) with hb | hb
    · exact h.buffers buf hb
    · exact hall buf hb
  · rcases hk.writes x hx with hx | ⟨hne, -⟩
    · exact h.writes x hx
    · exact hne

theorem Answered.passes (h : Answered s) (hp : Passes s s') : Answered s' := by
  obtain ⟨before, refusal, after, hb, hr, hbefore, hafter, hpending⟩ := h
  obtain ⟨more, hm, hall⟩ := hp.keeps.buffers
  have hws := hp.keeps.input.isWebsocket
  refine ⟨before, refusal, after ++ more, ?_, hws ▸ hr, ?_, fun buf hbuf => ?_, ?_⟩
  · rw [hm, hb, List.append_assoc, List.cons_append]
  · unfold Harmless
    rw [hws]
    exact hbefore
  · rw [hws]
    rcases List.mem_append.mp hbuf with hb | hb
    · exact hafter buf hb
    · exact hall buf hb
  · rcases hp.pending with hc | hkept
    · exact .inl hc
    · rcases hpending with hc | hw
      · exact .inl (hp.keeps.input.closed hc)
      · exact .inr (hkept _ hw rfl)

theorem Refused.passes (h : Refused accessKey frames s) (hp : Passes s s') : Refused accessKey frames s' where
  closing := hp.keeps.closing.trans h.closing
  settled := hp.keeps.input.wsHandshakeDone.trans h.settled
  last := by
    rw [hp.keeps.input.handled, hp.keeps.input.isWebsocket]
    exact h.last
  answered := h.answered.passes hp

/-- Buffers are only added. -/
theorem Keeps.length_le {B : Bytes → Prop} (h : Keeps B s s') : s.out.buffers.length ≤ s'.out.buffers.length := by
  obtain ⟨more, hm, -⟩ := h.buffers
  rw [hm, List.length_append]
  exact Nat.le_add_right _ _

/-- A session that goes on has refused nothing. -/
theorem Standing.granted (h : Standing accessKey frames s) (hgoing : s.closing = false) : Granted accessKey s := by
  rcases h.judged with hg | hr
  · exact hg
  · cases hgoing.symm.trans hr.closing

/-- The one read is the one that completes. -/
theorem Standing.reads_eq (h : Standing accessKey frames s) (hopen : true ∈ s.tcp.reads) : s.tcp.reads = [true] := by
  have hlen := h.reads
  cases hr : s.tcp.reads with
  | nil =>
    rw [hr] at hopen
    exact absurd hopen List.not_mem_nil
  | cons r rest =>
    rw [hr, List.length_cons] at hlen
    obtain rfl := List.eq_nil_of_length_eq_zero (Nat.le_zero.mp (Nat.le_of_succ_le_succ hlen))
    rw [hr] at hopen
    rw [List.mem_singleton.mp hopen]

/-- The bookkeeping of the reads and writes, with a verdict. -/
theorem Standing.keeps {B : Bytes → Prop} (h : Standing accessKey done s) (hk : Keeps B s s')
    (hj : Granted accessKey s' ∨ Refused accessKey frames s') : Standing accessKey frames s' := by
  refine ⟨Nat.le_trans hk.reads.length_le h.reads, fun hc => ?_, fun x hx => ?_, fun x hx y hy hky hxy => ?_, hj⟩
  · have hnone := h.stopped (hk.closing.symm.trans hc)
    exact List.suffix_nil.mp (hnone ▸ hk.reads)
  · rcases hk.writes x hx with hx | ⟨-, -, hlt⟩
    · exact Nat.lt_of_lt_of_le (h.placed x hx) hk.length_le
    · exact hlt
  · have hold : y ∈ s.writes := by
      rcases hk.writes y hy with hy | ⟨hne, -⟩
      · exact hy
      · exact absurd hky hne
    rcases hk.writes x hx with hx | ⟨-, hge, -⟩
    · exact h.only x hx y hold hky hxy
    · have := h.placed y hold
      omega

theorem Standing.passes (h : Standing accessKey frames s) (hp : Passes s s') : Standing accessKey frames s' :=
  h.keeps hp.keeps (h.judged.imp (·.keeps hp.harmless) (·.passes hp))

theorem Peeled.same (h : Peeled frames s) (hs : SameInput s s') : Peeled frames s' := by
  refine ⟨hs.handled.trans h.handled, ?_⟩
  rw [hs.received, hs.rxAcc]
  exact h.raws

theorem Kept.passes (h : Kept accessKey frames s) (hp : Passes s s') : Kept accessKey frames s' := by
  have hws := hp.keeps.input.isWebsocket
  exact ⟨h.standing.passes hp, fun hs => (h.peeled (hws ▸ hs)).same hp.keeps.input, fun hs => h.plain (hws ▸ hs)⟩

/-! A packet of the session itself. -/

/-- Changes of the other fields; the transport may be settled while nothing is written. -/
theorem Standing.of_eq (h : Standing accessKey frames s) (hclosing : s'.closing = s.closing)
    (hreads : s'.tcp.reads = s.tcp.reads) (hclosed : s'.tcp.closed = s.tcp.closed) (hhandled : s'.handled = s.handled)
    (hout : s'.out.buffers = s.out.buffers) (hwrites : s'.writes = s.writes)
    (hset : s.wsHandshakeDone = true → s'.isWebsocket = s.isWebsocket ∧ s'.wsHandshakeDone = true)
    (hnone : s.wsHandshakeDone = false → s.out.buffers = []) : Standing accessKey frames s' := by
  refine ⟨by rw [hreads]; exact h.reads, by rw [hclosing, hreads]; exact h.stopped,
    by rw [hwrites, hout]; exact h.placed, by rw [hwrites]; exact h.only, ?_⟩
  rcases h.judged with hg | hr
  · refine .inl ⟨hclosing.trans hg.going, by rw [hhandled]; exact hg.handled, fun buf hbuf => ?_,
      by rw [hwrites]; exact hg.writes⟩
    rw [hout] at hbuf
    cases hd : s.wsHandshakeDone with
    | true =>
      rw [Harmless, (hset hd).1]
      exact hg.buffers buf hbuf
    | false =>
      rw [hnone hd] at hbuf
      exact absurd hbuf List.not_mem_nil
  · obtain ⟨hws, hdone⟩ := hset hr.settled
    refine .inr ⟨hclosing.trans hr.closing, hdone, by rw [hhandled, hws]; exact hr.last, ?_⟩
    unfold Answered Harmless
    rw [hout, hws, hclosed, hwrites]
    exact hr.answered

/-- The verdict on a session that handles a packet. -/
theorem Granted.refuse (h : Granted accessKey s) (hsettled : s.wsHandshakeDone = true)
    (hr : refuses accessKey data = true) (hframes : s.isWebsocket = true → Carried frames data)
    (clientId username : Bytes)
    {returnCode : UInt8} (hcode : returnCode ≠ 0) :
    Refused accessKey frames
      ({ s.recordPacket data with clientId, username }.sendRawAndClose (encodeConnack returnCode)) where
  closing := rfl
  settled := hsettled
  last := ⟨s.handled, data, rfl, hr, h.handled, hframes⟩
  answered := ⟨s.out.buffers, s.framed (encodeConnack returnCode), [], rfl, ⟨returnCode, hcode, rfl⟩, h.buffers,
    fun _ hb => absurd hb List.not_mem_nil, .inr (List.mem_append_right _ (List.mem_singleton_self _))⟩

theorem standing_processPacket (cfg : ServerConfig) (now : Int) (hi : i < w.mqtt.length)
    (h : Standing cfg.accessKey done (w.session i)) (hgoing : (w.session i).closing = false)
    (hreads : (w.session i).tcp.reads = []) (hsettled : (w.session i).wsHandshakeDone = true) (hne : data ≠ [])
    (hframes : (w.session i).isWebsocket = true → Carried frames data) :
    Standing cfg.accessKey frames ((w.processPacket cfg now i data).1.session i) ∧
      ((w.processPacket cfg now i data).1.session i).tcp.reads = [] := by
  have hg : Granted cfg.accessKey (w.session i) := h.granted hgoing
  rcases processPacket_verdict cfg now hi hne with ⟨hno, hk⟩ | ⟨hyes, clientId, username, returnCode, hcode, he⟩
  · have hrecord : Granted cfg.accessKey ((w.session i).recordPacket data) := by
      refine ⟨hg.going, fun p hp => ?_, hg.buffers, hg.writes⟩
      rcases List.mem_append.mp hp with hp | hp
      · exact hg.handled p hp
      · rwa [List.mem_singleton.mp hp]
    have hstanding : Standing cfg.accessKey done ((w.session i).recordPacket data) :=
      ⟨h.reads, h.stopped, h.placed, h.only, .inl hrecord⟩
    exact ⟨hstanding.keeps hk (.inl (hrecord.keeps hk)), List.suffix_nil.mp (hreads ▸ hk.reads)⟩
  · rw [he]
    refine ⟨⟨?_, fun _ => hreads, fun x hx => ?_, fun x hx y hy hky hxy => ?_,
      .inr (hg.refuse hsettled hyes hframes clientId username hcode)⟩, hreads⟩
    · show (w.session i).tcp.reads.length ≤ 1
      rw [hreads]
      exact Nat.zero_le 1
    · show x.1 < ((w.session i).out.buffers ++ [_]).length
      rw [List.length_append]
      rcases List.mem_append.mp hx with hx | hx
      · exact Nat.lt_succ_of_lt (h.placed x hx)
      · rw [List.mem_singleton.mp hx]
        exact Nat.lt_succ_self _
    · rcases List.mem_append.mp hy with hy | hy
      · exact absurd hky (hg.writes y hy)
      · rcases List.mem_append.mp hx with hx | hx
        · have := h.placed x hx
          rw [hxy, List.mem_singleton.mp hy] at this
          exact absurd this (Nat.lt_irrefl _)
        · rw [List.mem_singleton.mp hx]

/-! One read. -/

/-- A session inside its read handler. -/
structure Handling (accessKey : Bytes) (frames : List WsFrame) (s : MqttSession) : Prop where
  standing : Standing accessKey frames s
  idle : s.tcp.reads = []

/-- A WebSocket session inside its frame loop. -/
structure Looping (accessKey : Bytes) (i : Nat) (frames : List WsFrame) (w : World) : Prop where
  present : i < w.mqtt.length
  onWebsocket : OnWebsocket (w.session i)
  handling : Handling accessKey frames (w.session i)
  peeled : Peeled frames (w.session i)

/-- Packets of one frame more. -/
theorem packets_snoc (frames : List WsFrame) (frame : WsFrame) :
    packets (frames ++ [frame]) = packets frames ++ packets [frame] := by
  rw [packets, List.filter_append, List.map_append]
  rfl

/-- A frame has been taken from the buffer, and its packet handled. -/
theorem Peeled.next (h : Peeled done s) {frame : WsFrame} {n : Nat} (ht : Takes s frame n)
    (hreceived : s'.received = s.received) (hrx : s'.rxAcc = s.rxAcc.consume n)
    (hhandled : s'.handled = s.handled ++ packets [frame]) : Peeled (done ++ [frame]) s' := by
  refine ⟨?_, fun stream hstream => ?_⟩
  · rw [hhandled, h.handled, packets_snoc]
  · rw [hreceived] at hstream
    obtain ⟨raws, hp, hframes⟩ := h.raws stream hstream
    refine ⟨raws ++ [s.rxAcc.data.take n], ?_, ?_⟩
    · rw [hrx, StreamAccumulator.data_consume]
      exact hp.trans (.next (framer_cut ht.decoded) (.done _))
    · rw [List.filterMap_append, hframes, List.filterMap_cons_some (readFrame_take ht.decoded), List.filterMap_nil]

/-- Frames that carry no packet change nothing of the verdict. -/
theorem Standing.going (h : Standing accessKey done s) (hgoing : s.closing = false) : Standing accessKey frames s :=
  ⟨h.reads, h.stopped, h.placed, h.only, .inl (h.granted hgoing)⟩

theorem standing_consuming (h : Standing accessKey frames s) (hsettled : s.wsHandshakeDone = true) (n : Nat) :
    Standing accessKey frames (consuming n s) :=
  h.of_eq rfl rfl rfl rfl rfl rfl (fun _ => ⟨rfl, hsettled⟩) fun hd => by cases hd.symm.trans hsettled

/-- A text or binary frame. -/
theorem Looping.packet (cfg : ServerConfig) (now : Int) (h : Looping cfg.accessKey i done w) {frame : WsFrame} {n : Nat}
    (ht : Takes (w.session i) frame n) (hop : frame.opcode = 0x01 ∨ frame.opcode = 0x02) :
    Looping cfg.accessKey i (done ++ [frame])
      ((w.update i (consuming n)).processPacket cfg now i frame.payload).1 := by
  have hi := h.present
  have hi' : i < (w.update i (consuming n)).mqtt.length := by simpa using hi
  have hs' := session_update hi (consuming n)
  have hset : ((w.update i (consuming n)).session i).wsHandshakeDone = true := hs' ▸ h.onWebsocket.settled
  have hlen := Trace.length (trace_processPacket cfg now hi' hset frame.payload)
  have hon :=
    onWebsocket_processPacket cfg now hi' (hs' ▸ ⟨h.onWebsocket.settled, h.onWebsocket.websocket⟩) frame.payload
  have hstanding : Standing cfg.accessKey done ((w.update i (consuming n)).session i) :=
    hs' ▸ standing_consuming h.handling.standing h.onWebsocket.settled n
  have hgoing : ((w.update i (consuming n)).session i).closing = false := hs' ▸ ht.going
  have hreads : ((w.update i (consuming n)).session i).tcp.reads = [] := hs' ▸ h.handling.idle
  refine ⟨hlen.symm ▸ hi', hon, ?_, ?_⟩
  · by_cases hne : frame.payload = []
    · rw [hne]
      exact ⟨hstanding.going hgoing, hreads⟩
    · have hcarried : Carried (done ++ [frame]) frame.payload := ⟨done, frame, rfl, hop, rfl⟩
      obtain ⟨hst, hidle⟩ := standing_processPacket cfg now hi' hstanding hgoing hreads hset hne fun _ => hcarried
      exact ⟨hst, hidle⟩
  · by_cases hne : frame.payload = []
    · refine h.peeled.next ht ?_ ?_ ?_
      · rw [hne, processPacket, hs']
        rfl
      · rw [hne, processPacket, hs']
        rfl
      · rw [hne, processPacket, hs']
        simp [consuming, packets, hne]
    · have hsame := sameInput_processPacket cfg now hi' hset hne
      rw [hs'] at hsame
      refine h.peeled.next ht hsame.received hsame.rxAcc ?_
      rw [hsame.handled]
      simp [recordPacket, consuming, packets, hop, hne]

/-- A control frame, or one that carries no packet. -/
theorem Looping.skip (h : Looping accessKey i done w) {frame : WsFrame} {n : Nat} (ht : Takes (w.session i) frame n)
    (hop : ¬ (frame.opcode = 0x01 ∨ frame.opcode = 0x02)) :
    Looping accessKey i (done ++ [frame]) (w.update i (consuming n)) := by
  have hi := h.present
  have hs' := session_update hi (consuming n)
  refine ⟨by simpa using hi, hs' ▸ ⟨h.onWebsocket.settled, h.onWebsocket.websocket⟩, ?_, ?_⟩
  · rw [hs']
    exact ⟨(standing_consuming h.handling.standing h.onWebsocket.settled n).going ht.going, h.handling.idle⟩
  · rw [hs']
    exact h.peeled.next ht rfl rfl (by simp [consuming, packets, hop])

theorem Looping.keeps (h : Looping accessKey i frames w) (hlen : w'.mqtt.length = w.mqtt.length)
    (hk : Keeps (Harmless (w.session i)) (w.session i) (w'.session i))
    (hgoing : (w.session i).closing = false) : Looping accessKey i frames w' := by
  have hg : Granted accessKey (w.session i) := h.handling.standing.granted hgoing
  refine ⟨hlen.symm ▸ h.present, OnWebsocket.same h.onWebsocket hk.input, ?_, h.peeled.same hk.input⟩
  exact ⟨h.handling.standing.keeps hk (.inl (hg.keeps hk)), List.suffix_nil.mp (h.handling.idle ▸ hk.reads)⟩

theorem looping_round (cfg : ServerConfig) (now : Int) (i : Nat) :
    Round cfg now i (fun done _ w => Looping cfg.accessKey i done w) (Looping cfg.accessKey i) where
  halts h _ := h
  packet h ht hop hp := by
    have hnext := h.packet cfg now ht hop
    rw [hp] at hnext
    exact ⟨fun _ => hnext, fun _ => hnext⟩
  close {done fuel w frame n} h ht hop := by
    have hskip := h.skip ht (by rw [hop]; decide)
    have hpass := passes_endSession cfg now hskip.present
    have hlen := Acts.length (acts_endSession cfg now hskip.present)
    refine hskip.keeps hlen hpass.harmless ?_
    rw [session_update h.present]
    exact ht.going
  ping {done fuel w frame n} h ht hop := by
    have hskip := h.skip ht (by rw [hop]; decide)
    refine hskip.keeps (by simp) ?_ ?_
    · rw [session_update hskip.present]
      refine keeps_asyncWrite .ignored ?_ nofun
      rw [Harmless, hskip.onWebsocket.websocket]
      exact not_isRefusal_pong frame.payload
    · rw [session_update h.present]
      exact ht.going
  skip h ht hop _ _ := h.skip ht hop

/-- The next read is started. -/
theorem Handling.startReadLoop (h : Handling accessKey frames s) (hgoing : s.closing = false) :
    Standing accessKey frames s.startReadLoop := by
  have hg := h.standing.granted hgoing
  refine ⟨?_, fun hc => ?_, h.standing.placed, h.standing.only, .inl ⟨hg.going, hg.handled, hg.buffers, hg.writes⟩⟩
  · show (s.tcp.reads ++ [_]).length ≤ 1
    rw [h.idle]
    exact Nat.le_refl 1
  · cases hgoing.symm.trans hc

/-- The handler returns, with the next read started unless the session is closing. -/
theorem Handling.continueReading (h : Handling accessKey frames (w.session i)) (hi : i < w.mqtt.length) :
    Standing accessKey frames ((w.continueReading i).session i) ∧
      ((w.continueReading i).session i).isWebsocket = (w.session i).isWebsocket ∧
      (Peeled frames (w.session i) → Peeled frames ((w.continueReading i).session i)) := by
  unfold World.continueReading
  split
  · exact ⟨h.standing, rfl, id⟩
  · rename_i hgoing
    rw [session_update hi]
    exact ⟨h.startReadLoop (eq_false_of_ne_true hgoing), rfl, fun hp => ⟨hp.handled, hp.raws⟩⟩

theorem Looping.kept (h : Looping accessKey i frames w) : Kept accessKey frames (w.session i) :=
  ⟨h.handling.standing, fun _ => h.peeled, fun hws => by cases h.onWebsocket.websocket.symm.trans hws⟩

theorem Looping.resume (h : Looping accessKey i frames w) :
    Kept accessKey frames ((resume i w).session i) := by
  obtain ⟨w₁, hw₁⟩ : ∃ x, w.update i (fun s => { s with rxAcc := s.rxAcc.compactIfNeeded 4096 }) = x := ⟨_, rfl⟩
  have hi₁ : i < w₁.mqtt.length := by
    rw [← hw₁, length_update]
    exact h.present
  have hs₁ : w₁.session i = { w.session i with rxAcc := (w.session i).rxAcc.compactIfNeeded 4096 } :=
    hw₁ ▸ session_update h.present _
  have hhandling : Handling accessKey frames (w₁.session i) := by
    rw [hs₁]
    refine ⟨h.handling.standing.of_eq rfl rfl rfl rfl rfl rfl (fun hd => ⟨rfl, hd⟩) fun hd => ?_, h.handling.idle⟩
    cases hd.symm.trans h.onWebsocket.settled
  have hpeeled : Peeled frames (w₁.session i) := by
    rw [hs₁]
    refine ⟨h.peeled.handled, ?_⟩
    rw [StreamAccumulator.data_compactIfNeeded]
    exact h.peeled.raws
  have hws₁ : (w₁.session i).isWebsocket = true := hs₁ ▸ h.onWebsocket.websocket
  obtain ⟨hstanding, hws, hkeep⟩ := hhandling.continueReading hi₁
  unfold FrameLoop.resume
  rw [hw₁]
  exact ⟨hstanding, fun _ => hkeep hpeeled, fun hno => by cases (hws.trans hws₁).symm.trans hno⟩

theorem Looping.processFrames (cfg : ServerConfig) (now : Int) (h : Looping cfg.accessKey i frames w) :
    Kept cfg.accessKey (frames ++ processed cfg now i w) ((w.processFrames cfg now i).1.session i) := by
  have hloop : Looping cfg.accessKey i (frames ++ processed cfg now i w)
      (w.frameLoop cfg now i (w.session i).rxAcc.size).1 := (looping_round cfg now i).loop h
  rcases processFrames_cases cfg now i w with he | he
  · rw [he]
    exact hloop.kept
  · rw [he]
    exact hloop.resume

/-- A read that is one packet. -/
theorem kept_packetThen (cfg : ServerConfig) (now : Int) (hi : i < w.mqtt.length)
    (h : Handling cfg.accessKey [] (w.session i)) (hgoing : (w.session i).closing = false)
    (hsettled : (w.session i).wsHandshakeDone = true) (hws : (w.session i).isWebsocket = false) (hne : data ≠ [])
    {after : MqttSession → MqttSession} (hafter : ∀ t, ∃ rxAcc, after t = { t with rxAcc }) :
    Kept cfg.accessKey [] ((packetThen cfg now i data after w).session i) := by
  have hsame := sameInput_processPacket cfg now hi hsettled hne
  obtain ⟨hst, hidle⟩ : Standing cfg.accessKey [] ((w.processPacket cfg now i data).1.session i) ∧
      ((w.processPacket cfg now i data).1.session i).tcp.reads = [] :=
    standing_processPacket cfg now hi h.standing hgoing h.idle hsettled hne fun hyes => by cases hws.symm.trans hyes
  have hplain : ((w.processPacket cfg now i data).1.session i).isWebsocket = false := hsame.isWebsocket.trans hws
  have hset : ((w.processPacket cfg now i data).1.session i).wsHandshakeDone = true :=
    hsame.wsHandshakeDone.trans hsettled
  have hlen := Trace.length (trace_processPacket cfg now hi hsettled data)
  unfold packetThen
  split
  · rename_i w₁ he
    rw [he] at hst hplain
    exact ⟨hst, fun hyes => Bool.noConfusion (hplain.symm.trans hyes), fun _ => rfl⟩
  · rename_i w₁ he
    rw [he] at hst hidle hplain hset hlen
    have hi₁ : i < w₁.mqtt.length := hlen.symm ▸ hi
    obtain ⟨rxAcc, ha⟩ := hafter (w₁.session i)
    have hs₂ : (w₁.update i after).session i = { w₁.session i with rxAcc } := (session_update hi₁ after).trans ha
    have hhandling : Handling cfg.accessKey [] ((w₁.update i after).session i) := by
      rw [hs₂]
      refine ⟨hst.of_eq rfl rfl rfl rfl rfl rfl (fun hd => ⟨rfl, hd⟩) fun hd => ?_, hidle⟩
      cases hd.symm.trans hset
    obtain ⟨hstanding, hws', -⟩ := hhandling.continueReading (by simpa using hi₁)
    have hplain' : ((w₁.update i after).session i).isWebsocket = false := by
      rw [hs₂]
      exact hplain
    exact ⟨hstanding, fun hyes => Bool.noConfusion ((hws'.trans hplain').symm.trans hyes), fun _ => rfl⟩

/-- More of the stream has been read. -/
theorem Peeled.extend {stream : Bytes} (h : Peeled frames s) (hc : Cut stream s) (data : Bytes) :
    Peeled frames (buffering data s) := by
  refine ⟨h.handled, fun stream' hstream' => ?_⟩
  obtain ⟨raws, hp, hframes⟩ := h.raws stream hc.received
  have hreceived : frameStream (s.received ++ [data]).flatten = some (stream ++ data) := by
    rw [List.flatten_append, List.flatten_singleton]
    exact frameStream_append hc.received data
  obtain rfl : stream ++ data = stream' := Option.some.inj (hreceived.symm.trans hstream')
  refine ⟨raws, ?_, hframes⟩
  show framer.Peels (stream ++ data) raws (s.rxAcc.append data).data
  rw [StreamAccumulator.data_append hc.inRange]
  exact hp.extend data

theorem standing_buffering (h : Standing accessKey frames s) (hfits : Wire.Fits s) (data : Bytes) :
    Standing accessKey frames (buffering data s) :=
  h.of_eq rfl rfl rfl rfl rfl rfl (fun hd => ⟨rfl, hd⟩) fun hd => (hfits.unsettled hd).1

/-- The response to an upgrade request is no refusal. -/
theorem handling_acceptHandshake (h : Handling accessKey frames s) (hgoing : s.closing = false)
    (hnone : s.out.buffers = []) (hd : s.wsHandshakeDone = false) (headerEnd : Nat) (key : Bytes) :
    Handling accessKey frames (acceptHandshake headerEnd key s) := by
  let settled : MqttSession :=
    { s with
      isWebsocket := true
      wsHandshakeDone := true
      rxAcc := (s.rxAcc.consume (headerEnd + 4)).compactIfNeeded 4096 }
  have hst : Standing accessKey frames settled :=
    h.standing.of_eq rfl rfl rfl rfl rfl rfl (fun hd' => by cases hd.symm.trans hd') fun _ => hnone
  have hg : Granted accessKey settled := hst.granted hgoing
  have hk : Keeps (Harmless settled) settled (acceptHandshake headerEnd key s) :=
    keeps_asyncWrite .ignored (not_isRefusal_handshake _) nofun
  exact ⟨hst.keeps hk (.inl (hg.keeps hk)), h.idle⟩

/-- What a read finds: a session that is not closing, with nothing to read besides. -/
structure Ready (cfg : ServerConfig) (frames : List WsFrame) (s : MqttSession) : Prop where
  kept : Kept cfg.accessKey frames s
  idle : s.tcp.reads = []
  going : s.closing = false
  stage : Stage cfg.maxSessionBufferBytes s
  fits : Wire.Fits s

theorem Ready.handling (h : Ready cfg frames s) (data : Bytes) : Handling cfg.accessKey frames (buffering data s) :=
  ⟨standing_buffering h.kept.standing h.fits data, h.idle⟩

/-- Before the transport is settled. -/
theorem Ready.unsettled (h : Ready cfg frames s) (hd : s.wsHandshakeDone = false) :
    frames = [] ∧ s.isWebsocket = false ∧ s.rxAcc = ⟨s.received.flatten, 0⟩ ∧ s.handled = [] := by
  cases h.stage with
  | undecided _ hw ha hh _ => exact ⟨h.kept.plain hw, hw, ha, hh⟩
  | plain hp => cases hd.symm.trans hp.settled
  | websocket ho => cases hd.symm.trans ho.settled

theorem Ready.peeled (h : Ready cfg frames s) (hws : s.isWebsocket = true) (data : Bytes) :
    Peeled frames (buffering data s) := by
  cases h.stage with
  | undecided _ hw => cases hws.symm.trans hw
  | plain hp => cases hws.symm.trans hp.plain
  | websocket _ _ hcut _ => exact (h.kept.peeled hws).extend hcut data

/-- The session once its request has been accepted. -/
theorem Ready.upgraded (h : Ready cfg frames (w.session i)) (hi : i < w.mqtt.length)
    (hd : (w.session i).wsHandshakeDone = false) {headerEnd : Nat} {key : Bytes}
    (hend : find (ascii "\r\n\r\n") (buffering data (w.session i)).rxAcc.data = some headerEnd) :
    Looping cfg.accessKey i frames ((w.update i (buffering data)).update i (acceptHandshake headerEnd key)) := by
  obtain ⟨rfl, -, hacc, hnone⟩ := h.unsettled hd
  have hi₁ : i < (w.update i (buffering data)).mqtt.length := by simpa using hi
  have hs₂ : ((w.update i (buffering data)).update i (acceptHandshake headerEnd key)).session i =
      acceptHandshake headerEnd key (buffering data (w.session i)) := by rw [session_update hi₁, session_update hi]
  have hdata : (buffering data (w.session i)).rxAcc.data = ((w.session i).received ++ [data]).flatten := by
    simp [buffering, hacc, StreamAccumulator.append, StreamAccumulator.data]
  have hrest : (acceptHandshake headerEnd key (buffering data (w.session i))).rxAcc.data =
      ((w.session i).received ++ [data]).flatten.drop (headerEnd + 4) := by
    rw [← hdata]
    simp [acceptHandshake, asyncWrite]
  refine ⟨by simpa using hi, ?_, ?_, ?_⟩
  · rw [hs₂]
    exact ⟨rfl, rfl⟩
  · rw [hs₂]
    exact handling_acceptHandshake (h.handling data) h.going (h.fits.unsettled hd).1 hd headerEnd key
  · rw [hs₂]
    refine ⟨hnone, fun stream hstream => ⟨[], ?_, rfl⟩⟩
    have hfound : frameStream ((w.session i).received ++ [data]).flatten =
        some (((w.session i).received ++ [data]).flatten.drop (headerEnd + 4)) := by
      rw [frameStream, ← hdata, hend]
      rfl
    obtain rfl := Option.some.inj (hfound.symm.trans hstream)
    rw [hrest]
    exact .done _

theorem kept_read (cfg : ServerConfig) (now : Int) (hi : i < w.mqtt.length) (h : Ready cfg frames (w.session i))
    (hne : data ≠ []) :
    Kept cfg.accessKey (frames ++ readFrames cfg now i data w) ((w.onBytesRead cfg now i data).1.session i) := by
  have hcase := onBytesRead_cases cfg now hi data
  have hi₁ : i < (w.update i (buffering data)).mqtt.length := by simpa using hi
  have hs₁ := session_update hi (buffering data)
  have hkept : Kept cfg.accessKey frames ((w.update i (buffering data)).session i) := by
    rw [hs₁]
    exact ⟨(h.handling data).standing, fun hws => h.peeled hws data, fun hws => h.kept.plain hws⟩
  generalize readFrames cfg now i data w = more, (w.onBytesRead cfg now i data).1 = w' at hcase ⊢
  cases hcase with
  | ended _ =>
    rw [List.append_nil]
    exact hkept.passes (passes_endSession cfg now hi₁)
  | waiting hd =>
    obtain ⟨rfl, hws, -, -⟩ := h.unsettled hd
    rw [List.append_nil, session_update hi₁, hs₁]
    exact ⟨(h.handling data).startReadLoop h.going, fun hyes => Bool.noConfusion (hws.symm.trans hyes), fun _ => rfl⟩
  | upgraded hd _ _ hend _ => exact (h.upgraded hi hd hend).processFrames cfg now
  | first hd _ _ =>
    obtain ⟨rfl, hws, hacc, -⟩ := h.unsettled hd
    have hs₂ : ((w.update i (buffering data)).update i settlePlain).session i =
        settlePlain (buffering data (w.session i)) := by rw [session_update hi₁, hs₁]
    have hstanding : Standing cfg.accessKey [] (settlePlain (buffering data (w.session i))) :=
      (h.handling data).standing.of_eq rfl rfl rfl rfl rfl rfl (fun hd' => by cases hd.symm.trans hd')
        fun _ => (h.fits.unsettled hd).1
    have hfull : (buffering data (w.session i)).rxAcc.data ≠ [] := by
      have hdata : (buffering data (w.session i)).rxAcc.data = (w.session i).received.flatten ++ data := by
        simp [buffering, hacc, StreamAccumulator.append, StreamAccumulator.data]
      rw [hdata]
      exact List.append_ne_nil_of_right_ne_nil _ hne
    refine kept_packetThen cfg now (by simpa using hi) ?_ ?_ ?_ ?_ hfull fun t => ⟨.empty, rfl⟩
    · rw [hs₂]
      exact ⟨hstanding, h.idle⟩
    · rw [hs₂]
      exact h.going
    · rw [hs₂]
      rfl
    · rw [hs₂]
      rfl
  | frames ho _ =>
    have hloop : Looping cfg.accessKey i frames (w.update i (buffering data)) := by
      refine ⟨hi₁, ?_, ?_, ?_⟩
      · rw [hs₁]
        exact ⟨ho.settled, ho.websocket⟩
      · rw [hs₁]
        exact h.handling data
      · rw [hs₁]
        exact h.peeled ho.websocket data
    exact hloop.processFrames cfg now
  | packet hd hws =>
    obtain rfl := h.kept.plain hws
    have hs₂ := session_update hi (recordRead data)
    have hst := h.kept.standing
    refine kept_packetThen cfg now (by simpa using hi) ?_ ?_ ?_ ?_ hne fun t => ⟨t.rxAcc, rfl⟩
    · rw [hs₂]
      refine ⟨hst.of_eq rfl rfl rfl rfl rfl rfl (fun hd => ⟨rfl, hd⟩) fun hd' => ?_, h.idle⟩
      cases hd.symm.trans hd'
    · rw [hs₂]
      exact h.going
    · rw [hs₂]
      exact hd
    · rw [hs₂]
      exact hws

/-! Runs. -/

/-- What holds of every state of the process. -/
structure Sound (cfg : ServerConfig) (x : Watched) : Prop where
  stages : All (fun _ => Stage cfg.maxSessionBufferBytes) x.world
  fits : All (fun _ => Wire.Fits) x.world
  kept : All (fun i s => Kept cfg.accessKey (x.frames i) s) x.world
  later : ∀ i, x.world.mqtt.length ≤ i → x.frames i = []

theorem kept_accepted (cfg : ServerConfig) (server : Nat) (remote : Option Address) (again : Bool) :
    Kept cfg.accessKey [] (accepted server remote again) := by
  have hnone (α : Type) (P : α → Prop) : ∀ x ∈ ([] : List α), P x := fun _ h => absurd h List.not_mem_nil
  have hgranted : Granted cfg.accessKey (accepted server remote again) := ⟨rfl, hnone _ _, hnone _ _, hnone _ _⟩
  exact ⟨⟨Nat.le_refl 1, nofun, hnone _ _, hnone _ _, .inl hgranted⟩, nofun, fun _ => rfl⟩

theorem stepFrames_of_not_read {e : World.Event} (he : ∀ now data, e ≠ .mqtt now i (.read data)) :
    stepFrames cfg i w e = [] := by
  unfold stepFrames
  split
  · split
    · rename_i now j data hj
      exact absurd (hj ▸ rfl) (he now data)
    · rfl
  · rfl

/-- The session whose read completes. -/
theorem Kept.ready (hk : Kept cfg.accessKey frames s) (hopen : true ∈ s.tcp.reads)
    (hstage : Stage cfg.maxSessionBufferBytes s) (hfits : Wire.Fits s) : Ready cfg frames (readDone s) := by
  have hone : s.tcp.reads = [true] := hk.standing.reads_eq hopen
  have hgoing : s.closing = false := by
    cases hcl : s.closing with
    | false => rfl
    | true => cases (hk.standing.stopped hcl).symm.trans hone
  have hsame : SameInput s (readDone s) := ⟨rfl, rfl, rfl, rfl, rfl, id⟩
  have hnone : (readDone s).tcp.reads = [] := by
    show s.tcp.reads.erase true = []
    rw [hone]
    rfl
  have hpass : Passes s (readDone s) := passes_same hsame rfl (hnone ▸ List.nil_suffix) rfl rfl rfl
  exact ⟨hk.passes hpass, hnone, hgoing, hstage.same hsame id, ⟨hfits.units, hfits.unsettled⟩⟩

/-- A read of the session itself. -/
theorem kept_onMqtt_read (hi : i < w.mqtt.length) (hk : Kept cfg.accessKey frames (w.session i))
    (hstage : Stage cfg.maxSessionBufferBytes (w.session i)) (hfits : Wire.Fits (w.session i))
    (h : step cfg w (.mqtt now i (.read data)) = some w') :
    Kept cfg.accessKey (frames ++ stepFrames cfg i w (.mqtt now i (.read data))) (w'.session i) := by
  rw [step, session_eq hi] at h
  have h : w.onMqtt cfg now i (w.session i) (.read data) = some w' := h
  cases onMqtt_cases h with
  | read hopen hne _ =>
    rw [stepFrames, if_pos rfl]
    refine kept_read cfg now (by simpa using hi) ?_ hne
    rw [session_update hi]
    exact hk.ready hopen hstage hfits

theorem sound_step {x y : Watched} {e : World.Event} (h : Sound cfg x) (hs : (watch cfg).step x e = some y) :
    Sound cfg y := by
  obtain ⟨w, hw, rfl⟩ := Option.map_eq_some_iff.mp hs
  have old {i : Nat} (hi : i < x.world.mqtt.length) :
      Kept cfg.accessKey (x.frames i ++ stepFrames cfg i x.world e) (w.session i) := by
    have hk := h.kept.session hi
    by_cases he : ∃ now data, e = .mqtt now i (.read data)
    · obtain ⟨now, data, rfl⟩ := he
      exact kept_onMqtt_read hi hk (h.stages.session hi) (h.fits.session hi) hw
    · have he : ∀ now data, e ≠ .mqtt now i (.read data) := fun now data hd => he ⟨now, data, hd⟩
      rw [stepFrames_of_not_read he, List.append_nil]
      exact hk.passes (passes_step hi he hk.standing.only hw)
  have new {i : Nat} (hi : x.world.mqtt.length ≤ i) : x.frames i ++ stepFrames cfg i x.world e = [] := by
    rw [h.later i hi, List.nil_append]
    refine stepFrames_of_not_read fun now data he => ?_
    rw [he, step, List.getElem?_eq_none hi] at hw
    cases hw
  refine ⟨stage_step h.stages hw, (Wire.fits_preserved cfg).step h.fits trivial hw, fun j s hj => ?_, fun j hj => ?_⟩
  · rcases sessions_step hw with hlen | ⟨server, remote, again, hm⟩
    · obtain ⟨rfl, hlt⟩ := session_of_get hj
      exact old (hlen ▸ hlt)
    · rcases getElem?_snoc (hm ▸ hj) with hold | ⟨rfl, rfl⟩
      · rw [← (session_of_get hj).1]
        exact old (session_of_get hold).2
      · dsimp only
        rw [new (Nat.le_refl _)]
        exact kept_accepted cfg server remote again
  · exact new (Nat.le_trans (length_step hw) hj)

theorem sound_run {P : Watched → World.Event → Prop} {es : List World.Event} {x : Watched}
    (h : (watch cfg).Run P (watched cfg) es x) : Sound cfg x :=
  h.invariant (Sound cfg) ⟨all_init _ cfg, all_init _ cfg, all_init _ cfg, fun _ _ => rfl⟩
    fun _ _ _ hm _ hs => sound_step hm hs

theorem kept_reaches {es : List World.Event} (h : (machine cfg).Reaches (init cfg) es w) (hi : i < w.mqtt.length) :
    ∃ frames, Kept cfg.accessKey frames (w.session i) := by
  obtain ⟨frames, hrun⟩ := watched_of_run h
  exact ⟨frames i, (sound_run hrun).kept.session hi⟩

/-- The session takes no more bytes, and the end of the write that is to close it does. -/
structure Silent (cfg : ServerConfig) (i : Nat) (w : World) : Prop where
  deaf : ∀ now data, step cfg w (.mqtt now i (.read data)) = none
  closes : ∀ now k ok w', (k, WriteKind.closing) ∈ (w.session i).writes →
    step cfg w (.mqtt now i (.written k ok)) = some w' → (w'.session i).tcp.closed = true

theorem Standing.silent (h : Standing accessKey frames (w.session i)) (hi : i < w.mqtt.length)
    (hclosing : (w.session i).closing = true) : Silent cfg i w := by
  refine ⟨fun now data => ?_, fun now k ok w' hk hs => ?_⟩
  · rw [step, session_eq hi]
    simp only [Option.bind_some, onMqtt]
    rw [if_neg]
    rintro ⟨hmem, -⟩
    rw [h.stopped hclosing] at hmem
    exact absurd hmem List.not_mem_nil
  · rw [step, session_eq hi] at hs
    have hs : w.onMqtt cfg now i (w.session i) (.written k ok) = some w' := hs
    cases onMqtt_cases hs with
    | @written k ok kind hfind =>
      obtain rfl : kind = .closing := h.only _ (List.mem_of_find?_eq_some hfind) _ hk rfl rfl
      exact closed_endSession (by simpa using hi)

/-- What comes after the refusal. -/
structure Over (cfg : ServerConfig) (i : Nat) (w : World) : Prop where
  /-- the refused CONNECT is the last packet handled; what stood behind its frame has not been taken -/
  last : ∃ before packet, (w.session i).handled = before ++ [packet] ∧ refuses cfg.accessKey packet = true ∧
    (∀ p ∈ before, refuses cfg.accessKey p = false) ∧
    ((w.session i).isWebsocket = true → ∀ stream, frameStream (w.session i).received.flatten = some stream →
      ∃ raws, framer.Peels stream raws (w.session i).rxAcc.data ∧ Carried (raws.filterMap readFrame) packet)
  answered : Answered (w.session i)
  after : ∀ es w', (machine cfg).Reaches w es w' →
    Passes (w.session i) (w'.session i) ∧ Answered (w'.session i) ∧ Silent cfg i w'

theorem passes_reaches {es es' : List World.Event} (h : (machine cfg).Reaches (init cfg) es w)
    (hi : i < w.mqtt.length) (hr : (w.session i).closing = true) (h' : (machine cfg).Reaches w es' w') :
    i < w'.mqtt.length ∧ Passes (w.session i) (w'.session i) := by
  induction h' with
  | start => exact ⟨hi, .refl _⟩
  | @snoc es₁ m t e hpre _ hs ih =>
    obtain ⟨him, hpass⟩ := ih
    obtain ⟨frames, hk⟩ := kept_reaches (h.trans hpre) him
    have hsilent : Silent cfg i m := hk.standing.silent him (hpass.keeps.closing.trans hr)
    have hnoread : ∀ now data, e ≠ .mqtt now i (.read data) := fun now data he => by
      have hnone := hsilent.deaf now data
      rw [← he] at hnone
      cases hnone.symm.trans hs
    exact ⟨Nat.lt_of_lt_of_le him (length_step hs), hpass.trans (passes_step him hnoread hk.standing.only hs)⟩

/-- **Whatever arrives on a connection and however it is divided into reads: either no CONNECT that has been
evaluated was malformed or had the wrong credentials, and no refusal has been queued; or one was, it is the last
packet evaluated, exactly one refusal is queued, nothing is read any more and nothing of the session changes but
for the messages of others, and the end of the write of the refusal closes the session.** -/
theorem one_connect_refused (cfg : ServerConfig) {es : List World.Event} {w : World}
    (hrun : (machine cfg).Reaches (init cfg) es w) {i : Nat} (hi : i < w.mqtt.length) :
    Granted cfg.accessKey (w.session i) ∨ Over cfg i w := by
  obtain ⟨frames, hk⟩ := kept_reaches hrun hi
  rcases hk.standing.judged with hg | hr
  · exact .inl hg
  · right
    refine ⟨?_, hr.answered, fun es' w' hrun' => ?_⟩
    · obtain ⟨before, packet, hhandled, hyes, hno, hcarried⟩ := hr.last
      refine ⟨before, packet, hhandled, hyes, hno, fun hws stream hstream => ?_⟩
      obtain ⟨raws, hpeels, hframes⟩ := (hk.peeled hws).raws stream hstream
      exact ⟨raws, hpeels, hframes ▸ hcarried hws⟩
    · obtain ⟨hi', hpass⟩ := passes_reaches hrun hi hr.closing hrun'
      obtain ⟨_, hk'⟩ := kept_reaches (hrun.trans hrun') hi'
      exact ⟨hpass, hr.answered.passes hpass, hk'.standing.silent hi' (hpass.keeps.closing.trans hr.closing)⟩

/-- A plain session that sends the first byte of a CONNECT. -/
private def badConnect : List World.Event := clientSends [[0x10]]

private def afterBadConnect : World :=
  ((machine oneListener).exec (init oneListener) badConnect).getD (init oneListener)

private theorem badConnect_run :
    ((machine oneListener).exec (init oneListener) badConnect).isSome = true ∧
      0 < afterBadConnect.mqtt.length ∧ (afterBadConnect.session 0).closing = true := by decide +kernel

/-- A malformed CONNECT is refused, and ends the connection. -/
theorem malformed_connect_refused : Over oneListener 0 afterBadConnect := by
  obtain ⟨hran, hi, hclosing⟩ := badConnect_run
  rcases one_connect_refused oneListener ((machine oneListener).reaches_exec hran) hi with hg | ho
  · cases hg.going.symm.trans hclosing
  · exact ho

end LightApr.Server.Refusal
