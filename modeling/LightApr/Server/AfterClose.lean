import LightApr.Server.Course

/-! Bytes that reach a session when it has been closed. -/
namespace LightApr.Server.AfterClose
open LightApr.Core Lib Lib.Framing Mqtt MqttSession World FrameStream Receiving FrameLoop WebsocketCodec Packet Refusal

/-! The packets in a read. -/

/-- The packets that the frame loop takes from the buffer, up to a close frame. -/
def pending (buffered : Bytes) : List Bytes := packets ((arrived buffered).takeWhile fun frame => frame.opcode ≠ 0x08)

/-- The packets that a read leads to, if nothing stops the loop. -/
def handedOver (cfg : ServerConfig) (data : Bytes) (s : MqttSession) : List Bytes :=
  let received := (buffering data s).rxAcc
  if s.wsHandshakeDone = true ∧ s.isWebsocket = false then [data]
  else if received.totalCapacity > cfg.maxSessionBufferBytes then []
  else if s.wsHandshakeDone then pending received.data
  else if isHandshake received.data then
    match find (ascii "\r\n\r\n") received.data with
    | none => []
    | some headerEnd =>
      if (parseHandshakeRequest received.data).isSome then pending (received.data.drop (headerEnd + 4)) else []
  else [received.data]

def calm (cfg : ServerConfig) (w : World) : World.Event → Bool
  | .mqtt _ i (.read data) => quiet cfg (.of (w.session i)) (handedOver cfg data (w.session i))
  | _ => true

/-- A read brings nothing that has an effect once the session is closed. -/
abbrev Calm (cfg : ServerConfig) (w : World) (e : World.Event) : Prop := calm cfg w e = true

variable {cfg : ServerConfig} {now : Int} {i : Nat} {w w' w₀ : World} {s : MqttSession} {data : Bytes} {phase : Phase}

/-! What is handed over, case by case. -/

theorem handedOver_upgraded (hd : s.wsHandshakeDone = false) (hfits : Fits cfg data s) {headerEnd : Nat}
    {key protocol : Bytes} (hask : isHandshake (buffering data s).rxAcc.data = true)
    (hend : find (ascii "\r\n\r\n") (buffering data s).rxAcc.data = some headerEnd)
    (hkey : parseHandshakeRequest (buffering data s).rxAcc.data = some (key, protocol)) :
    handedOver cfg data s = pending ((buffering data s).rxAcc.data.drop (headerEnd + 4)) := by
  have hdone : ¬ s.wsHandshakeDone = true := Bool.eq_false_iff.mp hd
  unfold handedOver
  dsimp only
  rw [if_neg (fun h => hdone h.1), if_neg hfits, if_neg hdone, if_pos hask, hend, hkey]
  rfl

theorem handedOver_first (hd : s.wsHandshakeDone = false) (hfits : Fits cfg data s)
    (hask : isHandshake (buffering data s).rxAcc.data = false) :
    handedOver cfg data s = [(buffering data s).rxAcc.data] := by
  have hdone : ¬ s.wsHandshakeDone = true := Bool.eq_false_iff.mp hd
  unfold handedOver
  dsimp only
  rw [if_neg (fun h => hdone h.1), if_neg hfits, if_neg hdone, if_neg (Bool.eq_false_iff.mp hask)]

theorem handedOver_frames (ho : OnWebsocket s) (hfits : Fits cfg data s) :
    handedOver cfg data s = pending (buffering data s).rxAcc.data := by
  unfold handedOver
  dsimp only
  rw [if_neg (fun h => by cases ho.websocket.symm.trans h.2), if_neg hfits, if_pos ho.settled]

theorem handedOver_packet (hd : s.wsHandshakeDone = true) (hws : s.isWebsocket = false) :
    handedOver cfg data s = [data] := if_pos ⟨hd, hws⟩

theorem arrived_cons {frame : WsFrame} {n : Nat} (h : decodeFrame data = .frame frame n) :
    arrived data = frame :: arrived (data.drop n) := by
  have hpos : ∀ {s n}, framer.cut s = some n → 0 < n := by
    intro s n hc
    simp only [framer] at hc
    split at hc
    · rename_i hd
      obtain rfl := Option.some.inj hc
      exact Nat.lt_of_lt_of_le Nat.two_pos (decodeFrame_within hd).1
    · cases hc
    · cases hc
  obtain ⟨raws, rest, hp, hstuck⟩ := Framer.exists_peels_stuck hpos (data.drop n)
  rw [arrived_eq (.next (framer_cut h) hp) hstuck, arrived_eq hp hstuck, List.filterMap_cons_some (readFrame_take h)]

theorem pending_cons {frame : WsFrame} {n : Nat} (h : decodeFrame data = .frame frame n) (hopen : frame.opcode ≠ 0x08) :
    pending data = packets [frame] ++ pending (data.drop n) := by
  rw [pending, arrived_cons h, List.takeWhile_cons_of_pos (by simpa using hopen), pending, packets, packets, packets,
    ← List.map_append, ← List.filter_append]
  rfl

theorem packets_control {frame : WsFrame} (h : ¬ (frame.opcode = 0x01 ∨ frame.opcode = 0x02)) : packets [frame] =
    [] := by
  simp [packets, h]

theorem packets_empty {frame : WsFrame} (h : frame.payload = []) : packets [frame] = [] := by
  simp [packets, h]

theorem packets_single {frame : WsFrame} (hop : frame.opcode = 0x01 ∨ frame.opcode = 0x02) (hne : frame.payload ≠ []) :
    packets [frame] = [frame.payload] := by
  simp [packets, hop, hne]

theorem Course.continueReading (h : Course cfg now i w₀ w) (hi : i < w.mqtt.length) :
    Course cfg now i w₀ (w.continueReading i) := by
  unfold World.continueReading
  split
  · exact h
  · exact h.own hi ⟨_, _, _, _, _, _, _, _, _, _, rfl⟩

theorem Course.resume (h : Course cfg now i w₀ w) (hi : i < w.mqtt.length) : Course cfg now i w₀ (resume i w) :=
  (h.own hi ⟨_, _, _, _, _, _, _, _, _, _, rfl⟩).continueReading (by simpa using hi)

/-! The frame loop. -/

/-- Inside the loop, for a handler that began in `w₀`. -/
structure Looping (cfg : ServerConfig) (now : Int) (i : Nat) (w₀ w : World) : Prop where
  present : i < w.mqtt.length
  settled : (w.session i).wsHandshakeDone = true
  course : Course cfg now i w₀ w
  quiet : (w.session i).closing = true ∨
    ∃ phase : Phase, phase.Covers (w.session i) ∧ quiet cfg phase (pending (w.session i).rxAcc.data) = true

/-- A frame without a packet leaves the buffer. -/
theorem Looping.skip (h : Looping cfg now i w₀ w) {frame : WsFrame} {n : Nat} (ht : Takes (w.session i) frame n)
    (hnone : packets [frame] = []) (hopen : frame.opcode ≠ 0x08) :
    Looping cfg now i w₀ (w.update i (consuming n)) := by
  have hi := h.present
  have hs' := session_update hi (consuming n)
  refine ⟨by simpa using hi, ?_, h.course.own hi ⟨_, _, _, _, _, _, _, _, _, _, rfl⟩, ?_⟩
  · rw [hs']
    exact h.settled
  · rcases h.quiet with hc | ⟨phase, hphase, hq⟩
    · cases hc.symm.trans ht.going
    · rw [pending_cons ht.decoded hopen, hnone, List.nil_append] at hq
      refine .inr ⟨phase, ?_, ?_⟩
      · rw [hs']
        exact hphase.same rfl
      · rw [hs', consuming, StreamAccumulator.data_consume]
        exact hq

theorem Looping.packet (h : Looping cfg now i w₀ w) {frame : WsFrame} {n : Nat} (ht : Takes (w.session i) frame n)
    (hop : frame.opcode = 0x01 ∨ frame.opcode = 0x02) :
    Looping cfg now i w₀ ((w.update i (consuming n)).processPacket cfg now i frame.payload).1 := by
  have hopen : frame.opcode ≠ 0x08 := by
    rcases hop with he | he <;> rw [he] <;> decide
  have hi := h.present
  have hi' : i < (w.update i (consuming n)).mqtt.length := by simpa using hi
  have hs' := session_update hi (consuming n)
  have hsettled : ((w.update i (consuming n)).session i).wsHandshakeDone = true := by
    rw [hs']
    exact h.settled
  by_cases hne : frame.payload = []
  · rw [hne]
    exact h.skip ht (packets_empty hne) hopen
  · have hlen := Trace.length (trace_processPacket cfg now hi' hsettled frame.payload)
    have hsame := sameInput_processPacket cfg now hi' hsettled hne
    have hcourse : Course cfg now i w₀ (w.update i (consuming n)) :=
      h.course.own hi ⟨_, _, _, _, _, _, _, _, _, _, rfl⟩
    rcases h.quiet with hc | ⟨phase, hphase, hq⟩
    · cases hc.symm.trans ht.going
    · have hphase' : phase.Covers ((w.update i (consuming n)).session i) := by
        rw [hs']
        exact hphase.same rfl
      rw [pending_cons ht.decoded hopen, packets_single hop hne, List.singleton_append] at hq
      have hhead := quiet_head hq
      rw [AfterClose.quiet, Bool.or_eq_true] at hq
      refine ⟨hlen.symm ▸ hi', hsame.wsHandshakeDone.trans hsettled, ?_, ?_⟩
      · exact hcourse.packet hi' hphase' hne hhead
      · rcases hq with hr | hq
        · rcases processPacket_verdict cfg now hi' hne with ⟨hno, -⟩ | ⟨-, _, _, _, _, he⟩
          · cases hno.symm.trans hr
          · rw [he]
            exact .inl rfl
        · refine .inr ⟨_, covers_processPacket cfg now hi' hne hphase', ?_⟩
          have hrx : (((w.update i (consuming n)).processPacket cfg now i frame.payload).1.session i).rxAcc.data =
              (w.session i).rxAcc.data.drop n := by
            rw [hsame.rxAcc, hs']
            exact StreamAccumulator.data_consume _ n
          rw [hrx]
          exact (Bool.and_eq_true_iff.mp hq).2

theorem looping_round (cfg : ServerConfig) (now : Int) (i : Nat) (w₀ : World) :
    Round cfg now i (fun _ _ => Looping cfg now i w₀) (fun _ w => i < w.mqtt.length ∧ Course cfg now i w₀ w) where
  halts h _ := ⟨h.present, h.course⟩
  packet h ht hop hp := by
    have hnext := h.packet ht hop
    rw [hp] at hnext
    exact ⟨fun _ => ⟨hnext.present, hnext.course⟩, fun _ => hnext⟩
  close {_ _ w _ n} h ht hop := by
    have hi : i < (w.update i (consuming n)).mqtt.length := by
      rw [length_update]
      exact h.present
    refine ⟨?_, (h.course.own h.present ⟨_, _, _, _, _, _, _, _, _, _, rfl⟩).finish hi⟩
    rw [Acts.length (acts_endSession cfg now hi)]
    exact hi
  ping {_ _ w frame n} h ht hop := by
    have hskip := h.skip ht (packets_control (by rw [hop]; decide)) (by rw [hop]; decide)
    have hs' := session_update hskip.present (asyncWrite (encodeFrame frame.payload 0x0A) .ignored)
    refine ⟨by simpa using h.present, ?_, hskip.course.own hskip.present ⟨_, _, _, _, _, _, _, _, _, _, rfl⟩, ?_⟩
    · rw [hs']
      exact hskip.settled
    · rw [hs']
      exact hskip.quiet.imp_right fun ⟨phase, hphase, hq⟩ => ⟨phase, hphase.same rfl, hq⟩
  skip h ht hop hopen _ := h.skip ht (packets_control hop) hopen

theorem Looping.processFrames (h : Looping cfg now i w₀ w) : Course cfg now i w₀ (w.processFrames cfg now i).1 := by
  obtain ⟨hi, hcourse⟩ : i < (w.frameLoop cfg now i (w.session i).rxAcc.size).1.mqtt.length ∧
      Course cfg now i w₀ (w.frameLoop cfg now i (w.session i).rxAcc.size).1 :=
    @Round.loop cfg now i w _ _ (looping_round cfg now i w₀) [] _ h
  rcases processFrames_cases cfg now i w with he | he
  · rw [he]
    exact hcourse
  · rw [he]
    exact hcourse.resume hi

/-! One read. -/

theorem Course.packetThen (h : Course cfg now i w₀ w) (hi : i < w.mqtt.length)
    (hsettled : (w.session i).wsHandshakeDone = true) (phase : Phase) (hphase : phase.Covers (w.session i))
    (hq : quiet cfg phase [data] = true) {after : MqttSession → MqttSession} (hafter : ∀ t, Bookkeeping t (after t)) :
    Course cfg now i w₀ (packetThen cfg now i data after w) := by
  have hlen := Trace.length (trace_processPacket cfg now hi hsettled data)
  have hcourse : Course cfg now i w₀ (w.processPacket cfg now i data).1 := by
    by_cases hne : data = []
    · rw [hne]
      exact h
    · exact h.packet hi hphase hne (quiet_head hq)
  unfold FrameLoop.packetThen
  split
  · rename_i w₁ he
    rwa [he] at hcourse
  · rename_i w₁ he
    rw [he] at hcourse hlen
    have hi₁ : i < w₁.mqtt.length := hlen.symm ▸ hi
    exact (hcourse.own hi₁ (hafter _)).continueReading (by simpa using hi₁)

theorem course_onBytesRead (h : Course cfg now i w₀ w) (hi : i < w.mqtt.length)
    (hq : quiet cfg (.of (w.session i)) (handedOver cfg data (w.session i)) = true) :
    Course cfg now i w₀ (w.onBytesRead cfg now i data).1 := by
  have hi₁ : i < (w.update i (buffering data)).mqtt.length := by simpa using hi
  have hs₁ := session_update hi (buffering data)
  have hbuffered : Course cfg now i w₀ (w.update i (buffering data)) :=
    h.own hi ⟨_, _, _, _, _, _, _, _, _, _, rfl⟩
  have hcases := onBytesRead_cases cfg now hi data
  generalize readFrames cfg now i data w = frames at hcases
  generalize (w.onBytesRead cfg now i data).1 = w' at hcases ⊢
  cases hcases with
  | ended hno => exact hbuffered.finish hi₁
  | waiting hd => exact hbuffered.own hi₁ ⟨_, _, _, _, _, _, _, _, _, _, rfl⟩
  | @upgraded headerEnd key protocol hd hfits hask hend hkey =>
    have hs₂ := session_update hi₁ (acceptHandshake headerEnd key)
    refine Looping.processFrames ⟨by simpa using hi, ?_, hbuffered.own hi₁ ⟨_, _, _, _, _, _, _, _, _, _, rfl⟩, ?_⟩
    · rw [hs₂]
      rfl
    · refine .inr ⟨.of (w.session i), ?_, ?_⟩
      · rw [hs₂, hs₁]
        exact (Phase.covers_of _).same rfl
      · have hdata : (((w.update i (buffering data)).update i (acceptHandshake headerEnd key)).session i).rxAcc.data =
            (buffering data (w.session i)).rxAcc.data.drop (headerEnd + 4) := by
          rw [hs₂, hs₁]
          exact (StreamAccumulator.data_compactIfNeeded _ _).trans (StreamAccumulator.data_consume _ _)
        rw [hdata]
        rw [handedOver_upgraded hd hfits hask hend hkey] at hq
        exact hq
  | first hd hfits hask =>
    have hs₂ := session_update hi₁ settlePlain
    refine (hbuffered.own hi₁ ⟨_, _, _, _, _, _, _, _, _, _, rfl⟩).packetThen (by simpa using hi) ?_
      (.of (w.session i)) ?_ ?_
      fun t => ⟨_, _, _, _, _, _, _, _, _, _, rfl⟩
    · rw [hs₂]
      rfl
    · rw [hs₂, hs₁]
      exact (Phase.covers_of (w.session i)).same rfl
    · rwa [handedOver_first hd hfits hask] at hq
  | frames ho hfits =>
    refine Looping.processFrames ⟨hi₁, ?_, hbuffered, .inr ⟨.of (w.session i), ?_, ?_⟩⟩
    · rw [hs₁]
      exact ho.settled
    · rw [hs₁]
      exact (Phase.covers_of _).same rfl
    · rw [hs₁]
      rwa [handedOver_frames ho hfits] at hq
  | packet hd hws =>
    have hs₂ := session_update hi (recordRead data)
    refine (h.own hi ⟨_, _, _, _, _, _, _, _, _, _, rfl⟩).packetThen (by simpa using hi) ?_ (.of (w.session i)) ?_ ?_
      fun t => ⟨_, _, _, _, _, _, _, _, _, _, rfl⟩
    · rw [hs₂]
      exact hd
    · rw [hs₂]
      exact (Phase.covers_of (w.session i)).same rfl
    · rwa [handedOver_packet hd hws] at hq

/-! One event. -/

theorem Course.start (cfg : ServerConfig) (now : Int) (i : Nat) (w : World) : Course cfg now i w w := by
  cases hc : (w.session i).tcp.closed with
  | true => exact .retired hc (.refl i w)
  | false => exact .going hc .start hc

theorem Course.onWritten (h : Course cfg now i w₀ w) (hi : i < w.mqtt.length) (ok : Bool) (kind : WriteKind) :
    Course cfg now i w₀ (w.onWritten cfg now i ok kind).1 := by
  unfold World.onWritten
  split
  · split
    · exact h
    · exact h.finish hi
  · exact h.finish hi
  · exact h

theorem course_onMqtt {e : MqttEvent} (hi : i < w.mqtt.length) (hcalm : Calm cfg w (.mqtt now i e))
    (h : w.onMqtt cfg now i (w.session i) e = some w') : Course cfg now i w w' := by
  have own {f : MqttSession → MqttSession} (hb : Bookkeeping (w.session i) (f (w.session i))) :
      i < (w.update i f).mqtt.length ∧ Course cfg now i w (w.update i f) :=
    ⟨by simpa using hi, (Course.start cfg now i w).own hi hb⟩
  cases onMqtt_cases h with
  | read _ _ _ =>
    obtain ⟨hi', hcourse⟩ := own (f := readDone) ⟨_, _, _, _, _, _, _, _, _, _, rfl⟩
    refine course_onBytesRead hcourse hi' ?_
    rw [session_update hi]
    exact hcalm
  | readFailed _ =>
    obtain ⟨hi', hcourse⟩ := own (f := readDropped) ⟨_, _, _, _, _, _, _, _, _, _, rfl⟩
    exact hcourse.finish hi'
  | idleExpired _ =>
    obtain ⟨hi', hcourse⟩ := own (f := waitDone) ⟨_, _, _, _, _, _, _, _, _, _, rfl⟩
    exact hcourse.finish hi'
  | waitCanceled _ => exact (own ⟨_, _, _, _, _, _, _, _, _, _, rfl⟩).2
  | transferred _ _ => exact (own ⟨_, _, _, _, _, _, _, _, _, _, rfl⟩).2
  | @written k ok kind _ =>
    obtain ⟨hi', hcourse⟩ := own (f := writeDone k) ⟨_, _, _, _, _, _, _, _, _, _, rfl⟩
    exact hcourse.onWritten hi' ok kind

/-- The session whose handler an event runs, and when. -/
def handler : World.Event → Option (Nat × Int)
  | .mqtt now i _ => some (i, now)
  | .destroyMqtt now i => some (i, now)
  | .acceptMqtt _ _ _ _ | .acceptHttp _ _ _ | .http _ _ | .destroyHttp _ | .sweep _ => none

/-- What a step does, seen from session `i`: a handler of its own runs its course; others only send it messages. -/
structure Proper (cfg : ServerConfig) (i : Nat) (w w' : World) (e : World.Event) : Prop where
  own : ∀ now, handler e = some (i, now) → Course cfg now i w w'
  others : (∀ now, handler e ≠ some (i, now)) → Passes (w.session i) (w'.session i)

theorem proper_step {e : World.Event} (hi : i < w.mqtt.length) (hcalm : Calm cfg w e) (h : step cfg w e = some w') :
    Proper cfg i w w' e := by
  refine ⟨fun now he => ?_, fun hne => passes_passive.step hi (fun now e' he _ => absurd (he ▸ rfl) (hne now)) h⟩
  cases e with
  | mqtt now' j e =>
    obtain ⟨rfl, rfl⟩ := Prod.mk.inj (Option.some.inj he)
    rw [step, session_eq hi] at h
    exact course_onMqtt hi hcalm h
  | destroyMqtt now' j =>
    obtain ⟨rfl, rfl⟩ := Prod.mk.inj (Option.some.inj he)
    rw [step, session_eq hi] at h
    simp only [Option.bind_some] at h
    split at h
    · obtain rfl := Option.some.inj h
      have hlen : j < (w.closeSession cfg now' j).1.mqtt.length := by simpa using hi
      exact ((Course.start cfg now' j w).close hi).own hlen ⟨_, _, _, _, _, _, _, _, _, _, rfl⟩
    · cases h
  | acceptMqtt | acceptHttp | http | destroyHttp | sweep => cases he

/-! Runs. -/

/-- What a closed session is to the registry and the others. -/
structure Retired (s s' : MqttSession) : Prop where
  closed : s'.tcp.closed = true
  nodeId : s'.nodeId = s.nodeId
  subscriptions : s'.subscriptions = s.subscriptions
  registrations : s'.registrations = s.registrations

theorem Proper.retired {e : World.Event} (h : Proper cfg i w w' e) (hc : (w.session i).tcp.closed = true) :
    Retired (w.session i) (w'.session i) := by
  by_cases he : ∃ now, handler e = some (i, now)
  · obtain ⟨now, he⟩ := he
    cases h.own now he with
    | going hopen _ _ => cases hopen.symm.trans hc
    | closing hopen _ _ _ => cases hopen.symm.trans hc
    | retired _ hi =>
      exact ⟨hi.frozen.closed.trans hc, hi.frozen.nodeId, hi.frozen.subscriptions, hi.frozen.registrations⟩
  · have hpass := h.others fun now hn => he ⟨now, hn⟩
    have hprofile := hpass.profile
    simp only [profile, Prod.mk.injEq] at hprofile
    obtain ⟨-, -, -, -, hnode, hsubs, hregs⟩ := hprofile
    exact ⟨hpass.keeps.input.closed hc, hnode, hsubs, hregs⟩

/-- Whatever the step leads to, it treats every session properly. -/
def Propers (cfg : ServerConfig) (w : World) (e : World.Event) : Prop :=
  ∀ w', step cfg w e = some w' → ∀ i, i < w.mqtt.length → Proper cfg i w w' e

/-- **In every run in which no PUBLISH or SUBSCRIBE with an effect is handed to a session that is closed by then: a
handler of a session that is closed changes nothing but the books of its own connection; a handler that closes one
does so once, which puts its node into the grace period, and does nothing afterwards; and from then on its node, its
subscriptions and its registrations stay as they are.** -/
theorem closed_sessions_inert (cfg : ServerConfig) {es es' : List World.Event} {w w' : World}
    (hrun : (machine cfg).Run (Calm cfg) (init cfg) es w) (hrun' : (machine cfg).Run (Calm cfg) w es' w') :
    (machine cfg).Run (Propers cfg) (init cfg) (es ++ es') w' ∧
      ∀ i, i < w.mqtt.length → (w.session i).tcp.closed = true → Retired (w.session i) (w'.session i) := by
  have proper (m : World) (e : World.Event) (hcalm : Calm cfg m e) : Propers cfg m e :=
    fun m' hs i hi => proper_step hi hcalm hs
  refine ⟨(hrun.trans hrun').mono proper, fun i hi hc => ?_⟩
  obtain ⟨-, hretired⟩ : i < w'.mqtt.length ∧ Retired (w.session i) (w'.session i) := by
    induction hrun' with
    | start => exact ⟨hi, hc, rfl, rfl, rfl⟩
    | snoc _ hcalm hs ih =>
      obtain ⟨him, hr⟩ := ih
      have hnext := (proper_step him hcalm hs).retired hr.closed
      exact ⟨Nat.lt_of_lt_of_le him (length_step hs), hnext.closed, hnext.nodeId.trans hr.nodeId,
        hnext.subscriptions.trans hr.subscriptions, hnext.registrations.trans hr.registrations⟩
  exact hretired

/-! A session that the idle timer closes while a read is queued. -/

private def timedOut : List World.Event :=
  [.acceptMqtt 0 0 none false, .mqtt 100 0 (.read (connectAs (ascii "job"))), .mqtt 190 0 .idleExpired]

private def afterTimeout : World :=
    ((machine jobListener).execIf (Calm jobListener) (init jobListener) timedOut).getD (init jobListener)

private def afterPing : World :=
  ((machine jobListener).execIf (Calm jobListener) afterTimeout [.mqtt 190 0 (.read [0xC0, 0x00])]).getD afterTimeout

private theorem timeout_run :
    ((machine jobListener).execIf (Calm jobListener) (init jobListener) timedOut).isSome = true ∧
      ((machine jobListener).execIf (Calm jobListener) afterTimeout [.mqtt 190 0 (.read [0xC0, 0x00])]).isSome = true ∧
      0 < afterTimeout.mqtt.length ∧ (afterTimeout.session 0).tcp.closed = true := by decide +kernel

/-- A PINGREQ that was queued behind the timer leaves the session as it is. -/
theorem queued_ping_inert : Retired (afterTimeout.session 0) (afterPing.session 0) := by
  obtain ⟨htimeout, hping, hi, hclosed⟩ := timeout_run
  exact (closed_sessions_inert jobListener ((machine jobListener).run_execIf (Calm jobListener) htimeout)
    ((machine jobListener).run_execIf (Calm jobListener) hping)).2 0 hi hclosed

private def afterRole : World :=
  ((machine jobListener).exec (init jobListener) (timedOut ++ [.mqtt 190 0 (.read jobPacket)])).getD (init jobListener)

private theorem role_run :
    ((machine jobListener).exec (init jobListener) (timedOut ++ [.mqtt 190 0 (.read jobPacket)])).isSome = true ∧
      ∀ m ∈ (machine jobListener).exec (init jobListener) timedOut, 0 < m.mqtt.length ∧
        (m.session 0).tcp.closed = true ∧
        (m.session 0).nodeId = [] ∧ (afterRole.session 0).nodeId ≠ [] := by decide +kernel

/-- A metadata PUBLISH that was queued there registers a node. -/
theorem queued_publish_registers : ¬ ∀ (cfg : ServerConfig) (es : List World.Event) (w : World),
    (machine cfg).Reaches (init cfg) es w → (machine cfg).Run (Propers cfg) (init cfg) es w := by
  intro h
  obtain ⟨hran, hfacts⟩ := role_run
  obtain ⟨m, hm, hproper, hs⟩ := (h jobListener _ _ ((machine jobListener).reaches_exec hran)).last
  obtain ⟨hi, hclosed, hnone, hsome⟩ := hfacts m hm.exec_eq
  have hretired := (hproper _ hs 0 hi).retired hclosed
  exact hsome (hretired.nodeId.trans hnone)

end LightApr.Server.AfterClose
