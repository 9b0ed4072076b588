import LightApr.Server.World

/-! A rule for the loop over the buffered WebSocket frames. -/
namespace LightApr.Server.FrameLoop
open LightApr.Core Lib Mqtt MqttSession World WebsocketCodec

/-! The frames that the loop goes through. -/

/-- The session without the first `n` bytes of its buffer. -/
def consuming (n : Nat) (s : MqttSession) : MqttSession := { s with rxAcc := s.rxAcc.consume n }

section
variable (cfg : ServerConfig) (now : Int) (i : Nat)

/-- The frames that `frameLoop` takes from the buffer. -/
def loopFrames : Nat → World → List WsFrame
  | 0, _ => []
  | fuel + 1, w =>
    let s := w.session i
    if s.closing ∨ s.rxAcc.size = 0 then []
    else
      match decodeFrame s.rxAcc.data with
      | .incomplete => []
      | .threw => []
      | .frame frame consumed =>
        let w := w.update i (consuming consumed)
        if frame.opcode = 0x01 ∨ frame.opcode = 0x02 then
          match w.processPacket cfg now i frame.payload with
          | (_, .threw) => [frame]
          | (w, .done) => frame :: loopFrames fuel w
        else if frame.opcode = 0x08 then [frame]
        else if frame.opcode = 0x09 then
          frame :: loopFrames fuel (w.update i (asyncWrite (encodeFrame frame.payload 0x0A) .ignored))
        else frame :: loopFrames fuel w

end

/-- The loop does not begin another round. -/
def Halts (fuel : Nat) (s : MqttSession) : Prop :=
  fuel = 0 ∨ s.closing = true ∨ s.rxAcc.size = 0 ∨ ∀ frame n, decodeFrame s.rxAcc.data ≠ .frame frame n

/-- The next round takes the frame from the buffer. -/
structure Takes (s : MqttSession) (frame : WsFrame) (n : Nat) : Prop where
  going : s.closing = false
  decoded : decodeFrame s.rxAcc.data = .frame frame n

variable {cfg : ServerConfig} {now : Int} {i : Nat} {w w' : World} {s : MqttSession}

/-- What has to be shown of one round. `done` are the frames that have been taken. -/
structure Round (cfg : ServerConfig) (now : Int) (i : Nat) (I : List WsFrame → Nat → World → Prop)
    (Q : List WsFrame → World → Prop) : Prop where
  halts {done : List WsFrame} {fuel : Nat} {w : World} : I done fuel w → Halts fuel (w.session i) → Q done w
  packet {done : List WsFrame} {fuel : Nat} {w w' : World} {frame : WsFrame} {n : Nat} {flow : Flow} :
    I done (fuel + 1) w → Takes (w.session i) frame n → frame.opcode = 0x01 ∨ frame.opcode = 0x02 →
    (w.update i (consuming n)).processPacket cfg now i frame.payload = (w', flow) →
    (flow = .threw → Q (done ++ [frame]) w') ∧ (flow = .done → I (done ++ [frame]) fuel w')
  close {done : List WsFrame} {fuel : Nat} {w : World} {frame : WsFrame} {n : Nat} :
    I done (fuel + 1) w → Takes (w.session i) frame n → frame.opcode = 0x08 →
    Q (done ++ [frame]) ((w.update i (consuming n)).endSession cfg now i).1
  ping {done : List WsFrame} {fuel : Nat} {w : World} {frame : WsFrame} {n : Nat} :
    I done (fuel + 1) w → Takes (w.session i) frame n → frame.opcode = 0x09 →
    I (done ++ [frame]) fuel
      ((w.update i (consuming n)).update i (asyncWrite (encodeFrame frame.payload 0x0A) .ignored))
  skip {done : List WsFrame} {fuel : Nat} {w : World} {frame : WsFrame} {n : Nat} :
    I done (fuel + 1) w → Takes (w.session i) frame n → ¬ (frame.opcode = 0x01 ∨ frame.opcode = 0x02) →
    frame.opcode ≠ 0x08 → frame.opcode ≠ 0x09 → I (done ++ [frame]) fuel (w.update i (consuming n))

/-- The rule for the loop. -/
theorem Round.loop {I : List WsFrame → Nat → World → Prop} {Q : List WsFrame → World → Prop}
    (hI : Round cfg now i I Q) {done : List WsFrame} {fuel : Nat} (h : I done fuel w) :
    Q (done ++ loopFrames cfg now i fuel w) (w.frameLoop cfg now i fuel).1 := by
  induction fuel generalizing done w with
  | zero =>
    rw [loopFrames, frameLoop, List.append_nil]
    exact hI.halts h (.inl rfl)
  | succ fuel ih =>
    rw [loopFrames, frameLoop]
    dsimp only
    by_cases hstop : (w.session i).closing = true ∨ (w.session i).rxAcc.size = 0
    · rw [if_pos hstop, if_pos hstop, List.append_nil]
      exact hI.halts h (.inr (hstop.imp_right .inl))
    · rw [if_neg hstop, if_neg hstop]
      have hgoing : (w.session i).closing = false := by
        cases hc : (w.session i).closing with
        | true => exact absurd (.inl hc) hstop
        | false => rfl
      cases hd : decodeFrame (w.session i).rxAcc.data with
      | incomplete =>
        dsimp only
        rw [List.append_nil]
        exact hI.halts h (.inr (.inr (.inr fun frame n he => by cases hd.symm.trans he)))
      | threw =>
        dsimp only
        rw [List.append_nil]
        exact hI.halts h (.inr (.inr (.inr fun frame n he => by cases hd.symm.trans he)))
      | frame frame n =>
        have htakes : Takes (w.session i) frame n := ⟨hgoing, hd⟩
        dsimp only
        by_cases hop : frame.opcode = 0x01 ∨ frame.opcode = 0x02
        · rw [if_pos hop, if_pos hop]
          obtain ⟨⟨w', flow⟩, hp⟩ : ∃ x, (w.update i (consuming n)).processPacket cfg now i frame.payload = x :=
            ⟨_, rfl⟩
          have hp' : (w.update i fun s => { s with rxAcc := s.rxAcc.consume n }).processPacket cfg now i
              frame.payload = (w', flow) := hp
          obtain ⟨hthrew, hdone⟩ := hI.packet h htakes hop hp
          rw [hp, hp']
          cases flow with
          | threw => exact hthrew rfl
          | done =>
            have := ih (hdone rfl)
            rwa [List.append_assoc, List.singleton_append] at this
        · rw [if_neg hop, if_neg hop]
          by_cases hclose : frame.opcode = 0x08
          · rw [if_pos hclose, if_pos hclose]
            have hq := hI.close h htakes hclose
            obtain ⟨⟨w', flow⟩, he⟩ : ∃ x, (w.update i (consuming n)).endSession cfg now i = x := ⟨_, rfl⟩
            have he' : (w.update i fun s => { s with rxAcc := s.rxAcc.consume n }).endSession cfg now i =
                (w', flow) := he
            rw [he] at hq
            rw [he']
            cases flow <;> exact hq
          · rw [if_neg hclose, if_neg hclose]
            by_cases hping : frame.opcode = 0x09
            · rw [if_pos hping, if_pos hping]
              have := ih (hI.ping h htakes hping)
              rwa [List.append_assoc, List.singleton_append] at this
            · rw [if_neg hping, if_neg hping]
              have := ih (hI.skip h htakes hop hclose hping)
              rwa [List.append_assoc, List.singleton_append] at this

/-! The tail of `on_bytes_read`. -/

/-- The buffer is compacted, and the next read started. -/
def resume (i : Nat) (w : World) : World :=
  (w.update i fun s => { s with rxAcc := s.rxAcc.compactIfNeeded 4096 }).continueReading i

theorem processFrames_cases (cfg : ServerConfig) (now : Int) (i : Nat) (w : World) :
    (w.processFrames cfg now i).1 = (w.frameLoop cfg now i (w.session i).rxAcc.size).1 ∨
      (w.processFrames cfg now i).1 = resume i (w.frameLoop cfg now i (w.session i).rxAcc.size).1 := by
  unfold processFrames
  split
  · rename_i he
    rw [he]
    exact .inl rfl
  · rename_i he
    rw [he]
    exact .inl rfl
  · rename_i he
    rw [he]
    exact .inr rfl

end LightApr.Server.FrameLoop
