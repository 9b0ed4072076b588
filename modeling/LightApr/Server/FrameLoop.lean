import LightApr.Server.Receiving

/-! What one read of a session comes to. -/
namespace LightApr.Server.FrameLoop
open LightApr.Core Lib Lib.Framing Mqtt MqttSession World FrameStream Receiving WebsocketCodec

/-! The frames of a read. -/

section
variable (cfg : ServerConfig) (now : Int) (i : Nat)

/-- The frames that `processFrames` takes from the buffer. -/
def processed (w : World) : List WsFrame := loopFrames cfg now i (w.session i).rxAcc.size w

/-- The frames that a read completes. -/
def readFrames (data : Bytes) (w : World) : List WsFrame :=
  let s := w.session i
  let received := (buffering data s).rxAcc
  if s.wsHandshakeDone = true ∧ s.isWebsocket = false then []
  else if received.totalCapacity > cfg.maxSessionBufferBytes then []
  else if s.wsHandshakeDone then processed cfg now i (w.update i (buffering data))
  else if isHandshake received.data then
    match find (ascii "\r\n\r\n") received.data with
    | none => []
    | some headerEnd =>
      match parseHandshakeRequest received.data with
      | some (key, _) =>
        processed cfg now i ((w.update i (buffering data)).update i (acceptHandshake headerEnd key))
      | none => []
  else []

end

variable {cfg : ServerConfig} {now : Int} {i : Nat} {w w' : World} {s : MqttSession}

/-- A read that is one packet, and what is left to do after it. -/
def packetThen (cfg : ServerConfig) (now : Int) (i : Nat) (data : Bytes) (after : MqttSession → MqttSession)
    (w : World) : World :=
  match w.processPacket cfg now i data with
  | (w, .threw) => w
  | (w, .done) => (w.update i after).continueReading i

def settlePlain (s : MqttSession) : MqttSession := { s with wsHandshakeDone := true, isWebsocket := false }

/-- The buffer takes the bytes without exceeding its cap. -/
abbrev Fits (cfg : ServerConfig) (data : Bytes) (s : MqttSession) : Prop :=
  ¬ (buffering data s).rxAcc.totalCapacity > cfg.maxSessionBufferBytes

/-- What a read does, case by case, with the frames that the loop takes. -/
inductive ReadCase (cfg : ServerConfig) (now : Int) (i : Nat) (data : Bytes) (w : World) : List WsFrame → World → Prop
  /-- the buffer exceeds its cap, or the upgrade is not to be had -/
  | ended : (w.session i).wsHandshakeDone = false ∨ (w.session i).isWebsocket = true →
      ReadCase cfg now i data w [] ((w.update i (buffering data)).endSession cfg now i).1
  | waiting : (w.session i).wsHandshakeDone = false →
      ReadCase cfg now i data w [] ((w.update i (buffering data)).update i startReadLoop)
  | upgraded {headerEnd : Nat} {key protocol : Bytes} : (w.session i).wsHandshakeDone = false →
      Fits cfg data (w.session i) → isHandshake (buffering data (w.session i)).rxAcc.data = true →
      find (ascii "\r\n\r\n") (buffering data (w.session i)).rxAcc.data = some headerEnd →
      parseHandshakeRequest (buffering data (w.session i)).rxAcc.data = some (key, protocol) →
      ReadCase cfg now i data w
        (processed cfg now i ((w.update i (buffering data)).update i (acceptHandshake headerEnd key)))
        (((w.update i (buffering data)).update i (acceptHandshake headerEnd key)).processFrames cfg now i).1
  | first : (w.session i).wsHandshakeDone = false → Fits cfg data (w.session i) →
      isHandshake (buffering data (w.session i)).rxAcc.data = false →
      ReadCase cfg now i data w [] (packetThen cfg now i (buffering data (w.session i)).rxAcc.data
        (fun s => { s with rxAcc := .empty }) ((w.update i (buffering data)).update i settlePlain))
  | frames : OnWebsocket (w.session i) → Fits cfg data (w.session i) →
      ReadCase cfg now i data w (processed cfg now i (w.update i (buffering data)))
        ((w.update i (buffering data)).processFrames cfg now i).1
  | packet : (w.session i).wsHandshakeDone = true → (w.session i).isWebsocket = false →
      ReadCase cfg now i data w [] (packetThen cfg now i data id (w.update i (recordRead data)))

/-- A read of a session that has not settled its transport. -/
private theorem detectTransport_cases (cfg : ServerConfig) (now : Int) (hi : i < w.mqtt.length) {data : Bytes}
    (hd : (w.session i).wsHandshakeDone = false) (hfits : Fits cfg data (w.session i)) :
    ReadCase cfg now i data w (readFrames cfg now i data w)
      ((w.update i (buffering data)).detectTransport cfg now i).1 := by
  have hne : ¬ ((w.session i).wsHandshakeDone = true ∧ (w.session i).isWebsocket = false) := by
    rintro ⟨hd', -⟩
    cases hd.symm.trans hd'
  unfold detectTransport readFrames
  dsimp only
  rw [if_neg hne, if_neg hfits, hd, if_neg Bool.false_ne_true, session_update hi]
  by_cases hask : isHandshake (buffering data (w.session i)).rxAcc.data = true
  · rw [if_pos hask, if_pos hask]
    cases hend : find (ascii "\r\n\r\n") (buffering data (w.session i)).rxAcc.data with
    | none => exact .waiting hd
    | some headerEnd =>
      dsimp only
      cases hkey : parseHandshakeRequest (buffering data (w.session i)).rxAcc.data with
      | none => exact .ended (.inl hd)
      | some k => exact .upgraded hd hfits hask hend hkey
  · rw [if_neg hask, if_neg hask]
    have hcase : ReadCase cfg now i data w [] (packetThen cfg now i (buffering data (w.session i)).rxAcc.data
        (fun s => { s with rxAcc := .empty }) ((w.update i (buffering data)).update i settlePlain)) :=
      .first hd hfits (eq_false_of_ne_true hask)
    have hs : (((w.update i (buffering data)).update i settlePlain).session i).rxAcc =
        (buffering data (w.session i)).rxAcc := by
      rw [session_update (by simpa using hi), session_update hi]
      rfl
    have hsettle : (w.update i (buffering data)).update i
      (fun s => { s with wsHandshakeDone := true, isWebsocket := false }) =
        (w.update i (buffering data)).update i settlePlain := rfl
    unfold packetThen at hcase
    unfold firstPacket
    dsimp only
    rw [hsettle, hs]
    split
    · rename_i he
      rwa [he] at hcase
    · rename_i he
      rwa [he] at hcase

theorem onBytesRead_cases (cfg : ServerConfig) (now : Int) (hi : i < w.mqtt.length) (data : Bytes) :
    ReadCase cfg now i data w (readFrames cfg now i data w) (w.onBytesRead cfg now i data).1 := by
  unfold onBytesRead buffered
  dsimp only
  rw [session_update hi, buffered_eq hi, session_update hi]
  cases hd : (w.session i).wsHandshakeDone with
  | false =>
    have hd' : ((w.session i).recordRead data).wsHandshakeDone = false := hd
    rw [hd', Bool.not_false, if_pos rfl]
    by_cases hfull : (buffering data (w.session i)).rxAcc.totalCapacity > cfg.maxSessionBufferBytes
    · rw [if_pos hfull]
      have hnone : readFrames cfg now i data w = [] := by
        unfold readFrames
        dsimp only
        rw [hd, if_neg (fun h => Bool.false_ne_true h.1), if_pos hfull]
      rw [hnone]
      exact .ended (.inl hd)
    · rw [if_neg hfull]
      exact detectTransport_cases cfg now hi hd hfull
  | true =>
    have hd' : ((w.session i).recordRead data).wsHandshakeDone = true := hd
    rw [hd', Bool.not_true, if_neg Bool.false_ne_true]
    cases hws : (w.session i).isWebsocket with
    | true =>
      have hws' : ((w.session i).recordRead data).isWebsocket = true := hws
      rw [hws', if_pos rfl]
      have hframes : readFrames cfg now i data w =
          if (buffering data (w.session i)).rxAcc.totalCapacity > cfg.maxSessionBufferBytes then []
          else processed cfg now i (w.update i (buffering data)) := by
        unfold readFrames
        dsimp only
        rw [hd, hws, if_neg (fun h => Bool.false_ne_true h.2.symm), if_pos rfl]
      rw [hframes]
      split
      · exact .ended (.inr hws)
      · rename_i hfits
        exact .frames ⟨hd, hws⟩ hfits
    | false =>
      have hws' : ((w.session i).recordRead data).isWebsocket = false := hws
      rw [hws', if_neg Bool.false_ne_true]
      have hnone : readFrames cfg now i data w = [] := by
        unfold readFrames
        dsimp only
        rw [if_pos ⟨hd, hws⟩]
      have hcase : ReadCase cfg now i data w [] (packetThen cfg now i data id (w.update i (recordRead data))) :=
        .packet hd hws
      rw [hnone]
      unfold packetThen at hcase
      split
      · rename_i he
        rwa [he] at hcase
      · rename_i w₁ he
        have hsame : w₁.update i id = w₁ := by
          rw [update, setSession, id, set_session_self]
        rw [he] at hcase
        dsimp only at hcase
        rwa [hsame] at hcase

/-! The process, with a record of the frames. -/

/-- The frames that session `i` takes from its buffer in a step. -/
def stepFrames (cfg : ServerConfig) (i : Nat) (w : World) : World.Event → List WsFrame
  | .mqtt now j (.read data) =>
    if j = i then
      readFrames cfg now i data
        (w.update i fun s => { s with tcp := { s.tcp with reads := s.tcp.reads.erase true } })
    else []
  | _ => []

structure Watched where
  world : World
  frames : Nat → List WsFrame

def watch (cfg : ServerConfig) : Machine Watched World.Event where
  step x e := (step cfg x.world e).map fun w => ⟨w, fun i => x.frames i ++ stepFrames cfg i x.world e⟩

def watched (cfg : ServerConfig) : Watched := ⟨init cfg, fun _ => []⟩

/-- Every run of the process can be watched. -/
theorem watched_of_run {P : World → World.Event → Prop} {es : List World.Event}
    (h : (machine cfg).Run P (init cfg) es w) :
    ∃ frames, (watch cfg).Run (fun x e => P x.world e) (watched cfg) es ⟨w, frames⟩ := by
  induction h with
  | start => exact ⟨_, .start⟩
  | @snoc _ m _ e _ hp hs ih =>
    obtain ⟨frames, hrun⟩ := ih
    exact ⟨fun i => frames i ++ stepFrames cfg i m e, hrun.snoc hp (Option.map_eq_some_iff.mpr ⟨_, hs, rfl⟩)⟩

end LightApr.Server.FrameLoop
