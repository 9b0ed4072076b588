import LightApr.Server.SingleRefusal

/-! The end of `main`: the listeners go first, then the connection guard and the registry, and
the event loop last. The handlers that are still pending keep their sessions until then. -/
namespace LightApr.Server.Shutdown
open LightApr.Core Lib Mqtt MqttSession World Receiving WebsocketCodec

/-- The objects of `main` that the destructor of an MQTT session refers to. -/
inductive Owned where
  | connGuard
  | registry
  deriving DecidableEq, Repr

/-- `~mqtt_server`: the observer is removed, and the listener lets go of its sessions. -/
def destroyServer (server : Nat) (w : World) : World :=
  let w := w.setRegistry (w.shared.registry.removeEventCallback (server + 1))
  { w with mqtt := w.mqtt.map fun s => if s.server = server then s.unlist else s }

/-- The listeners go, the last one first; whenever nothing refers to a session any more, it goes as well. -/
inductive Ended (cfg : ServerConfig) : Nat → World → World → Prop
  | none {w : World} : Ended cfg 0 w w
  | server {server : Nat} {w w₁ w' : World} {es : List World.Event} :
      (machine cfg).Run (fun _ e => ∃ now i, e = .destroyMqtt now i) (destroyServer server w) es w₁ →
      Ended cfg server w₁ w' → Ended cfg (server + 1) w w'

/-- What `~mqtt_session` refers to; a session that is closed has nothing left to do. -/
def destructor (s : MqttSession) : List Owned :=
  if s.tcp.live then .connGuard :: if s.nodeId = [] then [] else [.registry] else []

/-- `~io_context`, with the guard and the registry gone: the pending handlers are destroyed, and with them the
sessions. An HTTP session has no destructor of its own. -/
def danglingUses (w : World) : List Owned := w.mqtt.flatMap destructor

/-- No exception leaves the handler of a read, which would end the event loop. -/
def Returns (cfg : ServerConfig) (w : World) : World.Event → Prop
  | .mqtt now i (.read data) => ((w.update i readDone).onBytesRead cfg now i data).2 = .done
  | _ => True

instance : ∀ (cfg : ServerConfig) (w : World) (e : World.Event), Decidable (Returns cfg w e)
  | cfg, w, .mqtt now i (.read data) =>
    inferInstanceAs (Decidable (((w.update i readDone).onBytesRead cfg now i data).2 = .done))
  | _, _, .mqtt _ _ .readFailed | _, _, .mqtt _ _ .idleExpired | _, _, .mqtt _ _ .waitCanceled
  | _, _, .mqtt _ _ (.transferred ..) | _, _, .mqtt _ _ (.written ..) | _, _, .acceptMqtt .. | _, _, .acceptHttp ..
  | _, _, .http .. | _, _, .destroyMqtt .. | _, _, .destroyHttp _ | _, _, .sweep _ => inferInstanceAs (Decidable True)

variable {cfg : ServerConfig} {now : Int} {i : Nat} {w w' : World} {s s' : MqttSession} {data : Bytes}

/-! An open session has an operation pending. -/

/-- Until it is closing, an open session reads. -/
def Reading (s : MqttSession) : Prop := s.tcp.closed = false → s.closing = false → s.tcp.reads ≠ []

theorem reading_of_closed (h : s.tcp.closed = true) : Reading s := fun ho => nomatch ho.symm.trans h

theorem reading_continueReading (hi : i < w.mqtt.length) : Reading ((w.continueReading i).session i) := by
  unfold continueReading
  split
  · rename_i hc
    exact fun _ hn => nomatch hn.symm.trans hc
  · rw [session_update hi]
    exact fun _ _ => List.append_ne_nil_of_right_ne_nil _ (List.cons_ne_nil _ _)

theorem closed_of_returned {fuel : Nat} (hi : i < w.mqtt.length) (hs : OnWebsocket (w.session i))
    (h : w.frameLoop cfg now i fuel = (w', .returned)) : (w'.session i).tcp.closed = true := by
  induction fuel generalizing w with
  | zero => cases (Prod.mk.inj h).2
  | succ fuel ih =>
    rw [frameLoop] at h
    dsimp only at h
    split at h
    · cases (Prod.mk.inj h).2
    · split at h
      · cases (Prod.mk.inj h).2
      · cases (Prod.mk.inj h).2
      · rename_i frame n _
        obtain ⟨w₁, hw₁⟩ : ∃ x, (w.update i fun s => { s with rxAcc := s.rxAcc.consume n }) = x := ⟨_, rfl⟩
        have hi₁ : i < w₁.mqtt.length := by rwa [← hw₁, length_update]
        have hs₁ : OnWebsocket (w₁.session i) := by
          rw [← hw₁, session_update hi]
          exact ⟨hs.settled, hs.websocket⟩
        rw [hw₁] at h
        split at h
        · have hlen := Trace.length (trace_processPacket cfg now hi₁ hs₁.settled frame.payload)
          have hon := onWebsocket_processPacket cfg now hi₁ hs₁ frame.payload
          split at h
          · cases (Prod.mk.inj h).2
          · rename_i w₂ hp
            rw [hp] at hlen hon
            exact ih (hlen.symm ▸ hi₁) hon h
        · split at h
          · have hclosed : ((w₁.endSession cfg now i).1.session i).tcp.closed = true := closed_endSession hi₁
            split at h
            · cases (Prod.mk.inj h).2
            · rename_i w₂ he
              obtain ⟨rfl, -⟩ := Prod.mk.inj h
              rwa [he] at hclosed
          · split at h
            · refine ih (by rwa [length_update]) ?_ h
              rw [session_update hi₁]
              exact ⟨hs₁.settled, hs₁.websocket⟩
            · exact ih hi₁ hs₁ h

theorem reading_processFrames (hi : i < w.mqtt.length) (hs : OnWebsocket (w.session i))
    (h : w.processFrames cfg now i = (w', .done)) : Reading (w'.session i) := by
  have hlen := Trace.length (trace_frameLoop cfg now (w.session i).rxAcc.size hi hs)
  unfold processFrames at h
  split at h
  · cases (Prod.mk.inj h).2
  · rename_i w₁ he
    obtain ⟨rfl, -⟩ := Prod.mk.inj h
    exact reading_of_closed (closed_of_returned hi hs he)
  · rename_i w₁ he
    obtain ⟨rfl, -⟩ := Prod.mk.inj h
    rw [he] at hlen
    exact reading_continueReading (by rw [length_update]; exact hlen.symm ▸ hi)

theorem reading_endSession (hi : i < w.mqtt.length) (h : w.endSession cfg now i = (w', .done)) :
    Reading (w'.session i) := by
  have hclosed : ((w.endSession cfg now i).1.session i).tcp.closed = true := closed_endSession hi
  rw [h] at hclosed
  exact reading_of_closed hclosed

theorem length_of_processPacket {flow : Flow} (hi : i < w.mqtt.length) (hs : (w.session i).wsHandshakeDone = true)
    (h : w.processPacket cfg now i data = (w', flow)) : i < w'.mqtt.length := by
  have hlen := Trace.length (trace_processPacket cfg now hi hs data)
  rw [h] at hlen
  exact hlen.symm ▸ hi

theorem reading_detectTransport (hi : i < w.mqtt.length) (h : w.detectTransport cfg now i = (w', .done)) :
    Reading (w'.session i) := by
  unfold detectTransport at h
  dsimp only at h
  split at h
  · split at h
    · obtain ⟨rfl, -⟩ := Prod.mk.inj h
      rw [session_update hi]
      exact fun _ _ => List.append_ne_nil_of_right_ne_nil _ (List.cons_ne_nil _ _)
    · split at h
      · refine reading_processFrames (by rwa [length_update]) ?_ h
        rw [session_update hi]
        exact ⟨rfl, rfl⟩
      · exact reading_endSession hi h
  · unfold firstPacket at h
    dsimp only at h
    split at h
    · cases (Prod.mk.inj h).2
    · rename_i w₁ hp
      obtain ⟨rfl, -⟩ := Prod.mk.inj h
      refine reading_continueReading ?_
      rw [length_update]
      exact length_of_processPacket (by rwa [length_update]) (by rw [session_update hi]) hp

theorem reading_onBytesRead (hi : i < w.mqtt.length) (h : w.onBytesRead cfg now i data = (w', .done)) :
    Reading (w'.session i) := by
  have hi₁ : i < (w.update i (recordRead data)).mqtt.length := by rwa [length_update]
  have hs₁ := session_update hi (recordRead data)
  have hi₂ : i < ((w.update i (recordRead data)).update i fun s =>
      { s with rxAcc := s.rxAcc.append data }).mqtt.length := by
    rwa [length_update]
  unfold onBytesRead buffered at h
  dsimp only at h
  split at h
  · split at h
    · exact reading_endSession hi₂ h
    · exact reading_detectTransport hi₂ h
  · rename_i hdone
    have hdone : ((w.update i (recordRead data)).session i).wsHandshakeDone = true := by simpa using hdone
    split at h
    · rename_i hws
      split at h
      · exact reading_endSession hi₂ h
      · refine reading_processFrames hi₂ ?_ h
        rw [session_update hi₁]
        exact ⟨hdone, hws⟩
    · split at h
      · cases (Prod.mk.inj h).2
      · rename_i w₁ hp
        obtain ⟨rfl, -⟩ := Prod.mk.inj h
        exact reading_continueReading (length_of_processPacket hi₁ hdone hp)

/-- What others do, and every completion but a read, unless it ends the session. -/
structure Stays (s s' : MqttSession) : Prop where
  closed : s'.tcp.closed = false → s.tcp.closed = false
  closing : s'.closing = s.closing
  reads : s'.tcp.reads = s.tcp.reads

theorem Stays.refl (s : MqttSession) : Stays s s := ⟨id, rfl, rfl⟩

theorem Stays.trans (h : Stays s s') {s'' : MqttSession} (h' : Stays s' s'') : Stays s s'' :=
  ⟨fun hc => h.closed (h'.closed hc), h'.closing.trans h.closing, h'.reads.trans h.reads⟩

theorem stays_deliverAll (msgs : List (Nat × Bytes × Bytes)) (s : MqttSession) : Stays s (deliverAll msgs s) := by
  induction msgs generalizing s with
  | nil => exact .refl s
  | cons m msgs ih =>
    have hone : Stays s (s.deliver m.1 m.2.1 m.2.2) := by
      unfold deliver
      split
      · exact ⟨id, rfl, rfl⟩
      · exact .refl s
    exact hone.trans (ih _)

theorem stays_passive : Passive Stays where
  refl := .refl
  trans h h' := h.trans h'
  messages := stays_deliverAll
  closed _ := ⟨nofun, rfl, rfl⟩
  unlisted _ := ⟨id, rfl, rfl⟩
  gone _ := ⟨id, rfl, rfl⟩

theorem Reading.stays (h : Reading s) (hs : Stays s s') : Reading s' := fun hc hn =>
  hs.reads ▸ h (hs.closed hc) (hs.closing ▸ hn)

theorem reading_onMqtt {e : MqttEvent} (hi : i < w.mqtt.length) (h : Reading (w.session i))
    (hreturns : Returns cfg w (.mqtt now i e)) (hs : w.onMqtt cfg now i (w.session i) e = some w') :
    Reading (w'.session i) := by
  have keep {f : MqttSession → MqttSession} (hf : Stays (w.session i) (f (w.session i))) :
      Reading ((w.update i f).session i) := by
    rw [session_update hi]
    exact h.stays hf
  have ended (f : MqttSession → MqttSession) : Reading (((w.update i f).endSession cfg now i).1.session i) :=
    reading_of_closed (closed_endSession (by rwa [length_update]))
  cases onMqtt_cases hs with
  | @read data =>
    obtain ⟨⟨w₁, flow⟩, hx⟩ : ∃ x, (w.update i readDone).onBytesRead cfg now i data = x := ⟨_, rfl⟩
    have hdone : flow = .done := by
      have hflow : ((w.update i readDone).onBytesRead cfg now i data).2 = .done := hreturns
      rwa [hx] at hflow
    subst hdone
    rw [hx]
    exact reading_onBytesRead (by rwa [length_update]) hx
  | readFailed => exact ended readDropped
  | idleExpired => exact ended waitDone
  | waitCanceled => exact keep ⟨id, rfl, rfl⟩
  | @transferred k n => exact keep ⟨id, rfl, rfl⟩
  | @written k ok kind =>
    unfold onWritten
    split
    · split
      · exact keep (f := writeDone k) ⟨id, rfl, rfl⟩
      · exact ended (writeDone k)
    · exact ended (writeDone k)
    · exact keep (f := writeDone k) ⟨id, rfl, rfl⟩

theorem reading_step {e : World.Event} (h : All (fun _ => Reading) w) (hreturns : Returns cfg w e)
    (hs : w.step cfg e = some w') : All (fun _ => Reading) w' := by
  have old {j : Nat} (hj : j < w.mqtt.length) : Reading (w'.session j) := by
    by_cases hown : ∃ now e', e = .mqtt now j e'
    · obtain ⟨now, e', rfl⟩ := hown
      rw [step, session_eq hj] at hs
      exact reading_onMqtt hj (h.session hj) hreturns hs
    · refine (h.session hj).stays (stays_passive.step hj (fun now e' he => ?_) hs)
      exact absurd ⟨now, e', he⟩ hown
  intro j t hj
  rcases sessions_step hs with hlen | ⟨server, remote, again, hm⟩
  · obtain ⟨rfl, hlt⟩ := session_of_get hj
    exact old (hlen ▸ hlt)
  · rcases getElem?_snoc (hm ▸ hj) with hold | ⟨rfl, rfl⟩
    · rw [← (session_of_get hj).1]
      exact old (session_of_get hold).2
    · exact fun _ _ => List.cons_ne_nil _ _

/-- Nothing that would keep the session alive is left only if it is closed. -/
def Busy (s : MqttSession) : Prop := s.tcp.closed = false → unreferenced s.tcp s.writes.length = false

theorem busy_run {es : List World.Event} (hrun : (machine cfg).Run (Returns cfg) (init cfg) es w) :
    All (fun _ => Busy) w := by
  have hreading : All (fun _ => Reading) w :=
    hrun.invariant (All fun _ => Reading) (all_init _ cfg) fun _ _ _ hm hp hs => reading_step hm hp hs
  intro j t hj hopen
  obtain ⟨rfl, hlt⟩ := session_of_get hj
  obtain ⟨frames, hkept⟩ := Refusal.kept_reaches hrun.reaches hlt
  have hpending : (w.session j).tcp.reads ≠ [] ∨ (w.session j).writes ≠ [] := by
    cases hc : (w.session j).closing with
    | false => exact .inl (hreading j _ hj hopen hc)
    | true =>
      rcases hkept.standing.judged with hg | hr
      · cases hg.going.symm.trans hc
      · obtain ⟨before, refusal, after, -, -, -, -, hclosing⟩ := hr.answered
        rcases hclosing with hclosed | hwrite
        · cases hopen.symm.trans hclosed
        · exact .inr (List.ne_nil_of_mem hwrite)
  rcases hpending with hr | hw
  · simp [unreferenced, hr]
  · simp [unreferenced, hw]

/-! What the listeners leave behind. -/

/-- Nothing is released or marked on the way from `w` to `w'`, and no open session goes. -/
structure Undisturbed (w w' : World) : Prop where
  busy : All (fun _ => Busy) w'
  uses : w'.mqtt.map destructor = w.mqtt.map destructor
  guard : w'.shared.guard = w.shared.guard
  nodes : w'.shared.registry.nodes = w.shared.registry.nodes

theorem Undisturbed.trans {w'' : World} (h : Undisturbed w w') (h' : Undisturbed w' w'') : Undisturbed w w'' :=
  ⟨h'.busy, h'.uses.trans h.uses, h'.guard.trans h.guard, h'.nodes.trans h.nodes⟩

/-- The destructor of a listener takes nothing from its sessions but the place in its list. -/
theorem undisturbed_destroyServer (h : All (fun _ => Busy) w) (server : Nat) :
    Undisturbed w (destroyServer server w) := by
  refine ⟨fun j t hj => ?_, ?_, rfl, rfl⟩
  · obtain ⟨s, hs, rfl⟩ := Option.map_eq_some_iff.mp (List.getElem?_map .. ▸ hj)
    have hb : Busy s := h j s hs
    split
    · exact hb
    · exact hb
  · refine (List.map_map ..).trans (List.map_congr_left fun s _ => ?_)
    dsimp only [Function.comp]
    split <;> rfl

/-- A session that nothing refers to is closed already, and its destructor does nothing. -/
theorem undisturbed_destroyMqtt (h : All (fun _ => Busy) w) (hs : w.step cfg (.destroyMqtt now i) = some w') :
    Undisturbed w w' := by
  obtain ⟨s, hget, hs⟩ := Option.bind_eq_some_iff.mp hs
  obtain ⟨rfl, hi⟩ := session_of_get hget
  split at hs
  case isFalse => cases hs
  rename_i hfree
  have hclosed : (w.session i).tcp.closed = true := by
    by_contra hopen
    cases (h.session hi (Bool.eq_false_iff.mpr hopen)).symm.trans hfree.1
  have hclose : (w.closeSession cfg now i).1 = w := by rw [closeSession, if_pos hclosed]
  rw [hclose] at hs
  obtain rfl := Option.some.inj hs
  obtain ⟨hrest, hdead⟩ : destructor (w.session i) = [] ∧ destructor (markGone (w.session i)) = [] := by
    simp [destructor, TcpSession.live, markGone, hclosed]
  refine ⟨fun j t hj => ?_, ?_, rfl, rfl⟩
  · rw [update, get_setSession _ hi] at hj
    split at hj
    · obtain rfl := Option.some.inj hj
      exact fun hopen => absurd (hopen.symm.trans hclosed) Bool.false_ne_true
    · exact h j t hj
  · calc (w.mqtt.set i (markGone (w.session i))).map destructor
      _ = (w.mqtt.map destructor).set i [] := by rw [List.map_set, hdead]
      _ = (w.mqtt.set i (w.session i)).map destructor := by rw [List.map_set, hrest]
      _ = w.mqtt.map destructor := by rw [set_session_self]

theorem Undisturbed.ended {servers : Nat} (h : All (fun _ => Busy) w) (hend : Ended cfg servers w w') :
    Undisturbed w w' := by
  induction hend with
  | none => exact ⟨h, rfl, rfl, rfl⟩
  | @server server u u₁ _ _ hrun _ ih =>
    have hserver := undisturbed_destroyServer h server
    have hgone := hrun.invariant (Undisturbed (destroyServer server u)) ⟨hserver.busy, rfl, rfl, rfl⟩
      fun u e v hu he hs => by
        obtain ⟨now, i, rfl⟩ := he
        exact hu.trans (undisturbed_destroyMqtt hu.busy hs)
    exact (hserver.trans hgone).trans (ih hgone.busy)

theorem danglingUses_eq (h : w'.mqtt.map destructor = w.mqtt.map destructor) :
    danglingUses w' = danglingUses w := by
  rw [danglingUses, danglingUses, List.flatMap_def, h, List.flatMap_def]

theorem danglingUses_nil : danglingUses w = [] ↔ ∀ s ∈ w.mqtt, s.tcp.live = false := by
  refine List.flatMap_eq_nil_iff.trans (forall₂_congr fun s _ => ?_)
  rw [destructor]
  split
  · rename_i hlive
    simp [hlive]
  · rename_i hlive
    simp [hlive]

/-- **Every MQTT session that is open when the process is told to stop outlives the connection guard and the
registry, and its destructor refers to them: nothing is released and no node is put into its grace period
before, and the destruction is harmless only if no session is open.** -/
theorem destructors_after_guard {es : List World.Event} (hrun : (machine cfg).Run (Returns cfg) (init cfg) es w)
    (hend : Ended cfg cfg.servers w w') :
    danglingUses w' = w.mqtt.flatMap destructor ∧ w'.shared.guard = w.shared.guard ∧
      w'.shared.registry.nodes = w.shared.registry.nodes ∧
      (danglingUses w' = [] ↔ ∀ s ∈ w.mqtt, s.tcp.live = false) := by
  have h := Undisturbed.ended (busy_run hrun) hend
  have huses := danglingUses_eq h.uses
  exact ⟨huses, h.guard, h.nodes, huses ▸ danglingUses_nil⟩

/-! A worker is connected when the signal comes. -/

private def working : List World.Event :=
  [.acceptMqtt 0 0 none false, .mqtt 100 0 (.read connectPacket),
    .mqtt 101 0 (.read (metaPacket (metaDocument (ascii "job"))))]

private def signalled : World :=
  ((machine jobListener).execIf (Returns jobListener) (init jobListener) working).getD (init jobListener)

private theorem signalled_run :
    ((machine jobListener).execIf (Returns jobListener) (init jobListener) working).isSome = true ∧
      signalled.mqtt.flatMap destructor = [.connGuard, .registry] := by decide +kernel

theorem worker_outlives : danglingUses (destroyServer 0 signalled) = [.connGuard, .registry] := by
  obtain ⟨hrun, huses⟩ := signalled_run
  have hended : Ended jobListener 1 signalled (destroyServer 0 signalled) := .server .start .none
  exact (destructors_after_guard
    ((machine jobListener).run_execIf (Returns jobListener) hrun) hended).1.trans huses

end LightApr.Server.Shutdown
