import LightApr.Server.Refusal

/-! What a handler does before, at and after the end of its session. -/
namespace LightApr.Server.AfterClose
open LightApr.Core Lib Mqtt MqttSession World Receiving Packet Refusal

/-! The packets that matter. -/

/-- A metadata PUBLISH that can be read. -/
def registers (lib : JsonLib) (data : Bytes) : Bool :=
  decide (data.headD 0 &&& 0xF0 = publish) &&
    match decodePublish data with
    | none => false
    | some pub => decide (pub.topic = ascii "apr/node/meta") && (readMeta lib [] pub.payload).isSome

/-- A PUBLISH that registers, changes data or is relayed. -/
def changes (lib : JsonLib) (named : Bool) (pub : MqttPublish) : Bool :=
  if pub.topic = ascii "apr/node/meta" then (readMeta lib [] pub.payload).isSome
  else if pub.topic = ascii "apr/node/extra" then named && (readExtra lib pub.payload).isSome
  else !isReserved pub.topic

/-- The packet has an effect when its session is authenticated. `named`: the session has a node. -/
def effective (lib : JsonLib) (named : Bool) (data : Bytes) : Bool :=
  if data.headD 0 &&& 0xF0 = publish then
    match decodePublish data with
    | none => false
    | some pub => changes lib named pub
  else if data.headD 0 &&& 0xF0 = subscribe &&& 0xF0 then
    match decodeSubscribe data with
    | none => false
    | some sub => !sub.topics.isEmpty
  else false

structure Phase where
  closed : Bool
  authenticated : Bool
  named : Bool

def Phase.of (s : MqttSession) : Phase := ⟨s.tcp.closed, s.authenticated, decide (s.nodeId ≠ [])⟩

/-- The phase after a packet, as far as the packet tells. -/
def Phase.next (lib : JsonLib) (data : Bytes) (phase : Phase) : Phase where
  closed := phase.closed || decide (data.headD 0 &&& 0xF0 = disconnect)
  authenticated := phase.authenticated || decide (data.headD 0 &&& 0xF0 = connect)
  named := phase.named || (phase.authenticated && registers lib data)

/-- Nothing that has an effect comes when the session is closed; what stands behind a refused CONNECT is not read. -/
def quiet (cfg : ServerConfig) (phase : Phase) : List Bytes → Bool
  | [] => true
  | data :: rest =>
    refuses cfg.accessKey data ||
      (!(phase.closed && phase.authenticated && effective cfg.registry.json phase.named data) &&
        quiet cfg (phase.next cfg.registry.json data) rest)

structure Phase.Covers (phase : Phase) (s : MqttSession) : Prop where
  closed : s.tcp.closed = phase.closed
  authenticated : s.authenticated = true → phase.authenticated = true
  named : s.nodeId ≠ [] → phase.named = true

/-! What a handler does. -/

/-- What the registry and the other sessions know of the session, and whether it is closed. -/
structure Frozen (s s' : MqttSession) : Prop where
  nodeId : s'.nodeId = s.nodeId
  subscriptions : s'.subscriptions = s.subscriptions
  registrations : s'.registrations = s.registrations
  broadcasts : s'.broadcasts = s.broadcasts
  closed : s'.tcp.closed = s.tcp.closed

/-- Nothing but session `i` has changed, and of it only what concerns its own connection. -/
structure Inert (i : Nat) (w w' : World) : Prop where
  shared : w'.shared = w.shared
  http : w'.http = w.http
  others : ∀ j, j ≠ i → w'.mqtt[j]? = w.mqtt[j]?
  frozen : Frozen (w.session i) (w'.session i)

/-- The buffers, the reads, the waits and the writes of a session, and who holds it. -/
def Bookkeeping (s s' : MqttSession) : Prop :=
  ∃ reads waits gone listed rxAcc isWebsocket wsHandshakeDone out writes received,
    s' = { s with
      tcp := { s.tcp with reads, waits, gone }, listed, rxAcc, isWebsocket, wsHandshakeDone, out, writes, received }

/-- The handler calls `process_packet` with these packets, in this order, and does nothing else but keep the books. -/
inductive Serves (cfg : ServerConfig) (now : Int) (i : Nat) (w : World) : List Bytes → World → Prop
  | start : Serves cfg now i w [] w
  | packet {packets : List Bytes} {u : World} (data : Bytes) : Serves cfg now i w packets u →
      Serves cfg now i w (packets ++ [data]) (u.processPacket cfg now i data).1
  | own {packets : List Bytes} {u : World} {f : MqttSession → MqttSession} : Serves cfg now i w packets u →
      Bookkeeping (u.session i) (f (u.session i)) → Serves cfg now i w packets (u.update i f)

/-- `close_session` runs on the open session `i` of `u`, in the handler of a DISCONNECT or not. -/
structure Closes (cfg : ServerConfig) (now : Int) (i : Nat) (u v : World) : Prop where
  opened : (u.session i).tcp.closed = false
  called : v = (u.closeSession cfg now i).1 ∨ ∃ data, data.headD 0 &&& 0xF0 = disconnect ∧
    v = ((u.update i (recordPacket data)).closeSession cfg now i).1
  closed : (v.session i).tcp.closed = true
  /-- the node is put into its grace period, once -/
  registry : v.shared.registry = if (u.session i).nodeId = [] then u.shared.registry
    else (u.shared.registry.markNodeGrace now (u.session i).nodeId).1

/-- A handler of session `i`. -/
inductive Course (cfg : ServerConfig) (now : Int) (i : Nat) (w w' : World) : Prop
  /-- the session stays open -/
  | going {packets : List Bytes} : (w.session i).tcp.closed = false → Serves cfg now i w packets w' →
      (w'.session i).tcp.closed = false → Course cfg now i w w'
  /-- it is open, then closed, and then nothing more happens -/
  | closing {packets : List Bytes} {u v : World} : (w.session i).tcp.closed = false → Serves cfg now i w packets u →
      Closes cfg now i u v → Inert i v w' → Course cfg now i w w'
  /-- it is closed -/
  | retired : (w.session i).tcp.closed = true → Inert i w w' → Course cfg now i w w'

variable {cfg : ServerConfig} {now : Int} {i : Nat} {w w' w'' u : World} {s s' s'' : MqttSession} {data : Bytes}
  {phase : Phase}

/-! Frames of the session's own handlers. -/

theorem Frozen.refl (s : MqttSession) : Frozen s s := ⟨rfl, rfl, rfl, rfl, rfl⟩

theorem Frozen.trans (h : Frozen s s') (h' : Frozen s' s'') : Frozen s s'' :=
  ⟨h'.1.trans h.1, h'.2.trans h.2, h'.3.trans h.3, h'.4.trans h.4, h'.5.trans h.5⟩

theorem Bookkeeping.frozen (h : Bookkeeping s s') : Frozen s s' := by
  obtain ⟨_, _, _, _, _, _, _, _, _, _, rfl⟩ := h
  exact ⟨rfl, rfl, rfl, rfl, rfl⟩

theorem Bookkeeping.authenticated (h : Bookkeeping s s') : s'.authenticated = s.authenticated := by
  obtain ⟨_, _, _, _, _, _, _, _, _, _, rfl⟩ := h
  rfl

theorem Inert.refl (i : Nat) (w : World) : Inert i w w := ⟨rfl, rfl, fun _ _ => rfl, .refl _⟩

theorem Inert.trans (h : Inert i w w') (h' : Inert i w' w'') : Inert i w w'' :=
  ⟨h'.shared.trans h.shared, h'.http.trans h.http, fun j hj => (h'.others j hj).trans (h.others j hj),
    h.frozen.trans h'.frozen⟩

theorem inert_update {f : MqttSession → MqttSession} (hi : i < w.mqtt.length)
    (h : Frozen (w.session i) (f (w.session i))) : Inert i w (w.update i f) := by
  refine ⟨rfl, rfl, fun j hj => ?_, ?_⟩
  · rw [update, get_setSession _ hi, if_neg (Ne.symm hj)]
  · rwa [session_update hi]

theorem frozen_handleConnect (accessKey data : Bytes) (s : MqttSession) : Frozen s
    (s.handleConnect accessKey data) := by
  unfold handleConnect
  split
  · exact ⟨rfl, rfl, rfl, rfl, rfl⟩
  · dsimp only
    split <;> exact ⟨rfl, rfl, rfl, rfl, rfl⟩

theorem frozen_acknowledge (pub : MqttPublish) (s : MqttSession) : Frozen s (s.acknowledge pub) := by
  unfold acknowledge
  split <;> exact ⟨rfl, rfl, rfl, rfl, rfl⟩

/-- Whether a metadata document can be read does not depend on the default role. -/
theorem readMeta_isSome (lib : JsonLib) (role role' payload : Bytes) :
    (readMeta lib role payload).isSome = (readMeta lib role' payload).isSome := by
  unfold readMeta Json.valueString?
  cases lib.parse payload with
  | none => rfl
  | some j =>
    cases j with
    | obj fields =>
      simp only [Option.bind_eq_bind, Option.bind_some]
      cases fields.lookup (ascii "role") with
      | none =>
        cases NodeInfo.workersFromJson (.obj fields) with
        | none => rfl
        | some workers => cases NodeInfo.endpointFromJson (.obj fields) <;> rfl
      | some v => rfl
    | null | bool _ | int _ | float _ _ | str _ | arr _ => rfl

/-- A SUBSCRIBE without effect. -/
theorem frozen_handleSubscribe (s : MqttSession)
    (h : s.authenticated = true → ∀ sub, decodeSubscribe data = some sub → sub.topics = []) :
    Frozen s (s.handleSubscribe data) := by
  unfold handleSubscribe
  split
  · exact .refl s
  · rename_i ha
    split
    · exact .refl s
    · rename_i sub hsub
      have hnone := h (by simpa using ha) sub hsub
      refine ⟨rfl, ?_, rfl, rfl, rfl⟩
      show s.subscriptions ++ sub.topics = s.subscriptions
      rw [hnone, List.append_nil]

/-! Packets on a closed session. -/

theorem inert_endSession (hi : i < w.mqtt.length) (hc : (w.session i).tcp.closed = true) :
    Inert i w (w.endSession cfg now i).1 := by
  have he : w.closeSession cfg now i = (w, .done) := by rw [closeSession, if_pos hc]
  unfold endSession
  rw [he]
  exact inert_update hi ⟨rfl, rfl, rfl, rfl, rfl⟩

/-- A PUBLISH without effect. -/
theorem inert_handlePublish (cfg : ServerConfig) (now : Int) (hi : i < w.mqtt.length)
    (h : (w.session i).authenticated = true → ∀ pub, decodePublish data = some pub →
      changes cfg.registry.json (decide ((w.session i).nodeId ≠ [])) pub = false) :
    Inert i w (w.handlePublish cfg now i data) := by
  unfold handlePublish
  dsimp only
  split
  · exact .refl i w
  · rename_i ha
    split
    · exact .refl i w
    · rename_i pub hpub
      have hno := h (by simpa using ha) pub hpub
      have hack : Inert i w (w.update i (acknowledge pub)) := inert_update hi (frozen_acknowledge pub _)
      unfold changes at hno
      split
      · rename_i htopic
        rw [if_pos htopic, readMeta_isSome _ [] (w.session i).role] at hno
        split
        · exact hack
        · rename_i m hm
          rw [hm] at hno
          cases hno
      · rename_i htopic
        rw [if_neg htopic] at hno
        split
        · rename_i hextra
          rw [if_pos hextra] at hno
          split
          · exact hack
          · rename_i hnamed
            rw [decide_eq_true hnamed, Bool.true_and] at hno
            split
            · exact hack
            · rename_i hread
              rw [hread] at hno
              cases hno
        · rename_i hextra
          rw [if_neg hextra] at hno
          split
          · exact hack
          · rename_i hfree
            rw [eq_false_of_ne_true hfree] at hno
            cases hno

theorem inert_processPacket (cfg : ServerConfig) (now : Int) (hi : i < w.mqtt.length)
    (hc : (w.session i).tcp.closed = true) (data : Bytes) (h : (w.session i).authenticated = true →
      effective cfg.registry.json (decide ((w.session i).nodeId ≠ [])) data = false) :
    Inert i w (w.processPacket cfg now i data).1 := by
  by_cases hne : data = []
  · rw [hne]
    exact .refl i w
  · have hrecord : Inert i w (w.update i (recordPacket data)) := inert_update hi ⟨rfl, rfl, rfl, rfl, rfl⟩
    have hi' : i < (w.update i (recordPacket data)).mqtt.length := by simpa using hi
    have hs' := session_update hi (recordPacket data)
    refine hrecord.trans ?_
    unfold effective at h
    have hcase := processPacket_cases cfg now i w hne
    generalize w.processPacket cfg now i data = x at hcase ⊢
    cases hcase with
    | connect _ => exact inert_update hi' (frozen_handleConnect _ _ _)
    | publish ht =>
      rw [if_pos ht] at h
      refine inert_handlePublish cfg now hi' fun ha pub hpub => ?_
      rw [hs'] at ha ⊢
      have hno := h ha
      rw [hpub] at hno
      exact hno
    | subscribe ht =>
      rw [if_neg (by rw [ht]; decide), if_pos ht] at h
      refine inert_update hi' (frozen_handleSubscribe _ fun ha sub hsub => ?_)
      rw [hs'] at ha
      have hno := h ha
      rw [hsub] at hno
      simpa using hno
    | pingreq _ => exact inert_update hi' ⟨rfl, rfl, rfl, rfl, rfl⟩
    | disconnect _ => exact inert_endSession hi' (by rw [hs']; exact hc)
    | dropped => exact .refl i _

/-! The phase. -/

theorem Phase.covers_of (s : MqttSession) : (Phase.of s).Covers s := ⟨rfl, id, decide_eq_true⟩

theorem Phase.Covers.same (h : phase.Covers s) (he : Phase.of s' = Phase.of s) : phase.Covers s' := by
  obtain ⟨hclosed, hauth, hnamed⟩ := Phase.mk.inj he
  refine ⟨hclosed.trans h.closed, fun ha => h.authenticated (hauth.symm.trans ha), fun hn => h.named ?_⟩
  exact of_decide_eq_true (hnamed.symm.trans (decide_eq_true hn))

theorem phase_deliverAll (msgs : List (Nat × Bytes × Bytes)) (s : MqttSession) :
    Phase.of (deliverAll msgs s) = Phase.of s := by
  obtain ⟨_, _, _, h⟩ := deliverAll_same msgs s
  rw [h]
  rfl

theorem phase_acknowledge (pub : MqttPublish) (s : MqttSession) : Phase.of (s.acknowledge pub) = Phase.of s := by
  unfold acknowledge
  split <;> rfl

/-- A PUBLISH leaves the phase as it is, unless it registers. -/
theorem phase_handlePublish (cfg : ServerConfig) (now : Int) (hi : i < w.mqtt.length)
    (ht : data.headD 0 &&& 0xF0 = publish) :
    Phase.of ((w.handlePublish cfg now i data).session i) = Phase.of (w.session i) ∨
      ((w.session i).authenticated = true ∧ registers cfg.registry.json data = true ∧
        ((w.handlePublish cfg now i data).session i).tcp.closed = (w.session i).tcp.closed) := by
  unfold handlePublish
  dsimp only
  split
  · exact .inl rfl
  · rename_i ha
    split
    · exact .inl rfl
    · rename_i pub hpub
      have hack : Phase.of ((w.update i (acknowledge pub)).session i) = Phase.of (w.session i) := by
        rw [session_update hi]
        exact phase_acknowledge pub _
      have hi' : i < (w.update i (acknowledge pub)).mqtt.length := by simpa using hi
      split
      · rename_i htopic
        split
        · exact .inl hack
        · rename_i m hm
          right
          obtain ⟨nodeId, -, he⟩ := publishMeta_effect cfg now m hi'
          refine ⟨by simpa using ha, ?_, ?_⟩
          · rw [registers, decide_eq_true ht, Bool.true_and, hpub]
            dsimp only
            rw [decide_eq_true htopic, Bool.true_and, readMeta_isSome _ [] (w.session i).role, hm]
            rfl
          · rw [he.session_self hi']
            have hsame := (Phase.mk.inj (phase_deliverAll
              (eventMessages cfg (registration cfg now ((w.update i (acknowledge pub)).session i) m
                (w.update i (acknowledge pub)).shared.registry))
              ((((w.update i (acknowledge pub)).session i).recordRegistration now m w.shared.registry).assignNode nodeId))).1
            exact hsame.trans (Phase.mk.inj hack).1
      · left
        split
        · split
          · exact hack
          · split
            · exact hack
            · rename_i worker extra _
              rw [(publishExtra_effect cfg now i worker extra _).session_self hi', phase_deliverAll]
              exact hack
        · split
          · exact hack
          · rw [session_broadcast hi']
            exact (phase_deliverAll [(_, _, _)] _).trans hack

/-- What has to be known of a session after a packet. -/
theorem Phase.Covers.next (h : phase.Covers s) {lib : JsonLib}
    (hclosed : s'.tcp.closed = (s.tcp.closed || decide (data.headD 0 &&& 0xF0 = disconnect)))
    (hauth : s'.authenticated = true → s.authenticated = true ∨ data.headD 0 &&& 0xF0 = connect)
    (hnamed : s'.nodeId ≠ [] → s.nodeId ≠ [] ∨ (s.authenticated = true ∧ registers lib data = true)) :
    (phase.next lib data).Covers s' := by
  refine ⟨hclosed.trans (congrArg (· || _) h.closed), fun ha => ?_, fun hn => ?_⟩
  · rcases hauth ha with ha | hc
    · rw [Phase.next, h.authenticated ha, Bool.true_or]
    · rw [Phase.next, decide_eq_true hc, Bool.or_true]
  · rcases hnamed hn with hn | ⟨ha, hr⟩
    · rw [Phase.next, h.named hn, Bool.true_or]
    · rw [Phase.next, h.authenticated ha, hr, Bool.true_and, Bool.or_true]

theorem Phase.Covers.next_same (h : phase.Covers s) (lib : JsonLib) (he : Phase.of s' = Phase.of s)
    (hd : data.headD 0 &&& 0xF0 ≠ disconnect) : (phase.next lib data).Covers s' := by
  obtain ⟨hclosed, hauth, hnamed⟩ := Phase.mk.inj he
  refine h.next ?_ (fun ha => .inl (hauth.symm.trans ha)) fun hn => .inl ?_
  · rw [decide_eq_false hd, Bool.or_false]
    exact hclosed
  · exact of_decide_eq_true (hnamed.symm.trans (decide_eq_true hn))

theorem covers_processPacket (cfg : ServerConfig) (now : Int) (hi : i < w.mqtt.length) (hne : data ≠ [])
    (h : phase.Covers (w.session i)) :
    (phase.next cfg.registry.json data).Covers ((w.processPacket cfg now i data).1.session i) := by
  have hi' : i < (w.update i (recordPacket data)).mqtt.length := by simpa using hi
  have hs' := session_update hi (recordPacket data)
  have hrecord : phase.Covers ((w.update i (recordPacket data)).session i) := by
    rw [hs']
    exact h.same rfl
  have hcase := processPacket_cases cfg now i w hne
  generalize w.processPacket cfg now i data = x at hcase ⊢
  cases hcase with
  | connect ht =>
    have hf := frozen_handleConnect cfg.accessKey data ((w.update i (recordPacket data)).session i)
    rw [session_update hi']
    refine hrecord.next ?_ (fun _ => .inr ht) fun hn => .inl (hf.nodeId ▸ hn)
    rw [ht]
    exact hf.closed.trans (Bool.or_false _).symm
  | publish ht =>
    have hd : data.headD 0 &&& 0xF0 ≠ disconnect := by
      rw [ht]
      decide
    rcases phase_handlePublish cfg now hi' ht with he | ⟨ha, hr, hclosed⟩
    · exact hrecord.next_same _ he hd
    · refine hrecord.next ?_ (fun _ => .inl ha) fun _ => .inr ⟨ha, hr⟩
      rw [decide_eq_false hd, Bool.or_false]
      exact hclosed
  | subscribe ht =>
    rw [session_update hi']
    refine hrecord.next_same _ ?_ (by rw [ht]; decide)
    unfold handleSubscribe
    split
    · rfl
    · split <;> rfl
  | pingreq ht =>
    rw [session_update hi']
    exact hrecord.next_same _ rfl (by rw [ht]; decide)
  | disconnect ht =>
    have hpass := (passes_endSession cfg now hi').profile
    simp only [profile, Prod.mk.injEq] at hpass
    obtain ⟨hauth, -, -, -, hnode, -⟩ := hpass
    refine hrecord.next ?_ (fun ha => .inl (hauth ▸ ha)) fun hn => .inl (hnode ▸ hn)
    rw [closed_endSession hi', decide_eq_true ht, Bool.or_true]
  | dropped _ _ _ _ hd => exact hrecord.next_same _ rfl hd

/-! The end of a session. -/

theorem closes_closeSession (cfg : ServerConfig) (now : Int) (hi : i < w.mqtt.length)
    (hopen : (w.session i).tcp.closed = false) : Closes cfg now i w (w.closeSession cfg now i).1 := by
  refine ⟨hopen, .inl rfl, closed_closeSession cfg now hi, ?_⟩
  rcases closeSession_effect cfg now i w with ⟨hc, -⟩ | ⟨-, registry, msgs, hnode, he⟩
  · cases hopen.symm.trans hc
  · rw [he.shared]
    rcases hnode with ⟨hn, hr, -⟩ | ⟨hn, hr, -⟩
    · rw [if_pos hn]
      exact hr
    · rw [if_neg hn]
      exact hr

theorem closes_disconnect (cfg : ServerConfig) (now : Int) (hi : i < w.mqtt.length)
    (hopen : (w.session i).tcp.closed = false) (hd : data.headD 0 &&& 0xF0 = disconnect) :
    Closes cfg now i w ((w.update i (recordPacket data)).closeSession cfg now i).1 := by
  have hi' : i < (w.update i (recordPacket data)).mqtt.length := by simpa using hi
  have hs' := session_update hi (recordPacket data)
  have hclose := closes_closeSession cfg now hi' (by rw [hs']; exact hopen)
  refine ⟨hopen, .inr ⟨data, hd, rfl⟩, hclose.closed, ?_⟩
  rw [hclose.registry, hs', shared_update]
  rfl

theorem processPacket_disconnect (cfg : ServerConfig) (now : Int) (i : Nat) (w : World)
    (hd : data.headD 0 &&& 0xF0 = disconnect) :
    w.processPacket cfg now i data = (w.update i (recordPacket data)).endSession cfg now i := by
  have hne : data ≠ [] := by
    rintro rfl
    exact absurd hd (by decide)
  have hcase := processPacket_cases cfg now i w hne
  generalize w.processPacket cfg now i data = x at hcase ⊢
  cases hcase with
  | connect ht | publish ht | subscribe ht | pingreq ht => exact absurd (ht.symm.trans hd) (by decide)
  | disconnect _ => rfl
  | dropped _ _ _ _ hno => exact absurd hd hno

/-! The handler, step by step. -/

theorem Course.own (h : Course cfg now i w u) (hi : i < u.mqtt.length) {f : MqttSession → MqttSession}
    (hb : Bookkeeping (u.session i) (f (u.session i))) : Course cfg now i w (u.update i f) := by
  have hinert : Inert i u (u.update i f) := inert_update hi hb.frozen
  cases h with
  | going hopen hserves hstill => exact .going hopen (.own hserves hb) (hinert.frozen.closed.trans hstill)
  | closing hopen hserves hcloses hi' => exact .closing hopen hserves hcloses (hi'.trans hinert)
  | retired hclosed hi' => exact .retired hclosed (hi'.trans hinert)

/-- A handler that has closed the session, or found it closed, goes on with nothing. -/
theorem Course.rest (h : Course cfg now i w u) (hclosed : (u.session i).tcp.closed = true) (hu : Inert i u w') :
    Course cfg now i w w' := by
  cases h with
  | going _ _ hstill => cases hclosed.symm.trans hstill
  | closing hopen hserves hcloses hi => exact .closing hopen hserves hcloses (hi.trans hu)
  | retired hc hi => exact .retired hc (hi.trans hu)

/-- A handler that has kept the session open may close it. -/
theorem Course.shut {v : World} (h : Course cfg now i w u) (hopen : (u.session i).tcp.closed = false)
    (hc : Closes cfg now i u v) : Course cfg now i w v := by
  cases h with
  | going hw hserves _ => exact .closing hw hserves hc (.refl i v)
  | closing _ _ hcloses hi => cases (hi.frozen.closed.trans hcloses.closed).symm.trans hopen
  | retired hw hi => cases (hi.frozen.closed.trans hw).symm.trans hopen

theorem Course.close (h : Course cfg now i w u) (hi : i < u.mqtt.length) :
    Course cfg now i w (u.closeSession cfg now i).1 := by
  cases hc : (u.session i).tcp.closed with
  | true =>
    have he : u.closeSession cfg now i = (u, .done) := by rw [closeSession, if_pos hc]
    rwa [he]
  | false => exact h.shut hc (closes_closeSession cfg now hi hc)

theorem Course.finish (h : Course cfg now i w u) (hi : i < u.mqtt.length) :
    Course cfg now i w (u.endSession cfg now i).1 := by
  rcases endSession_cases cfg now i u with he | he
  · rw [he]
    exact h.close hi
  · rw [he]
    have hlen : i < (u.closeSession cfg now i).1.mqtt.length := by simpa using hi
    exact (h.close hi).own hlen ⟨_, _, _, _, _, _, _, _, _, _, rfl⟩

theorem effective_mono {lib : JsonLib} {named named' : Bool} (h : effective lib named data = false)
    (hle : named' = true → named = true) : effective lib named' data = false := by
  cases named with
  | true =>
    cases named' with
    | true => exact h
    | false =>
      unfold effective changes at h ⊢
      split
      · rename_i hp
        rw [if_pos hp] at h
        split
        · rfl
        · rename_i pub hpub
          rw [hpub] at h
          dsimp only at h
          split
          · rename_i ht
            rwa [if_pos ht] at h
          · rename_i ht
            rw [if_neg ht] at h
            split
            · rfl
            · rename_i hx
              rwa [if_neg hx] at h
      · rename_i hp
        rwa [if_neg hp] at h
  | false =>
    cases named' with
    | true => cases hle rfl
    | false => exact h

/-- A CONNECT that is refused has no effect. -/
theorem effective_refused {accessKey : Bytes} (h : refuses accessKey data = true) (lib : JsonLib) (named : Bool) :
    effective lib named data = false := by
  have ht : data.headD 0 &&& 0xF0 = connect := of_decide_eq_true (Bool.and_eq_true_iff.mp h).1
  rw [effective, ht, if_neg (by decide), if_neg (by decide)]

/-- What `quiet` says of the first packet. -/
theorem quiet_head {rest : List Bytes} (h : quiet cfg phase (data :: rest) = true) :
    (phase.closed && phase.authenticated && effective cfg.registry.json phase.named data) = false := by
  rw [quiet, Bool.or_eq_true] at h
  rcases h with hr | h
  · rw [effective_refused hr cfg.registry.json phase.named, Bool.and_false]
  · exact Bool.not_eq_true' _ |>.mp (Bool.and_eq_true_iff.mp h).1

theorem Course.packet (h : Course cfg now i w u) (hi : i < u.mqtt.length) (hphase : phase.Covers (u.session i))
    (hne : data ≠ [])
    (hq : (phase.closed && phase.authenticated && effective cfg.registry.json phase.named data) = false) :
    Course cfg now i w (u.processPacket cfg now i data).1 := by
  cases hc : (u.session i).tcp.closed with
  | true =>
    refine h.rest hc (inert_processPacket cfg now hi hc data fun ha => ?_)
    rw [← hphase.closed, hc, hphase.authenticated ha, Bool.true_and, Bool.true_and] at hq
    exact effective_mono hq fun hn => hphase.named (of_decide_eq_true hn)
  | false =>
    by_cases hd : data.headD 0 &&& 0xF0 = disconnect
    · rw [processPacket_disconnect cfg now i u hd]
      have hlen : i < ((u.update i (recordPacket data)).closeSession cfg now i).1.mqtt.length := by simpa using hi
      have hshut := h.shut hc (closes_disconnect cfg now hi hc hd)
      rcases endSession_cases cfg now i (u.update i (recordPacket data)) with he | he
      · rwa [he]
      · rw [he]
        exact hshut.own hlen ⟨_, _, _, _, _, _, _, _, _, _, rfl⟩
    · have hstill : ((u.processPacket cfg now i data).1.session i).tcp.closed = false := by
        rw [(covers_processPacket cfg now hi hne hphase).closed, Phase.next, decide_eq_false hd, Bool.or_false,
          ← hphase.closed]
        exact hc
      cases h with
      | going hw hserves _ => exact .going hw (.packet data hserves) hstill
      | closing _ _ hcloses hi' => cases (hi'.frozen.closed.trans hcloses.closed).symm.trans hc
      | retired hw hi' => cases (hi'.frozen.closed.trans hw).symm.trans hc

end LightApr.Server.AfterClose
