import LightApr.Server.Step

/-! Until a session has handled a CONNECT with the right password, its packets have no
effect outside it, and nothing is broadcast to it. -/
namespace LightApr.Server.AccessGate
open LightApr.Core Lib Mqtt MqttSession World

instance (accessKey data : Bytes) : Decidable (GrantsAccess accessKey data) :=
  match h : Packet.decodeConnect data with
  | none => .isFalse fun ⟨_, conn, hc, _⟩ => nomatch h.symm.trans hc
  | some conn =>
    decidable_of_iff (data.headD 0 &&& 0xF0 = Packet.connect ∧
        conn.password = expectedPassword accessKey conn.username)
      ⟨fun ⟨ht, hp⟩ => ⟨ht, conn, h, hp⟩,
        fun ⟨ht, c, hc, hp⟩ => ⟨ht, by
          obtain rfl := Option.some.inj (h.symm.trans hc)
          exact hp⟩⟩

/-- The session has handled a CONNECT that grants access. -/
def Granted (accessKey : Bytes) (s : MqttSession) : Prop := ∃ data ∈ s.handled, GrantsAccess accessKey data

instance (accessKey : Bytes) (s : MqttSession) : Decidable (Granted accessKey s) :=
  inferInstanceAs (Decidable (∃ data ∈ s.handled, GrantsAccess accessKey data))

structure Locked (s : MqttSession) : Prop where
  authenticated : s.authenticated = false
  nodeId : s.nodeId = []
  subscriptions : s.subscriptions = []
  broadcasts : s.broadcasts = []

/-- The gate: access was granted, or the session has nothing. -/
def Gate (accessKey : Bytes) (s : MqttSession) : Prop := Granted accessKey s ∨ Locked s

variable {cfg : ServerConfig} {now : Int} {i : Nat} {w w' : World} {s s' : MqttSession} {accessKey : Bytes}

theorem Gate.locked (h : Gate accessKey s) (hno : ¬ Granted accessKey s) : Locked s := h.resolve_left hno

theorem Gate.granted (h : Gate accessKey s) (ha : s.authenticated = true) : Granted accessKey s :=
  h.resolve_right fun hl => nomatch hl.authenticated.symm.trans ha

/-- Handled packets are never forgotten. -/
theorem Granted.mono {packets : List Bytes} (h : Granted accessKey s) (hh : s'.handled = s.handled ++ packets) :
    Granted accessKey s' := by
  obtain ⟨data, hm, hg⟩ := h
  exact ⟨data, hh ▸ List.mem_append_left _ hm, hg⟩

theorem granted_deliverAll {msgs : List (Nat × Bytes × Bytes)} :
    Granted accessKey (deliverAll msgs s) ↔ Granted accessKey s := by
  rw [Granted, Granted, (sameInput_deliverAll msgs s).handled]

theorem Gate.deliverAll (h : Gate accessKey s) (msgs : List (Nat × Bytes × Bytes)) :
    Gate accessKey (deliverAll msgs s) := by
  rcases h with h | h
  · exact .inl (granted_deliverAll.mpr h)
  · rw [deliverAll_unsubscribed h.subscriptions]
    exact .inr h

theorem gate_own (hkey : cfg.accessKey ≠ []) (hs : Gate cfg.accessKey s) (h : Own cfg s s') :
    Gate cfg.accessKey s' := by
  have hhandled : s'.handled = s.handled ++ [] := by rw [h.sameInput.handled, List.append_nil]
  have hgrant (hg : Granted cfg.accessKey s) : Gate cfg.accessKey s' := .inl (hg.mono hhandled)
  rcases hs with hg | hl
  · exact hgrant hg
  · obtain ⟨ha, hn, hsub, hb⟩ := hl
    cases h with
    | write | startClosing | identify | unlist => exact .inr ⟨ha, hn, hsub, hb⟩
    | authenticate username hm hacc => exact hgrant ⟨_, hm, hacc.resolve_right hkey⟩
    | subscribe topics _ hauth => exact nomatch ha.symm.trans hauth

/-! One act, one move, one event. -/

/-- Nothing outside session `i` has changed. -/
structure Unaffected (i : Nat) (w w' : World) : Prop where
  registry : w'.shared.registry = w.shared.registry
  http : w'.http = w.http
  others : ∀ j, j ≠ i → w'.mqtt[j]? = w.mqtt[j]?

theorem Unaffected.refl (i : Nat) (w : World) : Unaffected i w w := ⟨rfl, rfl, fun _ _ => rfl⟩

theorem Unaffected.trans {w'' : World} (h : Unaffected i w w') (h' : Unaffected i w' w'') : Unaffected i w w'' :=
  ⟨h'.registry.trans h.registry, h'.http.trans h.http, fun j hj => (h'.others j hj).trans (h.others j hj)⟩

theorem Unaffected.ofUpdate (f : MqttSession → MqttSession) (w : World) : Unaffected i w (w.update i f) :=
  ⟨rfl, rfl, fun _ hj => List.getElem?_set_ne hj.symm⟩

theorem Unaffected.ofEffect {shared : Shared} (h : Effect w w' i s [] shared)
    (hr : shared.registry = w.shared.registry) : Unaffected i w w' := by
  refine ⟨by rw [h.shared, hr], h.http, fun j hj => ?_⟩
  rw [h.get_ne hj.symm]
  exact Option.map_id'

/-- What session `i` has handled only grows along its own moves. -/
theorem handled_move (hi : i < w.mqtt.length) (h : Move cfg now i w w') :
    ∃ packets, (w'.session i).handled = (w.session i).handled ++ packets := by
  cases h with
  | act h => exact ⟨[], by rw [(h.sameInput hi).handled, List.append_nil]⟩
  | input hin e =>
    obtain ⟨_, _, _, _, _, _, _, rfl, -⟩ := hin
    exact ⟨[], by rw [e.session_self hi, (sameInput_deliverAll _ _).handled, List.append_nil]⟩
  | packet data e => exact ⟨[data], by rw [e.session_self hi]; rfl⟩

/-- The gate of every session. -/
abbrev Gates (accessKey : Bytes) : World → Prop := All fun _ => Gate accessKey

theorem gates_act (hkey : cfg.accessKey ≠ []) (hi : i < w.mqtt.length) (hw : Gates cfg.accessKey w)
    (h : Act cfg now i w w') : Gates cfg.accessKey w' := by
  have hs := hw.session hi
  have keep {t : MqttSession} {msgs : List (Nat × Bytes × Bytes)} {shared : Shared}
      (e : Effect w w' i t msgs shared) (ht : Gate cfg.accessKey t) : Gates cfg.accessKey w' :=
    hw.effect e (fun _ _ h => h.deliverAll msgs) fun _ => ht
  cases h with
  | own ho e => exact keep e (gate_own hkey hs ho)
  | relay ha e | publishExtra ha _ _ e => exact keep e hs
  | publishMeta ha _ _ e => exact keep e (.inl (hs.granted ha))
  | close _ _ e => exact keep e (hs.imp id fun hl => ⟨hl.1, hl.2, hl.3, hl.4⟩)

theorem gates_preserved (hkey : cfg.accessKey ≠ []) :
    Preserved cfg (fun _ _ => True) (Gates cfg.accessKey) where
  rejected hw _ := hw
  acceptedMqtt hw _ _ := hw.append rfl (.inr ⟨rfl, rfl, rfl, rfl⟩) rfl
  acceptedHttp hw _ _ := hw
  act hi hw h := gates_act hkey hi hw h
  input hi hw hin e := by
    obtain ⟨_, _, _, _, _, _, _, rfl, -⟩ := hin
    exact hw.effect e (fun _ _ h => h.deliverAll _)
      fun _ => (hw.session hi).imp id fun hl => ⟨hl.1, hl.2, hl.3, hl.4⟩
  packet hi hw e := hw.effect e (fun _ _ h => h.deliverAll _) fun _ =>
    (hw.session hi).imp (fun hg => hg.mono rfl) fun hl => ⟨hl.1, hl.2, hl.3, hl.4⟩
  transferred _ hi hw _ _ _ := hw.effect (.ofUpdate _) (fun _ _ h => h.deliverAll _)
    fun _ => (hw.session hi).imp id fun hl => ⟨hl.1, hl.2, hl.3, hl.4⟩
  http _ hw _ _ := hw
  destroyedMqtt hi hw _ := hw.effect (.ofUpdate _) (fun _ _ h => h.deliverAll _)
    fun _ => (hw.session hi).imp id fun hl => ⟨hl.1, hl.2, hl.3, hl.4⟩
  destroyedHttp _ hw _ := hw
  removed hw ha := hw.announced ha fun _ _ h => h.deliverAll _

/-! A locked session reaches nobody. -/

theorem unaffected_act (hl : Locked (w.session i)) (h : Act cfg now i w w') : Unaffected i w w' := by
  cases h with
  | own _ e => exact .ofEffect e rfl
  | relay ha => exact nomatch hl.authenticated.symm.trans ha.authenticated
  | publishMeta ha | publishExtra ha => exact nomatch hl.authenticated.symm.trans ha
  | close _ hc e =>
    rcases hc with ⟨-, rfl, rfl⟩ | ⟨hn, -⟩
    · exact .ofEffect e rfl
    · exact absurd hl.nodeId hn

theorem unaffected_move (hl : Locked (w.session i)) (h : Move cfg now i w w') : Unaffected i w w' := by
  cases h with
  | act h => exact unaffected_act hl h
  | input _ e | packet _ e => exact .ofEffect e rfl

/-- Moves that end without access have had no effect. -/
theorem unaffected_trace (hkey : cfg.accessKey ≠ []) (hi : i < w.mqtt.length) (hw : Gates cfg.accessKey w)
    (h : Trace cfg now i w w') (hno : ¬ Granted cfg.accessKey (w'.session i)) : Unaffected i w w' := by
  induction h with
  | refl => exact .refl i w
  | tail hpre h ih =>
    have hi' := Trace.length hpre ▸ hi
    obtain ⟨packets, hh⟩ := handled_move hi' h
    have hno' := fun hg : Granted cfg.accessKey _ => hno (hg.mono hh)
    have hl := ((gates_preserved hkey).trace hi hw hpre |>.session hi').locked hno'
    exact (ih hno').trans (unaffected_move hl h)

/-- Nothing outside session `i` has changed, and the session has gained nothing. -/
structure Contained (i : Nat) (w w' : World) : Prop where
  unaffected : Unaffected i w w'
  nodeId : (w'.session i).nodeId = (w.session i).nodeId
  subscriptions : (w'.session i).subscriptions = (w.session i).subscriptions

theorem Contained.refl (i : Nat) (w : World) : Contained i w w := ⟨.refl i w, rfl, rfl⟩

theorem Contained.trans {w'' : World} (h : Contained i w w') (h' : Contained i w' w'') : Contained i w w'' :=
  ⟨h.unaffected.trans h'.unaffected, h'.nodeId.trans h.nodeId, h'.subscriptions.trans h.subscriptions⟩

theorem contained_update (hi : i < w.mqtt.length) {f : MqttSession → MqttSession}
    (hn : (f (w.session i)).nodeId = (w.session i).nodeId)
    (hs : (f (w.session i)).subscriptions = (w.session i).subscriptions) : Contained i w (w.update i f) :=
  ⟨.ofUpdate f w, by rw [session_update hi, hn], by rw [session_update hi, hs]⟩

theorem contained_endSession (hi : i < w.mqtt.length) (hl : Locked (w.session i)) :
    Contained i w (w.endSession cfg now i).1 := by
  unfold endSession closeSession
  dsimp only
  split
  · rename_i w1 he
    split at he
    · exact nomatch (Prod.mk.inj he).2
    · rw [if_pos hl.nodeId] at he
      exact nomatch (Prod.mk.inj he).2
  · rename_i w1 he
    split at he
    · obtain ⟨rfl, -⟩ := Prod.mk.inj he
      exact contained_update hi rfl rfl
    · rw [if_pos hl.nodeId] at he
      obtain ⟨rfl, -⟩ := Prod.mk.inj he
      have hclosed : Contained i w ((w.update i markClosed).setGuard
          ((w.update i markClosed).shared.guard.release (w.session i).tcp.peerIp)) :=
        (contained_update hi rfl rfl).trans ⟨⟨rfl, rfl, fun _ _ => rfl⟩, rfl, rfl⟩
      exact hclosed.trans (contained_update (by simpa [setGuard] using hi) rfl rfl)

theorem contained_handleConnect (hi : i < w.mqtt.length) (accessKey data : Bytes) :
    Contained i w (w.update i (handleConnect accessKey data)) := by
  refine contained_update hi ?_ ?_ <;>
  · unfold handleConnect
    split
    · rfl
    · dsimp only
      split <;> rfl

/-- No packet of a session without access reaches anybody, not even the one that gets it access. -/
theorem contained_processPacket (hi : i < w.mqtt.length) (hl : Locked (w.session i)) (now : Int) (data : Bytes) :
    Contained i w (w.processPacket cfg now i data).1 := by
  by_cases hne : data = []
  · rw [hne]
    exact .refl i w
  · have hrec : Contained i w (w.update i (recordPacket data)) := contained_update hi rfl rfl
    have hi' : i < (w.update i (recordPacket data)).mqtt.length := by simpa using hi
    have hl' : Locked ((w.update i (recordPacket data)).session i) := by
      rw [session_update hi]
      exact ⟨hl.1, hl.2, hl.3, hl.4⟩
    refine hrec.trans ?_
    have hcase := processPacket_cases cfg now i w hne
    generalize w.processPacket cfg now i data = x at hcase ⊢
    cases hcase with
    | connect _ => exact contained_handleConnect hi' _ _
    | publish _ =>
      rw [handlePublish, hl'.authenticated]
      exact .refl i _
    | subscribe _ => refine contained_update hi' ?_ ?_ <;> rw [handleSubscribe, hl'.authenticated] <;> rfl
    | pingreq _ => exact contained_update hi' rfl rfl
    | disconnect _ => exact contained_endSession hi' hl'
    | dropped => exact .refl i _

/-- The states that the handlers of session `i` go through in a run of the server. -/
def Passes (cfg : ServerConfig) (i : Nat) (w : World) : Prop :=
  ∃ es now w₀, (machine cfg).Reaches (init cfg) es w₀ ∧ i < w₀.mqtt.length ∧ Trace cfg now i w₀ w

/-- **While a session has not handled a CONNECT with the right password it has no node,
no subscription and no broadcast message, and neither a packet nor any other event of it
changes anything outside it.** -/
theorem no_effect_before_access (cfg : ServerConfig) (hkey : cfg.accessKey ≠ []) {i : Nat} {w : World}
    (hw : Passes cfg i w) (hno : ¬ Granted cfg.accessKey (w.session i)) :
    ((w.session i).nodeId = [] ∧ (w.session i).subscriptions = [] ∧ (w.session i).broadcasts = []) ∧
      (∀ now data, Contained i w (w.processPacket cfg now i data).1) ∧
      ∀ now e w', w.step cfg (.mqtt now i e) = some w' → ¬ Granted cfg.accessKey (w'.session i) →
        Unaffected i w w' := by
  obtain ⟨es, now₀, w₀, hrun, hi, htr⟩ := hw
  have hgates := (gates_preserved hkey).trace hi ((gates_preserved hkey).run (all_init _ cfg) hrun) htr
  replace hi : i < w.mqtt.length := Trace.length htr ▸ hi
  have hl := (hgates.session hi).locked hno
  refine ⟨⟨hl.nodeId, hl.subscriptions, hl.broadcasts⟩, contained_processPacket hi hl, ?_⟩
  intro now e w' hs hno'
  cases step_cases hs with
  | rejected he => rcases he with ⟨_, _, _, he⟩ | ⟨_, _, he⟩ <;> exact nomatch he
  | moved hi ht => exact unaffected_trace hkey hi hgates ht hno'
  | transferred hi _ _ he =>
    subst he
    exact .ofUpdate (fun s => { s with out := s.out.transfer _ _ }) w

/-- A stranger connects and subscribes to everything. -/
private def probing : List World.Event := clientSends [subscribePacket (ascii "#")]

private def probed : World := ((machine keyedListener).exec (init keyedListener) probing).getD (init keyedListener)

/-- The stranger's publish to a topic of its choice goes nowhere. -/
theorem no_effect_of_stranger :
    ((probed.session 0).nodeId = [] ∧ (probed.session 0).subscriptions = [] ∧ (probed.session 0).broadcasts = []) ∧
      Contained 0 probed (probed.processPacket keyedListener 0 0 (Packet.encodePublish (ascii "a") [] 0 0)).1 := by
  have hrun : (machine keyedListener).Reaches (init keyedListener) probing probed :=
    (machine keyedListener).reaches_exec (by decide +kernel)
  obtain ⟨hnone, hpackets, -⟩ := no_effect_before_access keyedListener (by decide) (i := 0) (w := probed)
    ⟨probing, 0, probed, hrun, by decide +kernel, .refl⟩ (by decide +kernel)
  exact ⟨hnone, hpackets 0 _⟩

end LightApr.Server.AccessGate
