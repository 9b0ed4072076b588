import LightApr.Server.FrameLoop
import LightApr.Server.Provenance

/-! The messages that clients send to clients: a session gets those of each fellow client in the order in which it sent
them, each of them once, and none of another listener. -/
namespace LightApr.Server.Relays
open LightApr.Core Lib Mqtt MqttSession World Packet FrameLoop Receiving WebsocketCodec

/-- The messages of other clients that a session has been sent. -/
def appMessages (s : MqttSession) : List (Bytes × Bytes) := s.broadcasts.filter fun m => !isReserved m.1

/-- The message in the packet that session `p.1` was the `p.2`-th to be handed. -/
def published (w : World) (p : Nat × Nat) : Option (Bytes × Bytes) :=
  ((w.session p.1).handled[p.2]?.bind decodePublish).map fun pub => (pub.topic, pub.payload)

/-- The publication is one that a client was free to make. -/
structure Relayed (w : World) (p : Nat × Nat) : Prop where
  authenticated : (w.session p.1).authenticated = true
  message : ∃ m, published w p = some m ∧ isReserved m.1 = false

/-- `sub` are the publications whose messages the session has been sent. -/
structure Heard (w : World) (s : MqttSession) (sub : List (Nat × Nat)) : Prop where
  increasing : sub.Pairwise fun p q => p.1 = q.1 → p.2 < q.2
  relayed : ∀ p ∈ sub, Relayed w p ∧ (w.session p.1).server = s.server
  sent : (appMessages s).map some = sub.map (published w)

/-- Every session has been sent the messages of some such publications. -/
def Hearing (P : List (Nat × Nat) → Prop) (w : World) : Prop := All (fun _ s => ∃ sub, Heard w s sub ∧ P sub) w

abbrev InOrder (w : World) : Prop := Hearing (fun _ => True) w

variable {cfg : ServerConfig} {now : Int} {i j : Nat} {w w' : World} {s s' s'' : MqttSession} {data : Bytes}
  {msgs : List (Nat × Bytes × Bytes)} {shared : Shared} {sub : List (Nat × Nat)} {P Q : List (Nat × Nat) → Prop}
  {p : Nat × Nat}
  {m : Bytes × Bytes}

/-! One delivery. -/

theorem broadcasts_deliver (server : Nat) (topic payload : Bytes) (s : MqttSession) :
    (s.deliver server topic payload).broadcasts =
      s.broadcasts ++ if s.listed ∧ s.server = server ∧ s.matchesTopic topic then [(topic, payload)] else [] := by
  unfold deliver
  split
  · rfl
  · rw [List.append_nil]

/-- A message of the registry is none of a client. -/
theorem appMessages_reserved (h : ∀ m ∈ msgs, isReserved m.2.1 = true) (s : MqttSession) :
    appMessages (deliverAll msgs s) = appMessages s := by
  induction msgs generalizing s with
  | nil => rfl
  | cons m msgs ih =>
    have hone : appMessages (s.deliver m.1 m.2.1 m.2.2) = appMessages s := by
      rw [appMessages, broadcasts_deliver, List.filter_append, appMessages]
      split
      · rw [List.filter_singleton, h m (List.mem_cons_self ..)]
        exact List.append_nil _
      · exact List.append_nil _
    exact (ih (fun m hm => h m (List.mem_cons_of_mem _ hm)) _).trans hone

theorem appMessages_free {server : Nat} (h : isReserved m.1 = false) (s : MqttSession) :
    appMessages (deliverAll [(server, m.1, m.2)] s) =
      appMessages s ++ if s.listed ∧ s.server = server ∧ s.matchesTopic m.1 then [m] else [] := by
  show appMessages (s.deliver server m.1 m.2) = _
  rw [appMessages, broadcasts_deliver, List.filter_append, appMessages]
  split
  · rw [List.filter_singleton, h]
    rfl
  · rfl

theorem reserved_of_registry {r : Registry} {ops : List Registry.Operation} {topic payload : Bytes}
    (h : FromRegistry cfg r ops topic payload) : isReserved topic = true := by
  obtain ⟨node, -, rfl, -⟩ := h
  rw [isReserved, List.isPrefixOf_iff_prefix]
  exact List.prefix_append _ _

/-! What a session keeps in every step. -/

/-- The listener, the access that was granted, and the packets that were handed over. -/
structure Keeps (s s' : MqttSession) : Prop where
  server : s'.server = s.server
  authenticated : s.authenticated = true → s'.authenticated = true
  handled : s.handled <+: s'.handled

theorem Keeps.refl (s : MqttSession) : Keeps s s := ⟨rfl, id, List.prefix_rfl⟩

theorem Keeps.trans (h : Keeps s s') (h' : Keeps s' s'') : Keeps s s'' :=
  ⟨h'.server.trans h.server, h'.authenticated ∘ h.authenticated, h.handled.trans h'.handled⟩

theorem keeps_deliverAll (msgs : List (Nat × Bytes × Bytes)) (s : MqttSession) : Keeps s (deliverAll msgs s) := by
  obtain ⟨_, _, _, h⟩ := deliverAll_same msgs s
  rw [h]
  exact ⟨rfl, id, List.prefix_rfl⟩

/-- A step in which the session is sent nothing by a client. -/
structure Hears (s s' : MqttSession) : Prop where
  keeps : Keeps s s'
  messages : appMessages s' = appMessages s

theorem Hears.refl (s : MqttSession) : Hears s s := ⟨.refl s, rfl⟩

theorem Hears.trans (h : Hears s s') (h' : Hears s' s'') : Hears s s'' :=
  ⟨h.keeps.trans h'.keeps, h'.messages.trans h.messages⟩

theorem hears_same (hserver : s'.server = s.server) (hauth : s'.authenticated = s.authenticated)
    (hhandled : s'.handled = s.handled) (hsent : s'.broadcasts = s.broadcasts) : Hears s s' :=
  ⟨⟨hserver, fun h => hauth.trans h, hhandled ▸ List.prefix_rfl⟩, by rw [appMessages, hsent, appMessages]⟩

theorem hears_own (h : Own cfg s s') : Hears s s' := by
  cases h with
  | authenticate => exact ⟨⟨rfl, fun _ => rfl, List.prefix_rfl⟩, rfl⟩
  | write | startClosing | identify | subscribe | unlist => exact hears_same rfl rfl rfl rfl

theorem hears_owns (h : Owns cfg s s') : Hears s s' := by
  induction h with
  | refl => exact .refl _
  | tail _ h ih => exact ih.trans (hears_own h)

/-- Every session is still there and keeps what it had. -/
structure Remembers (w w' : World) : Prop where
  keeps : ∀ (j : Nat) (s : MqttSession), w.mqtt[j]? = some s → ∃ s', w'.mqtt[j]? = some s' ∧ Keeps s s'

theorem Remembers.session (h : Remembers w w') (hj : j < w.mqtt.length) : Keeps (w.session j) (w'.session j) := by
  obtain ⟨s', hs', hk⟩ := h.keeps j _ (session_eq hj)
  rwa [(session_of_get hs').1]

theorem present_of_published (h : published w p = some m) : p.1 < w.mqtt.length := by
  by_contra hout
  have hnone : w.mqtt[p.1]? = none := List.getElem?_eq_none (Nat.le_of_not_lt hout)
  rw [published, session, List.getD_eq_getElem?_getD, hnone] at h
  cases h

theorem Remembers.published (h : Remembers w w') (hp : published w p = some m) : published w' p = some m := by
  obtain ⟨more, hmore⟩ := (h.session (present_of_published hp)).handled
  obtain ⟨pub, hpub, rfl⟩ := Option.map_eq_some_iff.mp hp
  obtain ⟨data, hdata, hdecode⟩ := Option.bind_eq_some_iff.mp hpub
  have hlt : p.2 < (w.session p.1).handled.length := (List.getElem?_eq_some_iff.mp hdata).1
  rw [Relays.published, ← hmore, List.getElem?_append_left hlt, hdata, Option.bind_some, hdecode]
  rfl

theorem Remembers.relayed (h : Remembers w w') (hp : Relayed w p) : Relayed w' p := by
  obtain ⟨m, hm, hfree⟩ := hp.message
  exact ⟨(h.session (present_of_published hm)).authenticated hp.authenticated, m, h.published hm, hfree⟩

theorem Hearing.mono (h : Hearing P w) (hpq : ∀ s sub, Heard w s sub → P sub → Q sub) : Hearing Q w := by
  intro j s hs
  obtain ⟨sub, hheard, hp⟩ := h j s hs
  exact ⟨sub, hheard, hpq s sub hheard hp⟩

theorem Hearing.inOrder (h : Hearing P w) : InOrder w := h.mono fun _ _ _ _ => trivial

theorem Heard.published (h : Heard w s sub) (hr : Remembers w w') : sub.map (published w') = sub.map (published w) := by
  refine List.map_congr_left fun p hp => ?_
  obtain ⟨m, hm, -⟩ := (h.relayed p hp).1.message
  rw [hm, hr.published hm]

theorem Heard.relayed_later (h : Heard w s sub) (hr : Remembers w w') (hserver : s'.server = s.server) :
    ∀ p ∈ sub, Relayed w' p ∧ (w'.session p.1).server = s'.server := by
  intro p hp
  obtain ⟨hrelayed, hsame⟩ := h.relayed p hp
  obtain ⟨m, hm, -⟩ := hrelayed.message
  exact ⟨hr.relayed hrelayed, (hr.session (present_of_published hm)).server.trans (hsame.trans hserver.symm)⟩

/-- A step in which no client's message is passed on. -/
structure Quiet (w w' : World) : Prop where
  old : ∀ (j : Nat) (s : MqttSession), w.mqtt[j]? = some s → ∃ s', w'.mqtt[j]? = some s' ∧ Hears s s'
  new : ∀ (j : Nat) (s' : MqttSession), w'.mqtt[j]? = some s' → w.mqtt[j]? = none → appMessages s' = []

theorem Quiet.remembers (h : Quiet w w') : Remembers w w' := by
  refine ⟨fun j s hs => ?_⟩
  obtain ⟨s', hs', hh⟩ := h.old j s hs
  exact ⟨s', hs', hh.keeps⟩

theorem Hearing.quiet (h : Hearing P w) (hnil : P []) (hq : Quiet w w') : Hearing P w' := by
  intro j s' hs'
  cases hold : w.mqtt[j]? with
  | none =>
    refine ⟨[], ⟨List.Pairwise.nil, fun p hp => absurd hp List.not_mem_nil, ?_⟩, hnil⟩
    rw [hq.new j s' hs' hold, List.map_nil, List.map_nil]
  | some s =>
    obtain ⟨t, ht, hh⟩ := hq.old j s hold
    obtain rfl := Option.some.inj (hs'.symm.trans ht)
    obtain ⟨sub, hheard, hp⟩ := h j s hold
    refine ⟨sub, ⟨hheard.increasing, hheard.relayed_later hq.remembers hh.keeps.server, ?_⟩, hp⟩
    rw [hh.messages, hheard.sent, hheard.published hq.remembers]

theorem InOrder.quiet (h : InOrder w) (hq : Quiet w w') : InOrder w' := Hearing.quiet h trivial hq

/-- Session `i` becomes `s`, and the registry announces a node. -/
theorem quiet_delivered (hm : w'.mqtt = (w.mqtt.set i s).map (deliverAll msgs)) (hs : Hears (w.session i) s)
    (hall : ∀ m ∈ msgs, isReserved m.2.1 = true) : Quiet w w' := by
  have hdeliver (t : MqttSession) : Hears t (deliverAll msgs t) :=
    ⟨keeps_deliverAll msgs t, appMessages_reserved hall t⟩
  refine ⟨fun j t ht => ?_, fun j t ht hnone => ?_⟩
  · rw [hm, List.getElem?_map]
    obtain ⟨rfl, rfl, hset⟩ | ⟨-, hset⟩ := get_set_session i s ht
    · exact ⟨_, by rw [hset, Option.map_some], hs.trans (hdeliver s)⟩
    · exact ⟨_, by rw [hset, Option.map_some], hdeliver t⟩
  · have hlt : j < w'.mqtt.length := (List.getElem?_eq_some_iff.mp ht).1
    rw [hm, List.length_map, List.length_set] at hlt
    cases hnone.symm.trans (session_eq hlt)

theorem quiet_effect (h : Effect w w' i s [] shared) (hs : Hears (w.session i) s) : Quiet w w' :=
  quiet_delivered h.mqtt hs fun _ hm => absurd hm List.not_mem_nil

theorem quiet_update {f : MqttSession → MqttSession} (h : Hears (w.session i) (f (w.session i))) :
    Quiet w (w.update i f) := quiet_effect (.ofUpdate f) h

theorem quiet_registry (op : Registry.Operation)
    (hm : w'.mqtt = (w.mqtt.set i s).map (deliverAll (eventMessages cfg (op.run cfg.registry w.shared.registry))))
    (hs : Hears (w.session i) s) : Quiet w w' :=
  quiet_delivered hm hs fun _ hmem => reserved_of_registry (fromRegistry_of_mem op hmem)

theorem quiet_same (h : w'.mqtt = w.mqtt) : Quiet w w' := by
  refine ⟨fun j s hs => ⟨s, h ▸ hs, .refl s⟩, fun j s hs hnone => ?_⟩
  rw [h, hnone] at hs
  cases hs

theorem Quiet.trans {w'' : World} (h : Quiet w w') (h' : Quiet w' w'') : Quiet w w'' := by
  refine ⟨fun j s hs => ?_, fun j s hs hnone => ?_⟩
  · obtain ⟨t, ht, hh⟩ := h.old j s hs
    obtain ⟨u, hu, hh'⟩ := h'.old j t ht
    exact ⟨u, hu, hh.trans hh'⟩
  · cases ht : w'.mqtt[j]? with
    | none => exact h'.new j s hs ht
    | some t =>
      obtain ⟨u, hu, hh⟩ := h'.old j t ht
      obtain rfl := Option.some.inj (hs.symm.trans hu)
      exact hh.messages.trans (h.new j t ht hnone)

/-! Handlers. -/

theorem quiet_closeSession (cfg : ServerConfig) (now : Int) (i : Nat) (w : World) :
    Quiet w (w.closeSession cfg now i).1 := by
  have hclosed : Hears (w.session i) (w.session i).markClosed := hears_same rfl rfl rfl rfl
  rcases closeSession_effect cfg now i w with ⟨-, he⟩ | ⟨-, _, _, ⟨-, -, rfl⟩ | ⟨-, -, rfl⟩, he⟩
  · exact quiet_same (congrArg World.mqtt he)
  · exact quiet_effect he hclosed
  · exact quiet_registry (.markNodeGrace now (w.session i).nodeId) he.mqtt hclosed

theorem quiet_endSession (cfg : ServerConfig) (now : Int) (i : Nat) (w : World) :
    Quiet w (w.endSession cfg now i).1 := by
  have hclose := quiet_closeSession cfg now i w
  rcases endSession_cases cfg now i w with he | he
  · rwa [he]
  · rw [he]
    exact hclose.trans (quiet_update (hears_same rfl rfl rfl rfl))

/-- The last packet of session `i` is `data`, and nothing of it has been passed on. -/
structure Unheard (i : Nat) (data : Bytes) (w : World) : Prop where
  before : Hearing (fun sub => ∀ p ∈ sub, p.1 = i → p.2 + 1 < (w.session i).handled.length) w
  last : (w.session i).handled.getLast? = some data

theorem unheard_record (h : InOrder w) (hi : i < w.mqtt.length) (data : Bytes) :
    Unheard i data (w.update i (recordPacket data)) := by
  have hs := session_update hi (recordPacket data)
  have hq : Quiet w (w.update i (recordPacket data)) :=
    quiet_update ⟨⟨rfl, id, List.prefix_append _ _⟩, rfl⟩
  have hbefore : Hearing (fun sub => ∀ p ∈ sub, p.1 = i → p.2 < (w.session i).handled.length) w := by
    refine h.mono fun s sub hheard _ p hp hpi => ?_
    obtain ⟨m, hm, -⟩ := (hheard.relayed p hp).1.message
    obtain ⟨pub, hpub, -⟩ := Option.map_eq_some_iff.mp hm
    obtain ⟨_, hdata, -⟩ := Option.bind_eq_some_iff.mp hpub
    rw [hpi] at hdata
    exact (List.getElem?_eq_some_iff.mp hdata).1
  have hlen : ((w.update i (recordPacket data)).session i).handled.length = (w.session i).handled.length + 1 := by
    rw [hs, recordPacket, List.length_append, List.length_singleton]
  refine ⟨(hbefore.quiet (fun p hp => absurd hp List.not_mem_nil) hq).mono fun _ sub _ hlt p hp hpi => ?_, ?_⟩
  · rw [hlen]
    exact Nat.succ_lt_succ (hlt p hp hpi)
  · rw [hs, recordPacket, List.getLast?_concat]

/-- An update of the session that neither hears nor handles anything. -/
theorem Unheard.update (h : Unheard i data w) (hi : i < w.mqtt.length) {f : MqttSession → MqttSession}
    (hs : Hears (w.session i) (f (w.session i))) (hhandled : (f (w.session i)).handled = (w.session i).handled) :
    Unheard i data (w.update i f) := by
  have heq : ((w.update i f).session i).handled = (w.session i).handled := by rw [session_update hi, hhandled]
  refine ⟨?_, heq ▸ h.last⟩
  rw [heq]
  exact h.before.quiet (fun p hp => absurd hp List.not_mem_nil) (quiet_update hs)

/-- The publication that is passed on is the next of its client. -/
theorem Unheard.relay (h : Unheard i data w) (hi : i < w.mqtt.length) (ha : (w.session i).authenticated = true)
    {pub : MqttPublish} (hpub : decodePublish data = some pub) (hfree : isReserved pub.topic = false) :
    InOrder (w.broadcast (w.session i).server pub.topic pub.payload) := by
  obtain ⟨k, hk⟩ : ∃ k, k + 1 = (w.session i).handled.length := by
    cases hl : (w.session i).handled with
    | nil => cases (hl ▸ h.last : ([] : List Bytes).getLast? = some data)
    | cons _ rest => exact ⟨rest.length, rfl⟩
  have hthis : Relays.published w (i, k) = some (pub.topic, pub.payload) := by
    have hlast := h.last
    rw [List.getLast?_eq_getElem?, ← hk, Nat.add_sub_cancel] at hlast
    rw [Relays.published, hlast, Option.bind_some, hpub]
    rfl
  have hr : Remembers w (w.broadcast (w.session i).server pub.topic pub.payload) := by
    refine ⟨fun j s hs => ⟨_, ?_, keeps_deliverAll [((w.session i).server, pub.topic, pub.payload)] s⟩⟩
    show (w.mqtt.map _)[j]? = _
    rw [List.getElem?_map, hs]
    rfl
  intro j t ht
  have ht : (w.mqtt.map _)[j]? = some t := ht
  rw [List.getElem?_map] at ht
  obtain ⟨s, hs, rfl⟩ := Option.map_eq_some_iff.mp ht
  obtain ⟨sub, hheard, hbefore⟩ := h.before j s hs
  have hserver : (s.deliver (w.session i).server pub.topic pub.payload).server = s.server :=
    (keeps_deliverAll [((w.session i).server, pub.topic, pub.payload)] s).server
  have hmore : appMessages (s.deliver (w.session i).server pub.topic pub.payload) = appMessages s ++ _ :=
    appMessages_free (m := (pub.topic, pub.payload)) hfree s
  have hlater := hheard.relayed_later hr hserver
  by_cases hc : s.listed = true ∧ s.server = (w.session i).server ∧ s.matchesTopic pub.topic = true
  · rw [if_pos hc] at hmore
    refine ⟨sub ++ [(i, k)], ⟨?_, fun p hp => ?_, ?_⟩, trivial⟩
    · refine List.pairwise_append.mpr ⟨hheard.increasing, List.pairwise_singleton _ _, fun p hp q hq he => ?_⟩
      obtain rfl := List.mem_singleton.mp hq
      have hlt := hbefore p hp he
      show p.2 < k
      omega
    · rcases List.mem_append.mp hp with hp | hp
      · exact hlater p hp
      · obtain rfl := List.mem_singleton.mp hp
        exact ⟨hr.relayed ⟨ha, _, hthis, hfree⟩, (hr.session hi).server.trans (hc.2.1.symm.trans hserver.symm)⟩
    · rw [hmore, List.map_append, List.map_append, hheard.sent, hheard.published hr, List.map_singleton,
        List.map_singleton, hr.published hthis]
  · rw [if_neg hc, List.append_nil] at hmore
    exact ⟨sub, ⟨hheard.increasing, hlater, by rw [hmore, hheard.sent, hheard.published hr]⟩, trivial⟩

theorem Unheard.handlePublish (cfg : ServerConfig) (now : Int) (h : Unheard i data w) (hi : i < w.mqtt.length)
    (hs : (w.session i).wsHandshakeDone = true) : InOrder (w.handlePublish cfg now i data) := by
  unfold World.handlePublish
  dsimp only
  split
  · exact h.before.inOrder
  · rename_i ha
    split
    · exact h.before.inOrder
    · rename_i pub hpub
      have hack : Hears (w.session i) ((w.session i).acknowledge pub) := 
        hears_owns (owns_acknowledge hs pub : Owns cfg _ _)
      have hhandled : ((w.session i).acknowledge pub).handled = (w.session i).handled := by
        unfold acknowledge
        split <;> rfl
      have hnext := h.update hi hack hhandled
      have hi' : i < (w.update i (acknowledge pub)).mqtt.length := by simpa using hi
      obtain ⟨hserver, hauth⟩ : ((w.update i (acknowledge pub)).session i).server = (w.session i).server ∧
          ((w.update i (acknowledge pub)).session i).authenticated = true := by
        rw [session_update hi]
        exact ⟨hack.keeps.server, hack.keeps.authenticated (by simpa using ha)⟩
      split
      · split
        · exact hnext.before.inOrder
        · rename_i entry _
          obtain ⟨nodeId, -, he⟩ := publishMeta_effect cfg now entry hi'
          exact hnext.before.inOrder.quiet
            (quiet_registry (.registerOrUpdateNode now entry.role entry.workers entry.endpoint
            _ _ entry.extra) he.mqtt (hears_same rfl rfl rfl rfl))
      · split
        · split
          · exact hnext.before.inOrder
          · split
            · exact hnext.before.inOrder
            · rename_i worker extra _
              have he := publishExtra_effect cfg now i worker extra (w.update i (acknowledge pub))
              exact hnext.before.inOrder.quiet (quiet_registry (.updateNodeExtra now _ worker extra) he.mqtt (.refl _))
        · split
          · exact hnext.before.inOrder
          · rename_i hfree
            have hrelay := hnext.relay hi' hauth hpub (by simpa using hfree)
            rwa [hserver] at hrelay

theorem InOrder.processPacket (cfg : ServerConfig) (now : Int) (h : InOrder w) (hi : i < w.mqtt.length)
    (hs : (w.session i).wsHandshakeDone = true) (data : Bytes) : InOrder (w.processPacket cfg now i data).1 := by
  by_cases hne : data = []
  · subst hne
    exact h
  · have hnext := unheard_record h hi data
    have hi' : i < (w.update i (recordPacket data)).mqtt.length := by simpa using hi
    have heq := session_update hi (recordPacket data)
    have hs' : ((w.update i (recordPacket data)).session i).wsHandshakeDone = true := heq ▸ hs
    have hdata : data ∈ ((w.update i (recordPacket data)).session i).handled := List.mem_of_getLast? hnext.last
    have hcase := processPacket_cases cfg now i w hne
    generalize w.processPacket cfg now i data = x at hcase ⊢
    cases hcase with
    | connect ht =>
      exact hnext.before.inOrder.quiet
        (quiet_update (hears_owns (owns_handleConnect hs' hdata ht : Owns cfg _ _)))
    | publish _ => exact hnext.handlePublish cfg now hi' hs'
    | subscribe _ =>
      exact hnext.before.inOrder.quiet
        (quiet_update (hears_owns (owns_handleSubscribe hs' _ : Owns cfg _ _)))
    | pingreq _ =>
      exact hnext.before.inOrder.quiet
        (quiet_update (hears_owns (owns_sendRaw hs' .pingresp : Owns cfg _ _)))
    | disconnect _ => exact hnext.before.inOrder.quiet (quiet_endSession cfg now i _)
    | dropped => exact hnext.before.inOrder

/-! The receive path. -/

/-- What holds in the loop over the frames. -/
structure Looping (i : Nat) (w : World) : Prop where
  present : i < w.mqtt.length
  onWebsocket : OnWebsocket (w.session i)
  inOrder : InOrder w

theorem Looping.update (h : Looping i w) {f : MqttSession → MqttSession} (hh : Hears (w.session i) (f (w.session i)))
    (hon : OnWebsocket (f (w.session i))) : Looping i (w.update i f) := by
  refine ⟨by simpa using h.present, ?_, h.inOrder.quiet (quiet_update hh)⟩
  rw [session_update h.present]
  exact hon

theorem Looping.consuming (h : Looping i w) (n : Nat) : Looping i (w.update i (FrameLoop.consuming n)) :=
  h.update (hears_same rfl rfl rfl rfl) ⟨h.onWebsocket.settled, h.onWebsocket.websocket⟩

theorem looping_round (cfg : ServerConfig) (now : Int) (i : Nat) :
    Round cfg now i (fun _ _ => Looping i) fun _ => InOrder where
  halts h _ := h.inOrder
  packet {_ _ w w' frame n flow} h _ _ hp := by
    have hnext := h.consuming n
    have hlen := Trace.length (trace_processPacket cfg now hnext.present hnext.onWebsocket.settled frame.payload)
    have hon := onWebsocket_processPacket cfg now hnext.present hnext.onWebsocket frame.payload
    have hin := hnext.inOrder.processPacket cfg now hnext.present hnext.onWebsocket.settled frame.payload
    rw [hp] at hlen hon hin
    exact ⟨fun _ => hin, fun _ => ⟨hlen ▸ hnext.present, hon, hin⟩⟩
  close h _ _ := (h.consuming _).inOrder.quiet (quiet_endSession cfg now i _)
  ping {_ _ _ _ n} h _ _ := by
    have hnext := h.consuming n
    exact hnext.update (hears_same rfl rfl rfl rfl) ⟨hnext.onWebsocket.settled, hnext.onWebsocket.websocket⟩
  skip h _ _ _ _ := h.consuming _

theorem quiet_continueReading (w : World) (i : Nat) : Quiet w (w.continueReading i) := by
  unfold continueReading
  split
  · exact quiet_same rfl
  · exact quiet_update (hears_same rfl rfl rfl rfl)

theorem Looping.processFrames (cfg : ServerConfig) (now : Int) (h : Looping i w) :
    InOrder (w.processFrames cfg now i).1 := by
  have hloop : InOrder (w.frameLoop cfg now i (w.session i).rxAcc.size).1 :=
    @Round.loop cfg now i w _ _ (looping_round cfg now i) [] _ h
  rcases processFrames_cases cfg now i w with he | he
  · rwa [he]
  · rw [he]
    exact hloop.quiet ((quiet_update (hears_same rfl rfl rfl rfl)).trans (quiet_continueReading _ i))

theorem InOrder.packetThen (cfg : ServerConfig) (now : Int) (h : InOrder w) (hi : i < w.mqtt.length)
    (hs : (w.session i).wsHandshakeDone = true) (data : Bytes) {after : MqttSession → MqttSession}
    (hafter : ∀ t, Hears t (after t)) : InOrder (FrameLoop.packetThen cfg now i data after w) := by
  have hp := h.processPacket cfg now hi hs data
  unfold FrameLoop.packetThen
  split
  · rename_i he
    rwa [he] at hp
  · rename_i he
    rw [he] at hp
    exact hp.quiet ((quiet_update (hafter _)).trans (quiet_continueReading _ i))

theorem InOrder.onBytesRead (cfg : ServerConfig) (now : Int) (h : InOrder w) (hi : i < w.mqtt.length) (data : Bytes) :
    InOrder (w.onBytesRead cfg now i data).1 := by
  have hbuffering : Quiet w (w.update i (buffering data)) := quiet_update (hears_same rfl rfl rfl rfl)
  have hi₁ : i < (w.update i (buffering data)).mqtt.length := by simpa using hi
  have hs₁ := session_update hi (buffering data)
  have hcase := onBytesRead_cases cfg now hi data
  generalize readFrames cfg now i data w = frames, (w.onBytesRead cfg now i data).1 = w' at hcase ⊢
  cases hcase with
  | ended _ => exact h.quiet (hbuffering.trans (quiet_endSession cfg now i _))
  | waiting _ => exact h.quiet (hbuffering.trans (quiet_update (hears_same rfl rfl rfl rfl)))
  | @upgraded headerEnd key _ _ _ _ _ _ =>
    have hupgrade : Quiet (w.update i (buffering data))
      ((w.update i (buffering data)).update i (acceptHandshake headerEnd key)) :=
      quiet_update (hears_same rfl rfl rfl rfl)
    refine Looping.processFrames cfg now ⟨by simpa using hi, ?_, h.quiet (hbuffering.trans hupgrade)⟩
    rw [session_update hi₁]
    exact ⟨rfl, rfl⟩
  | first _ _ _ =>
    have hsettle : Quiet (w.update i (buffering data)) ((w.update i (buffering data)).update i settlePlain) :=
      quiet_update (hears_same rfl rfl rfl rfl)
    refine (h.quiet (hbuffering.trans hsettle)).packetThen cfg now (by simpa using hi) ?_ _
      fun t => hears_same rfl rfl rfl rfl
    rw [session_update hi₁]
    rfl
  | frames ho _ => exact Looping.processFrames cfg now ⟨hi₁, hs₁ ▸ ⟨ho.settled, ho.websocket⟩, h.quiet hbuffering⟩
  | packet hd _ =>
    have hrecord : Quiet w (w.update i (recordRead data)) := quiet_update (hears_same rfl rfl rfl rfl)
    refine (h.quiet hrecord).packetThen cfg now (by simpa using hi) ?_ _ .refl
    rw [session_update hi]
    exact hd

theorem quiet_onWritten (cfg : ServerConfig) (now : Int) (i : Nat) (ok : Bool) (kind : WriteKind) (w : World) :
    Quiet w (w.onWritten cfg now i ok kind).1 := by
  unfold onWritten
  split
  · split
    · exact quiet_same rfl
    · exact quiet_endSession cfg now i w
  · exact quiet_endSession cfg now i w
  · exact quiet_same rfl

/-! Runs. -/

theorem InOrder.onMqtt {e : MqttEvent} (h : InOrder w) (hi : i < w.mqtt.length)
    (he : w.onMqtt cfg now i (w.session i) e = some w') : InOrder w' := by
  cases onMqtt_cases he with
  | @read data =>
    exact (h.quiet (quiet_update (hears_same rfl rfl rfl rfl))).onBytesRead cfg now
      (by simpa using hi) data
  | readFailed | idleExpired =>
    exact h.quiet ((quiet_update (hears_same rfl rfl rfl rfl)).trans (quiet_endSession cfg now i _))
  | waitCanceled | transferred => exact h.quiet (quiet_update (hears_same rfl rfl rfl rfl))
  | @written k ok kind =>
    exact h.quiet ((quiet_update (hears_same rfl rfl rfl rfl)).trans (quiet_onWritten cfg now i ok kind _))

theorem quiet_sweep (h : Sweep cfg w w') : Quiet w w' := by
  induction h with
  | none => exact quiet_same rfl
  | @remove w w₁ w₂ id ha _ ih =>
    have hm := ha.mqtt
    rw [← set_session_self w 0] at hm
    exact (quiet_registry (.removeNodePermanently id) hm (.refl _)).trans ih

theorem InOrder.step {e : World.Event} (h : InOrder w) (hs : w.step cfg e = some w') : InOrder w' := by
  have hcase := step_cases hs
  cases hcase with
  | rejected _ _ hw | acceptedHttp _ hw | http _ _ hw | destroyedHttp _ _ hw => exact h.quiet (quiet_same (hw ▸ rfl))
  | acceptedMqtt _ hw =>
    refine h.quiet ⟨fun j s hj => ⟨s, ?_, .refl s⟩, fun j s hj hnone => ?_⟩
    · rw [hw]
      exact (List.getElem?_append_left (session_of_get hj).2).trans hj
    · rw [hw] at hj
      rcases getElem?_snoc hj with hold | ⟨-, rfl⟩
      · cases hnone.symm.trans hold
      · rfl
  | @moved now i e hi _ =>
    rw [World.step, session_eq hi] at hs
    exact h.onMqtt hi hs
  | transferred hi _ _ hw =>
    subst hw
    exact h.quiet (quiet_update (f := fun s => { s with out := s.out.transfer _ _ }) (hears_same rfl rfl rfl rfl))
  | destroyedMqtt hi hw₁ hw =>
    subst hw₁ hw
    exact h.quiet ((quiet_closeSession cfg _ _ w).trans (quiet_update (hears_same rfl rfl rfl rfl)))
  | swept hsw => exact h.quiet (quiet_sweep hsw)

theorem inOrder_run {es : List World.Event} (h : (machine cfg).Reaches (init cfg) es w) : InOrder w :=
  h.invariant InOrder (all_init _ cfg) fun _ _ _ hm _ hs => hm.step hs

/-- **In every run what a session has been sent of its fellow clients are the messages of some of their publications,
none twice and those of one client in the order in which it made them, each made by a client with access that came in
through the same listener, outside the topics of the registry.** -/
theorem clients_messages_ordered (cfg : ServerConfig) {es : List World.Event}
    (hrun : (machine cfg).Reaches (init cfg) es w) (hs : w.mqtt[i]? = some s) : ∃ sub : List (Nat × Nat),
      sub.Nodup ∧ (sub.Pairwise fun p q => p.1 = q.1 → p.2 < q.2) ∧
        (∀ p ∈ sub, Relayed w p ∧ (w.session p.1).server = s.server) ∧
        (appMessages s).map some = sub.map (published w) := by
  obtain ⟨sub, h, -⟩ := inOrder_run hrun i s hs
  refine ⟨sub, h.increasing.imp fun {p q} hpq heq => ?_, h.increasing, h.relayed, h.sent⟩
  subst heq
  exact absurd (hpq rfl) (Nat.lt_irrefl _)

/-- Two clients that see everything, and one message of each. -/
private def chat : List World.Event :=
  [.acceptMqtt 0 0 none false, .mqtt 0 0 (.read connectPacket), .acceptMqtt 0 0 none false,
    .mqtt 0 0 (.read (subscribePacket (ascii "#"))), .mqtt 0 1 (.read connectPacket), .mqtt 0 1 (.read (subscribePacket (ascii "#"))),
    .mqtt 0 1 (.read (encodePublish (ascii "a") (ascii "x") 0 0)),
    .mqtt 0 0 (.read (encodePublish (ascii "b") (ascii "y") 0 0))]

private def chatted : World := ((machine oneListener).exec (init oneListener) chat).getD (init oneListener)

/-- The first has been sent both messages, its own and the other's. -/
theorem chat_ordered : appMessages (chatted.session 0) = [(ascii "a", ascii "x"), (ascii "b", ascii "y")] ∧
    ∃ sub : List (Nat × Nat), sub.Nodup ∧ (∀ p ∈ sub, Relayed chatted p) ∧
      (appMessages (chatted.session 0)).map some = sub.map (published chatted) := by
  have hrun : (machine oneListener).Reaches (init oneListener) chat chatted :=
    (machine oneListener).reaches_exec (by decide +kernel)
  have hpresent : 0 < chatted.mqtt.length := by decide +kernel
  obtain ⟨sub, hnodup, -, hrelayed, hsent⟩ := clients_messages_ordered oneListener hrun (session_eq hpresent)
  exact ⟨by decide +kernel, sub, hnodup, fun p hp => (hrelayed p hp).1, hsent⟩

end LightApr.Server.Relays
