import LightApr.Server.Trail
import LightApr.Server.Wire

/-! Where the PUBLISH packets of the listeners come from: an event of the registry, or a
client whose topic lies outside the reserved name space. -/
namespace LightApr.Server.Provenance
open LightApr.Core Lib Mqtt MqttSession World Registry WebsocketCodec Packet

def IsPublish (packet : Bytes) : Prop := packet.headD 0 &&& 0xF0 = publish

/-- The topic field of an encoded PUBLISH: behind the fixed header, as long as its 16-bit
length says. -/
def topicField (packet : Bytes) : Bytes :=
  let body := ((packet.drop 1).dropWhile (0x80 ≤ ·)).drop 1
  (body.drop 2).take ((body.getD 0 0).toNat * 256 + (body.getD 1 0).toNat)

/-- An authenticated session has received the message outside the reserved name space. -/
def FromClient (w : World) (topic payload : Bytes) : Prop :=
  ∃ (j : Nat) (s : MqttSession), w.mqtt[j]? = some s ∧ s.authenticated = true ∧
    ∃ data ∈ s.handled, ∃ pub, decodePublish data = some pub ∧ isReserved pub.topic = false ∧
      topic = pub.topic ∧ payload = pub.payload

/-! The topic field of what the broker encodes. -/

theorem dropWhile_encodeRemainingLength (n : Nat) (t : Bytes) :
    ((encodeRemainingLength n ++ t).dropWhile (0x80 ≤ ·)).drop 1 = t := by
  obtain ⟨front, last, he, hfront, hlast⟩ := encodeRemainingLength_split n
  rw [he, List.append_assoc, List.dropWhile_append_of_pos (by simpa using hfront), List.singleton_append,
    List.dropWhile_cons_of_neg (by simpa using hlast)]
  rfl

/-- The field keeps what the low 16 bits of the length say. -/
theorem topicField_encodePublish (topic payload : Bytes) :
    topicField (encodePublish topic payload 0 0) = (topic ++ payload).take (topic.length % 65536) := by
  have hbody : publishBody topic payload 0 0 = u16 (topic.length % 65536) ++ (topic ++ payload) := by
    simp [publishBody, writeString]
  have hvalue := u16_value (topic.length % 65536) (Nat.mod_lt _ (by decide))
  rw [encodePublish_qos0, topicField, List.drop_succ_cons, List.drop_zero, dropWhile_encodeRemainingLength, hbody]
  exact congrArg (fun n => (topic ++ payload).take n) hvalue

theorem isPublish_encodePublish (topic payload : Bytes) : IsPublish (encodePublish topic payload 0 0) := by
  rw [encodePublish_qos0, IsPublish, List.headD_cons]
  decide

theorem not_isPublish_of_isAnswer {packet : Bytes} (h : IsAnswer packet) : ¬ IsPublish packet := by
  have hhead : packet.headD 0 = connack ∨ packet.headD 0 = puback ∨ packet.headD 0 = suback ∨
      packet.headD 0 = pingresp := by
    cases h with
    | connack => exact .inl rfl
    | puback => exact .inr (.inl rfl)
    | suback => exact .inr (.inr (.inl rfl))
    | pingresp => exact .inr (.inr (.inr rfl))
  unfold IsPublish
  rcases hhead with h | h | h | h
  · rw [h]; decide
  · rw [h]; decide
  · rw [h]; decide
  · rw [h]; decide

/-! A frame stands for one packet. -/

theorem frameHeader_cases (n : Nat) :
    ((frameHeader n).length = 1 ∧ (frameHeader n).headD 0 ≠ 126 ∧ (frameHeader n).headD 0 ≠ 127) ∨
      ((frameHeader n).length = 3 ∧ (frameHeader n).headD 0 = 126) ∨
      ((frameHeader n).length = 9 ∧ (frameHeader n).headD 0 = 127) := by
  unfold frameHeader
  split
  · rename_i h
    have hsmall : ∀ m ≤ 125, UInt8.ofNat m ≠ 126 ∧ UInt8.ofNat m ≠ 127 := by decide +kernel
    exact .inl ⟨rfl, hsmall n h⟩
  · split
    · exact .inr (.inl ⟨rfl, rfl⟩)
    · exact .inr (.inr ⟨rfl, rfl⟩)

theorem encodeFrame_inj {p q : Bytes} {op op' : UInt8} (h : encodeFrame p op = encodeFrame q op') : p = q := by
  rw [encodeFrame_eq, encodeFrame_eq] at h
  have htail := (List.cons.inj h).2
  have hhead : (frameHeader p.length).headD 0 = (frameHeader q.length).headD 0 := by
    have hne (n : Nat) (t : Bytes) : (frameHeader n ++ t).headD 0 = (frameHeader n).headD 0 := by
      cases hn : frameHeader n with
      | nil =>
        have := frameHeader_cases n
        simp [hn] at this
      | cons => rfl
    have := congrArg (fun l => l.headD 0) htail
    simpa only [hne] using this
  have hlen : (frameHeader p.length).length = (frameHeader q.length).length := by
    rcases frameHeader_cases p.length with ⟨hp, hp'⟩ | ⟨hp, hp'⟩ | ⟨hp, hp'⟩ <;>
      rcases frameHeader_cases q.length with ⟨hq, hq'⟩ | ⟨hq, hq'⟩ | ⟨hq, hq'⟩ <;> simp_all
  exact (List.append_inj htail hlen).2

/-- What a session sends of itself, if it is framed like a packet, is an answer. -/
theorem isAnswer_of_framed {s : MqttSession} {packet : Bytes} (h : IsReply s.isWebsocket (s.framed packet)) :
    IsAnswer packet := by
  unfold framed at h
  cases hws : s.isWebsocket with
  | false =>
    simp only [hws, Bool.false_eq_true, if_false] at h
    cases h with
    | packet h => exact h
  | true =>
    simp only [hws, if_true] at h
    generalize hb : encodeFrame packet 0x02 = buf at h
    cases h with
    | frame h => exact encodeFrame_inj hb ▸ h
    | pong payload =>
      have := (List.cons.inj hb).1
      exact absurd this (by decide)
    | handshake acceptKey =>
      have hhead := congrArg (fun l : Bytes => l.headD 0) hb
      have : (0x80 ||| ((0x02 : UInt8) &&& 0x0F)) = 72 := hhead
      exact absurd this (by decide)

theorem framed_inj (s : MqttSession) {p q : Bytes} (h : s.framed p = s.framed q) : p = q := by
  unfold framed at h
  split at h
  · exact encodeFrame_inj h
  · exact h

/-! Every buffer is a reply, or a broadcast in the session's framing. -/

def Queues (s : MqttSession) : Prop :=
  ∀ buf ∈ s.out.buffers, IsReply s.isWebsocket buf ∨
    ∃ m ∈ s.broadcasts, buf = s.framed (encodePublish m.1 m.2 0 0)

variable {cfg : ServerConfig} {now : Int} {i j : Nat} {w w' : World} {s s' : MqttSession}
  {msgs : List (Nat × Bytes × Bytes)} {shared : Shared} {ops more : List Operation} {topic payload : Bytes}

theorem Queues.deliver (h : Queues s) (server : Nat) (topic payload : Bytes) :
    Queues (s.deliver server topic payload) := by
  unfold MqttSession.deliver
  split
  · intro buf hbuf
    rcases List.mem_append.mp hbuf with hbuf | hbuf
    · rcases h buf hbuf with hr | ⟨m, hm, he⟩
      · exact .inl hr
      · exact .inr ⟨m, List.mem_append_left _ hm, he⟩
    · exact .inr ⟨(topic, payload), List.mem_append_right _ (List.mem_singleton_self _), List.mem_singleton.mp hbuf⟩
  · exact h

theorem Queues.deliverAll (h : Queues s) (msgs : List (Nat × Bytes × Bytes)) : Queues (deliverAll msgs s) := by
  induction msgs generalizing s with
  | nil => exact h
  | cons m msgs ih => exact ih (h.deliver m.1 m.2.1 m.2.2)

theorem queues_own (h : Queues s) (ho : Own cfg s s') : Queues s' := by
  cases ho with
  | write buf kind _ hb =>
    intro b hm
    rcases List.mem_append.mp hm with hm | hm
    · exact h b hm
    · exact .inl (List.mem_singleton.mp hm ▸ hb)
  | startClosing | identify | authenticate | subscribe | unlist => exact h

/-- The transport is settled before anything is written. -/
theorem queues_input (hf : Wire.Fits s) (h : Queues s) (hin : Input s s') : Queues s' := by
  obtain ⟨reads, waits, rxAcc, isWebsocket, wsHandshakeDone, writes, received, rfl, hset, -⟩ := hin
  cases hd : s.wsHandshakeDone with
  | true =>
    obtain ⟨rfl, rfl⟩ := hset hd
    exact h
  | false =>
    intro buf hbuf
    rw [show s.out.buffers = [] from (hf.unsettled hd).1] at hbuf
    cases hbuf

theorem queues_effect (hw : All (fun _ => Queues) w) (e : Effect w w' i s msgs shared)
    (hs : i < w.mqtt.length → Queues s) : All (fun _ => Queues) w' :=
  hw.effect e (fun _ _ h => h.deliverAll msgs) hs

theorem queues_preserved (cfg : ServerConfig) : Preserved cfg (fun _ _ => True)
    (fun w => All (fun _ => Wire.Fits) w ∧ All (fun _ => Queues) w) where
  rejected hw _ := hw
  acceptedMqtt hw hc hg := ⟨(Wire.fits_preserved cfg).acceptedMqtt hw.1 hc hg,
    hw.2.append rfl (fun _ h => by cases h) rfl⟩
  acceptedHttp hw _ _ := hw
  act hi hw h := by
    refine ⟨Wire.fits_act hi hw.1 h, ?_⟩
    have hs := hw.2.session hi
    cases h with
    | own ho e => exact queues_effect hw.2 e fun _ => queues_own hs ho
    | relay _ e | publishMeta _ _ _ e | publishExtra _ _ _ e | close _ _ e => exact queues_effect hw.2 e fun _ => hs
  input hi hw hin e :=
    ⟨(Wire.fits_preserved cfg).input hi hw.1 hin e,
      queues_effect hw.2 e fun _ => queues_input (hw.1.session hi) (hw.2.session hi) hin⟩
  packet hi hw e := ⟨(Wire.fits_preserved cfg).packet hi hw.1 e, queues_effect hw.2 e fun _ => hw.2.session hi⟩
  transferred now hi hw hc ho hn :=
    ⟨(Wire.fits_preserved cfg).transferred now hi hw.1 hc ho hn,
      queues_effect hw.2 (.ofUpdate _) fun _ => hw.2.session hi⟩
  http _ hw _ _ := hw
  destroyedMqtt hi hw hc :=
    ⟨(Wire.fits_preserved cfg).destroyedMqtt hi hw.1 hc, queues_effect hw.2 (.ofUpdate _) fun _ => hw.2.session hi⟩
  destroyedHttp _ hw _ := hw
  removed hw ha := ⟨(Wire.fits_preserved cfg).removed hw.1 ha, hw.2.announced ha fun _ _ h => h.deliverAll _⟩

theorem queues_run {es : List World.Event} (h : (machine cfg).Reaches (init cfg) es w) : All (fun _ => Queues) w :=
  ((queues_preserved cfg).run ⟨fun _ _ h => (by cases h), fun _ _ h => (by cases h)⟩ h).2

/-! Every broadcast has an origin. -/

/-- The sessions are still there, and have forgotten no packet. -/
structure Remembers (w w' : World) : Prop where
  keeps : ∀ (j : Nat) (s : MqttSession), w.mqtt[j]? = some s → ∃ s', w'.mqtt[j]? = some s' ∧
    (s.authenticated = true → s'.authenticated = true) ∧ s.handled ⊆ s'.handled

theorem Remembers.fromClient (h : Remembers w w') (hc : FromClient w topic payload) : FromClient w' topic payload := by
  obtain ⟨j, s, hs, ha, data, hd, hpub⟩ := hc
  obtain ⟨s', hs', ha', hd'⟩ := h.keeps j s hs
  exact ⟨j, s', hs', ha' ha, data, hd' hd, hpub⟩

theorem remembers_delivered (hm : w'.mqtt = (w.mqtt.set i s).map (deliverAll msgs))
    (ha : (w.session i).authenticated = true → s.authenticated = true)
    (hh : (w.session i).handled ⊆ s.handled) : Remembers w w' := by
  refine ⟨fun j t ht => ?_⟩
  have hsame (t : MqttSession) : (deliverAll msgs t).authenticated = t.authenticated ∧
      (deliverAll msgs t).handled = t.handled := by
    obtain ⟨_, _, _, h⟩ := deliverAll_same msgs t
    rw [h]
    exact ⟨rfl, rfl⟩
  rw [hm, List.getElem?_map]
  obtain ⟨rfl, rfl, hset⟩ | ⟨-, hset⟩ := get_set_session i s ht
  · refine ⟨deliverAll msgs s, by rw [hset, Option.map_some], ?_, ?_⟩
    · rw [(hsame s).1]
      exact ha
    · rw [(hsame s).2]
      exact hh
  · refine ⟨deliverAll msgs t, by rw [hset, Option.map_some], ?_, ?_⟩
    · rw [(hsame t).1]
      exact id
    · rw [(hsame t).2]
      exact List.Subset.refl _

theorem remembers_same (h : w'.mqtt = w.mqtt) : Remembers w w' :=
  ⟨fun _ s hs => ⟨s, h ▸ hs, id, List.Subset.refl _⟩⟩

def Origin (cfg : ServerConfig) (ops : List Operation) (w : World) (m : Bytes × Bytes) : Prop :=
  FromRegistry cfg .empty ops m.1 m.2 ∨ FromClient w m.1 m.2

theorem Origin.mono {m : Bytes × Bytes} (h : Origin cfg ops w m) (hw : Remembers w w') (more : List Operation) :
    Origin cfg (ops ++ more) w' m := by
  rcases h with h | h
  · exact .inl (h.append more)
  · exact .inr (hw.fromClient h)

/-- The operations so far, and an origin among them or in a client for every message sent. -/
structure Sourced (cfg : ServerConfig) (ops : List Operation) (w : World) : Prop where
  trail : Trail cfg ops w
  origin : All (fun _ s => ∀ m ∈ s.broadcasts, Origin cfg ops w m) w

theorem mem_broadcasts_deliverAll {m : Bytes × Bytes} (h : m ∈ (deliverAll msgs s).broadcasts) :
    m ∈ s.broadcasts ∨ ∃ server, (server, m) ∈ msgs := by
  induction msgs generalizing s with
  | nil => exact .inl h
  | cons first rest ih =>
    rcases ih h with h | ⟨server, h⟩
    · dsimp only [MqttSession.deliver] at h
      split at h
      · rcases List.mem_append.mp h with h | h
        · exact .inl h
        · obtain rfl := List.mem_singleton.mp h
          exact .inr ⟨first.1, List.mem_cons_self⟩
      · exact .inl h
    · exact .inr ⟨server, List.mem_cons_of_mem _ h⟩

/-- Deliveries of messages that have an origin. -/
theorem Sourced.delivered (hw : Sourced cfg ops w) (hm : w'.mqtt = (w.mqtt.set i s).map (deliverAll msgs))
    (ht : Trail cfg (ops ++ more) w') (hr : Remembers w w') (hs : s.broadcasts = (w.session i).broadcasts)
    (hmsgs : ∀ m ∈ msgs, Origin cfg (ops ++ more) w' m.2) : Sourced cfg (ops ++ more) w' := by
  refine ⟨ht, fun j t ht => ?_⟩
  rw [hm, List.getElem?_map] at ht
  obtain ⟨t', ht', rfl⟩ := Option.map_eq_some_iff.mp ht
  have hsent : ∃ t, w.mqtt[j]? = some t ∧ t'.broadcasts = t.broadcasts := by
    obtain ⟨rfl, rfl, hi⟩ | ⟨-, ht'⟩ := getElem?_set_some ht'
    · exact ⟨_, session_eq hi, hs⟩
    · exact ⟨t', ht', rfl⟩
  obtain ⟨t, htw, hbr⟩ := hsent
  intro m hmem
  rcases mem_broadcasts_deliverAll hmem with hmem | ⟨server, hmem⟩
  · exact (hw.origin j t htw m (hbr ▸ hmem)).mono hr more
  · exact hmsgs _ hmem

theorem Sourced.performed (hw : Sourced cfg ops w) (hi : i < w.mqtt.length) {op? : Option Operation}
    (hp : Performed cfg now w w' i s op? msgs) : Sourced cfg (ops ++ op?.toList) w' := by
  have hr := remembers_delivered hp.mqtt hp.authenticated (hp.handled ▸ List.Subset.refl _)
  refine hw.delivered hp.mqtt (hw.trail.performed hi hp) hr hp.broadcasts fun m hm => ?_
  rcases hp.messages with hreg | ⟨hauth, data, hdata, pub, hpub, hfree, rfl⟩
  · exact .inl (hw.trail.registry ▸ hreg m hm).later
  · obtain rfl := List.mem_singleton.mp hm
    exact .inr (hr.fromClient ⟨i, _, session_eq hi, hauth, data, hdata, pub, hpub, hfree, rfl, rfl⟩)

/-- A change of one session that sends nothing. -/
theorem Sourced.quiet (hw : Sourced cfg ops w) (hi : i < w.mqtt.length) (he : Effect w w' i s [] shared)
    (hr : shared.registry = w.shared.registry) (hreg : registeredBy s = registeredBy (w.session i))
    (ha : s.authenticated = (w.session i).authenticated) (hh : (w.session i).handled ⊆ s.handled)
    (hb : s.broadcasts = (w.session i).broadcasts) : ∃ ops, Sourced cfg ops w' := by
  have ht : Trail cfg (ops ++ []) w' := by
    rw [List.append_nil]
    exact hw.trail.quiet hi he hr hreg
  refine ⟨_, hw.delivered he.mqtt ht (remembers_delivered he.mqtt (fun h => ha.trans h) hh) hb ?_⟩
  simp

theorem Sourced.same (hw : Sourced cfg ops w) (ht : Trail cfg (ops ++ more) w') (hm : w'.mqtt = w.mqtt) :
    Sourced cfg (ops ++ more) w' := by
  refine ⟨ht, fun j t htj m hmem => ?_⟩
  exact (hw.origin j t (hm ▸ htj) m hmem).mono (remembers_same hm) more

theorem Sourced.unchanged (hw : Sourced cfg ops w) (hr : w'.shared.registry = w.shared.registry)
    (hm : w'.mqtt = w.mqtt) : Sourced cfg ops w' := by
  have h : Sourced cfg (ops ++ []) w' := hw.same (by
    rw [List.append_nil]
    exact hw.trail.same hr (by rw [hm])) hm
  rwa [List.append_nil] at h

theorem sourced_preserved (cfg : ServerConfig) :
    Preserved cfg (fun _ _ => True) (fun w => ∃ ops, Sourced cfg ops w) where
  rejected := by
    rintro w _ _ guard ⟨ops, hw⟩ _
    exact ⟨_, hw.unchanged rfl rfl⟩
  acceptedMqtt := by
    rintro w server _ remote again guard ⟨ops, hw⟩ _ _
    refine ⟨ops, hw.trail.accepted rfl rfl, fun j t ht => ?_⟩
    rcases getElem?_snoc ht with ht | ⟨-, rfl⟩
    · intro m hmem
      have hr : Remembers w { w.setGuard guard with mqtt := w.mqtt ++ [accepted server remote again] } := by
        refine ⟨fun k s hk => ⟨s, ?_, id, List.Subset.refl _⟩⟩
        rw [List.getElem?_append_left (session_of_get hk).2]
        exact hk
      have := (hw.origin j t ht m hmem).mono hr []
      rwa [List.append_nil] at this
    · intro m hmem
      cases hmem
  acceptedHttp := by
    rintro w _ _ _ guard ⟨ops, hw⟩ _ _
    exact ⟨_, hw.unchanged rfl rfl⟩
  act := by
    rintro w w' now i hi ⟨ops, hw⟩ h
    obtain ⟨s, more, msgs, hp⟩ := h.performed
    exact ⟨_, hw.performed hi hp⟩
  input := by
    rintro w w' i s hi ⟨ops, hw⟩ hin he
    obtain ⟨_, _, _, _, _, _, _, rfl, -⟩ := hin
    exact hw.quiet hi he rfl rfl rfl (List.Subset.refl _) rfl
  packet := by
    rintro w w' i data hi ⟨ops, hw⟩ he
    exact hw.quiet hi he rfl rfl rfl (List.subset_append_left _ _) rfl
  transferred := by
    rintro w i k n now hi ⟨ops, hw⟩ _ _ _
    exact hw.quiet hi (.ofUpdate _) rfl rfl rfl (List.Subset.refl _) rfl
  http := by
    rintro w i e s s' shared flow _ ⟨ops, hw⟩ _ h
    obtain ⟨more, -, ht⟩ := trail_resolves { w with shared, http := w.http.set i s' }
      (Http.HttpSession.handle_effect h).registry rfl
    exact ⟨_, hw.same (ht hw.trail) rfl⟩
  destroyedMqtt := by
    rintro w i hi ⟨ops, hw⟩ _
    exact hw.quiet hi (.ofUpdate _) rfl rfl rfl (List.Subset.refl _) rfl
  destroyedHttp := by
    rintro w i s _ ⟨ops, hw⟩ _
    exact ⟨_, hw.unchanged rfl rfl⟩
  removed := by
    rintro w w' id ⟨ops, hw⟩ ha
    have hm := ha.mqtt
    rw [← set_session_self w 0] at hm
    refine ⟨_, hw.delivered hm (hw.trail.removed ha)
      (remembers_delivered hm (fun h => h) (List.Subset.refl _)) rfl fun m hmem => ?_⟩
    have hreg := fromRegistry_of_mem (.removeNodePermanently id) hmem
    exact .inl (hw.trail.registry ▸ hreg).later

theorem sourced_run {es : List World.Event} (h : (machine cfg).Reaches (init cfg) es w) : ∃ ops, Sourced cfg ops w :=
  (sourced_preserved cfg).run ⟨_, trail_init cfg, fun _ _ h => (by cases h)⟩ h

/-! What one PUBLISH outside the two node topics sends. -/

/-- Every session keeps its transport, and queues packets with the property alone. -/
def Sends (Q : Bytes → Prop) (w w' : World) : Prop :=
  ∀ (j : Nat) (t : MqttSession), w.mqtt[j]? = some t → ∃ (t' : MqttSession) (packets : List Bytes),
    w'.mqtt[j]? = some t' ∧
    t'.isWebsocket = t.isWebsocket ∧ t'.out.buffers = t.out.buffers ++ packets.map t.framed ∧ ∀ p ∈ packets, Q p

variable {Q : Bytes → Prop}

theorem Sends.trans {w'' : World} (h : Sends Q w w') (h' : Sends Q w' w'') : Sends Q w w'' := by
  intro j t ht
  obtain ⟨t', packets, ht', hws, hb, hq⟩ := h j t ht
  obtain ⟨t'', packets', ht'', hws', hb', hq'⟩ := h' j t' ht'
  have hframed : t'.framed = t.framed := by
    funext data
    rw [framed, framed, hws]
  refine ⟨t'', packets ++ packets', ht'', hws'.trans hws, ?_, fun p hp => ?_⟩
  · rw [hb', hb, hframed, List.map_append, List.append_assoc]
  · rcases List.mem_append.mp hp with hp | hp
    · exact hq p hp
    · exact hq' p hp

theorem sends_update {f : MqttSession → MqttSession} (hi : i < w.mqtt.length) (packets : List Bytes)
    (hws : (f (w.session i)).isWebsocket = (w.session i).isWebsocket)
    (hb : (f (w.session i)).out.buffers = (w.session i).out.buffers ++ packets.map (w.session i).framed)
    (hq : ∀ p ∈ packets, Q p) : Sends Q w (w.update i f) := by
  intro j t ht
  rw [Wire.get_update hi]
  split
  · rename_i hj
    subst hj
    obtain ⟨rfl, -⟩ := session_of_get ht
    exact ⟨_, packets, rfl, hws, hb, hq⟩
  · exact ⟨t, [], ht, rfl, by simp, by simp⟩

theorem sends_broadcast (server : Nat) (topic payload : Bytes) (hq : Q (encodePublish topic payload 0 0)) :
    Sends Q w (w.broadcast server topic payload) := by
  intro j t ht
  refine ⟨t.deliver server topic payload, ?_⟩
  have hget : (w.broadcast server topic payload).mqtt[j]? = some (t.deliver server topic payload) := by
    rw [broadcast, List.getElem?_map, ht]
    rfl
  unfold deliver at hget ⊢
  split at hget
  · rename_i hc
    rw [if_pos hc]
    exact ⟨[encodePublish topic payload 0 0], hget, rfl, rfl, by simpa using hq⟩
  · rename_i hc
    rw [if_neg hc]
    exact ⟨[], hget, rfl, by simp, by simp⟩

/-- A PUBLISH outside the two node topics leaves the registry alone, and sends its
acknowledgement and, if the topic is not reserved, itself. -/
theorem sends_processPacket (cfg : ServerConfig) (now : Int) (hi : i < w.mqtt.length) {data : Bytes}
    (htype : IsPublish data) {pub : MqttPublish} (hd : decodePublish data = some pub)
    (hmeta : pub.topic ≠ ascii "apr/node/meta") (hextra : pub.topic ≠ ascii "apr/node/extra") :
    (w.processPacket cfg now i data).1.shared = w.shared ∧
      Sends (fun p => p = encodePuback pub.packetId ∨
        (isReserved pub.topic = false ∧ p = encodePublish pub.topic pub.payload 0 0))
        w (w.processPacket cfg now i data).1 := by
  obtain ⟨b, rest, rfl⟩ : ∃ b rest, data = b :: rest := by
    cases data with
    | nil => cases hd
    | cons b rest => exact ⟨b, rest, rfl⟩
  have htype : b &&& 0xF0 = publish := htype
  have hconnect : b &&& 0xF0 ≠ connect := by
    rw [htype]
    decide
  have hi' : i < (w.update i (recordPacket (b :: rest))).mqtt.length := by simpa using hi
  have hrecord (Q : Bytes → Prop) : Sends Q w (w.update i (recordPacket (b :: rest))) :=
    sends_update hi [] rfl (List.append_nil _).symm (by simp)
  unfold processPacket
  dsimp only
  rw [if_neg hconnect, if_pos htype]
  unfold handlePublish
  dsimp only
  split
  · exact ⟨rfl, hrecord _⟩
  · rw [hd]
    dsimp only
    rw [if_neg hmeta, if_neg hextra]
    -- the acknowledgement comes first
    have hack : Sends (fun p => p = encodePuback pub.packetId ∨
        (isReserved pub.topic = false ∧ p = encodePublish pub.topic pub.payload 0 0))
        (w.update i (recordPacket (b :: rest)))
        ((w.update i (recordPacket (b :: rest))).update i (acknowledge pub)) := by
      by_cases hqos : pub.qos = 1
      · refine sends_update hi' [encodePuback pub.packetId] ?_ ?_ (by simp)
        · rw [acknowledge, if_pos hqos]
          rfl
        · rw [acknowledge, if_pos hqos]
          rfl
      · refine sends_update hi' [] ?_ ?_ (by simp)
        · rw [acknowledge, if_neg hqos]
        · rw [acknowledge, if_neg hqos, List.map_nil, List.append_nil]
    split
    · exact ⟨rfl, (hrecord _).trans hack⟩
    · rename_i hfree
      have hfree : isReserved pub.topic = false := by simpa using hfree
      exact ⟨rfl, ((hrecord _).trans hack).trans (sends_broadcast _ _ _ (.inr ⟨hfree, rfl⟩))⟩

/-! The result. -/

/-- The packet carries the event of an operation of the run. -/
def IsEvent (cfg : ServerConfig) (ops : List Operation) (packet : Bytes) : Prop :=
  ∃ topic payload, FromRegistry cfg .empty ops topic payload ∧ packet = encodePublish topic payload 0 0

/-- The packet carries the topic and the payload of a client's PUBLISH, unchanged. -/
def IsRelay (w : World) (packet : Bytes) : Prop :=
  ∃ topic payload, FromClient w topic payload ∧ packet = encodePublish topic payload 0 0 ∧
    topicField packet = topic ∧ decodePublish packet = some ⟨topic, payload, 0, 0, false⟩

theorem topicField_of_decoded {data : Bytes} {pub : MqttPublish} (h : decodePublish data = some pub) :
    topicField (encodePublish pub.topic pub.payload 0 0) = pub.topic := by
  rw [topicField_encodePublish, Nat.mod_eq_of_lt (decodePublish_bounds h).1, List.take_left]

theorem isRelay_of_fromClient {packet : Bytes} (h : FromClient w topic payload)
    (hp : packet = encodePublish topic payload 0 0) :
    IsRelay w packet ∧ isReserved (topicField packet) = false := by
  have hclient := h
  obtain ⟨-, -, -, -, data, -, pub, hd, hfree, rfl, rfl⟩ := h
  have hfield := topicField_of_decoded hd
  obtain ⟨ht, hb⟩ := decodePublish_bounds hd
  rw [← hp] at hfield
  refine ⟨⟨_, _, hclient, hp, hfield, ?_⟩, hfield ▸ hfree⟩
  rw [hp]
  exact decodePublish_encodePublish ht hb

/-- **In every run, a PUBLISH that is queued to a session is the event of a registry
operation, or relays a client's PUBLISH unchanged; one with a topic under `apr/` is the
event of an operation. And a PUBLISH of a client outside the two node topics, whatever is
in it, changes nothing shared and makes no server send under `apr/`.** -/
theorem publish_provenance (cfg : ServerConfig) {es : List World.Event} {w : World}
    (hrun : (machine cfg).Reaches (init cfg) es w) :
    (∃ ops, Trail cfg ops w ∧ ∀ (j : Nat) (s : MqttSession) (packet : Bytes), w.mqtt[j]? = some s →
      s.framed packet ∈ s.out.buffers → IsPublish packet →
        (IsEvent cfg ops packet ∨ IsRelay w packet) ∧
        (isReserved (topicField packet) = true → IsEvent cfg ops packet)) ∧
    (∀ (now : Int) (i : Nat) (data : Bytes) (pub : MqttPublish), i < w.mqtt.length → IsPublish data →
      decodePublish data = some pub → pub.topic ≠ ascii "apr/node/meta" → pub.topic ≠ ascii "apr/node/extra" →
        (w.processPacket cfg now i data).1.shared = w.shared ∧
        Sends (fun p => IsPublish p → isReserved (topicField p) = false ∧
          p = encodePublish pub.topic pub.payload 0 0) w (w.processPacket cfg now i data).1) := by
  constructor
  · obtain ⟨ops, hw⟩ := sourced_run hrun
    refine ⟨ops, hw.trail, fun j s packet hs hbuf hpub => ?_⟩
    rcases queues_run hrun j s hs _ hbuf with hreply | ⟨m, hm, he⟩
    · exact absurd hpub (not_isPublish_of_isAnswer (isAnswer_of_framed hreply))
    · have he := framed_inj s he
      rcases hw.origin j s hs m hm with hreg | hclient
      · have hevent : IsEvent cfg ops packet := ⟨_, _, hreg, he⟩
        exact ⟨.inl hevent, fun _ => hevent⟩
      · obtain ⟨hrelay, hfree⟩ := isRelay_of_fromClient hclient he
        refine ⟨.inr hrelay, fun hres => ?_⟩
        rw [hfree] at hres
        cases hres
  · intro now i data pub hi htype hd hmeta hextra
    obtain ⟨hshared, hsends⟩ := sends_processPacket cfg now hi htype hd hmeta hextra
    refine ⟨hshared, fun j t ht => ?_⟩
    obtain ⟨t', packets, ht', hws, hb, hq⟩ := hsends j t ht
    refine ⟨t', packets, ht', hws, hb, fun p hp hpub => ?_⟩
    rcases hq p hp with rfl | ⟨hfree, rfl⟩
    · exact absurd hpub (not_isPublish_of_isAnswer (.puback _))
    · rw [topicField_of_decoded hd]
      exact ⟨hfree, rfl⟩

/-! A node that sees its own event, and then writes to its peers. -/

private def watching : List World.Event :=
  [.acceptMqtt 0 0 none false, .mqtt 100 0 (.read connectPacket), .mqtt 100 0 (.read (subscribePacket (ascii "apr/+"))),
    .mqtt 101 0 (.read (metaPacket (metaDocument (ascii "job"))))]

private def watched : World := ((machine jobListener).exec (init jobListener) watching).getD (init jobListener)

/-- The event of the node's registration, and a PUBLISH in an upper-case name space. -/
theorem job_event_sent :
    (∃ ops, Trail jobListener ops watched ∧ IsEvent jobListener ops ((watched.session 0).out.buffers.getD 2 [])) ∧
      (watched.processPacket jobListener 102 0 (encodePublish (ascii "APR/job") [] 0 0)).1.shared = watched.shared := by
  have hrun : (machine jobListener).Reaches (init jobListener) watching watched :=
    (machine jobListener).reaches_exec (by decide +kernel)
  obtain ⟨⟨ops, ht, hout⟩, hin⟩ := publish_provenance jobListener hrun
  have hsession : watched.mqtt[0]? = some (watched.session 0) := session_eq (by decide +kernel)
  have hplain : (watched.session 0).framed ((watched.session 0).out.buffers.getD 2 []) =
      (watched.session 0).out.buffers.getD 2 [] := by decide +kernel
  refine ⟨⟨ops, ht, (hout 0 _ _ hsession ?_ ?_).2 ?_⟩, ?_⟩
  · rw [hplain]
    decide +kernel
  · unfold IsPublish
    decide +kernel
  · decide +kernel
  · exact (hin 102 0 _ ⟨ascii "APR/job", [], 0, 0, false⟩ (by decide +kernel) (isPublish_encodePublish _ _)
      (by decide +kernel) (by decide +kernel) (by decide +kernel)).1

end LightApr.Server.Provenance
