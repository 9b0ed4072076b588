import LightApr.Server.Integrity
import LightApr.Server.Provenance

/-! Which events of the registry reach a session that subscribes to "apr/+". -/
namespace LightApr.Server.TopologyEvents
open LightApr.Core Lib Mqtt MqttSession World Registry Packet Provenance

/-! A PUBLISH as its reader takes it apart. -/

/-- What stands behind the topic field. -/
def payloadField (packet : Bytes) : Bytes :=
  let body := ((packet.drop 1).dropWhile (0x80 ≤ ·)).drop 1
  (body.drop 2).drop ((body.getD 0 0).toNat * 256 + (body.getD 1 0).toNat)

/-- A PUBLISH with a remaining length of at most four bytes, this topic and this payload. -/
structure Encodes (packet topic payload : Bytes) : Prop where
  publish : IsPublish packet
  remaining : ((packet.drop 1).takeWhile (0x80 ≤ ·)).length ≤ 3
  topic : topicField packet = topic
  payload : payloadField packet = payload

theorem takeWhile_encodeRemainingLength (n : Nat) (t : Bytes) :
    ((encodeRemainingLength n ++ t).takeWhile (0x80 ≤ ·)).length + 1 = (encodeRemainingLength n).length := by
  obtain ⟨front, last, he, hfront, hlast⟩ := encodeRemainingLength_split n
  rw [he, List.append_assoc, List.takeWhile_append_of_pos (by simpa using hfront), List.singleton_append,
    List.takeWhile_cons_of_neg (by simpa using hlast), List.append_nil, List.length_append, List.length_singleton]

theorem payloadField_encodePublish (topic payload : Bytes) :
    payloadField (encodePublish topic payload 0 0) = (topic ++ payload).drop (topic.length % 65536) := by
  have hbody : publishBody topic payload 0 0 = u16 (topic.length % 65536) ++ (topic ++ payload) := by
    simp [publishBody, writeString]
  have hvalue := u16_value (topic.length % 65536) (Nat.mod_lt _ (by decide))
  rw [encodePublish_qos0, payloadField, List.drop_succ_cons, List.drop_zero, dropWhile_encodeRemainingLength, hbody]
  exact congrArg (fun n => (topic ++ payload).drop n) hvalue

/-- The limits of the two length fields of a PUBLISH. -/
def Fits (topic payload : Bytes) : Prop :=
  topic.length < 65536 ∧ 2 + topic.length + payload.length < 128 ^ 4

instance (topic payload : Bytes) : Decidable (Fits topic payload) := inferInstanceAs (Decidable (_ ∧ _))

/-- What the broker encodes can be read back if it fits the length fields. -/
theorem encodes_encodePublish (topic payload : Bytes) :
    Encodes (encodePublish topic payload 0 0) topic payload ↔ Fits topic payload := by
  have hrem : (((encodePublish topic payload 0 0).drop 1).takeWhile (0x80 ≤ ·)).length ≤ 3 ↔
      2 + topic.length + payload.length < 128 ^ 4 := by
    have hlen := takeWhile_encodeRemainingLength (publishBody topic payload 0 0).length (publishBody topic payload 0 0)
    have hle := length_encodeRemainingLength_le (publishBody topic payload 0 0).length 3
    rw [encodePublish_qos0, List.drop_succ_cons, List.drop_zero, ← publishBody_length topic payload, ← hle]
    omega
  constructor
  · rintro ⟨-, hremaining, htopic, -⟩
    refine ⟨?_, hrem.mp hremaining⟩
    have hlen := congrArg List.length htopic
    rw [topicField_encodePublish, List.length_take, List.length_append] at hlen
    have := Nat.mod_lt topic.length (show 65536 > 0 by decide)
    omega
  · rintro ⟨ht, hb⟩
    refine ⟨isPublish_encodePublish _ _, hrem.mpr hb, ?_, ?_⟩
    · rw [topicField_encodePublish, Nat.mod_eq_of_lt ht, List.take_left]
    · rw [payloadField_encodePublish, Nat.mod_eq_of_lt ht, List.drop_left]

/-! Where the process is when it runs an operation: at a step of a run, or inside one. -/

inductive Visited (cfg : ServerConfig) : World → Prop
  | reached {es : List World.Event} {w : World} : (machine cfg).Reaches (init cfg) es w → Visited cfg w
  | moved {now : Int} {i : Nat} {w w' : World} : Visited cfg w → i < w.mqtt.length → Move cfg now i w w' →
    Visited cfg w'
  | removed {id : Bytes} {w w' : World} : Visited cfg w →
      w.Announced w' (w.shared.registry.removeNodePermanently cfg.registry id).1
        (eventMessages cfg (w.shared.registry.removeNodePermanently cfg.registry id)) → Visited cfg w'

variable {cfg : ServerConfig} {now : Int} {i j : Nat} {w w' : World} {s s' : MqttSession} {node : NodeInfo}
  {msgs : List (Nat × Bytes × Bytes)} {shared : Shared} {topic payload : Bytes}

/-- The invariant rule, for conditions that every step meets. -/
theorem Visited.invariant {C : World → World.Event → Prop} {I : World → Prop} (hI : Preserved cfg C I)
    (h0 : I (init cfg)) (hC : ∀ {w w' e}, World.step cfg w e = some w' → C w e) (h : Visited cfg w) : I w := by
  induction h with
  | reached hrun => exact hrun.invariant I h0 fun _ _ _ hm _ hs => hI.step hm (hC hs) hs
  | moved _ hi hmove ih => exact hI.move hi ih hmove
  | removed _ ha ih => exact hI.removed ih ha

theorem visited_integrity (h : Visited cfg w) : Integrity cfg w :=
  h.invariant (integrity_preserved cfg) (integrity_init cfg) fun _ => trivial

/-- Every listener has one callback, and every session belongs to a listener. -/
structure Wired (cfg : ServerConfig) (w : World) : Prop where
  observers : w.shared.registry.eventCbs.map Prod.snd = List.range cfg.servers
  sessions : All (fun _ s => s.server < cfg.servers) w

/-- A session is accepted by a listener there is. -/
def OnListener (cfg : ServerConfig) (_ : World) : World.Event → Prop
  | .acceptMqtt server _ _ _ => server < cfg.servers
  | _ => True

theorem onListener_step {e : World.Event} (h : w.step cfg e = some w') : OnListener cfg w e := by
  cases e with
  | acceptMqtt server =>
    simp only [step] at h
    split at h
    · rename_i hs
      exact hs
    · cases h
  | acceptHttp | mqtt | http | destroyMqtt | destroyHttp | sweep => trivial

theorem server_deliverAll (msgs : List (Nat × Bytes × Bytes)) (s : MqttSession) :
    (deliverAll msgs s).server = s.server := by
  obtain ⟨_, _, _, h⟩ := deliverAll_same msgs s
  rw [h]

theorem Wired.delivered (hw : Wired cfg w) (hm : w'.mqtt = (w.mqtt.set i s).map (deliverAll msgs))
    (hs : s.server = (w.session i).server) (hr : w'.shared.registry.eventCbs = w.shared.registry.eventCbs) :
    Wired cfg w' := by
  refine ⟨hr ▸ hw.observers, fun j t ht => ?_⟩
  rw [hm, List.getElem?_map] at ht
  obtain ⟨t', ht', rfl⟩ := Option.map_eq_some_iff.mp ht
  rw [server_deliverAll]
  obtain ⟨rfl, rfl, hi⟩ | ⟨-, ht'⟩ := getElem?_set_some ht'
  · rw [hs]
    exact hw.sessions.session hi
  · exact hw.sessions j t' ht'

/-- An operation that is not about callbacks leaves them alone. -/
theorem eventCbs_run (cfg : ServerConfig) {r : Registry} (op : Operation)
    (hadd : ∀ observer, op ≠ .addEventCallback observer)
    (hremove : ∀ token, op ≠ .removeEventCallback token) : (op.run cfg.registry r).1.eventCbs = r.eventCbs := by
  rcases run_callbacks (show op.run cfg.registry r = (_, _) from rfl) with ⟨_, h, -⟩ | ⟨_, h, -⟩ | ⟨h, -⟩
  · exact absurd h (hadd _)
  · exact absurd h (hremove _)
  · exact h

theorem Wired.performed (hw : Wired cfg w) {op? : Option Operation} (hp : Performed cfg now w w' i s op? msgs) :
    Wired cfg w' := by
  refine hw.delivered hp.mqtt hp.server ?_
  rw [hp.registry]
  cases op? with
  | none => rfl
  | some op =>
    refine eventCbs_run cfg _ (fun observer he => ?_) (fun token he => ?_)
    · cases he ▸ hp.calls op rfl
    · cases he ▸ hp.calls op rfl

theorem Wired.quiet (hw : Wired cfg w) (he : Effect w w' i s [] shared) (hs : s.server = (w.session i).server)
    (hr : shared.registry = w.shared.registry) : Wired cfg w' :=
  hw.delivered he.mqtt hs (by rw [he.shared, hr])

theorem wired_preserved (cfg : ServerConfig) : Preserved cfg (OnListener cfg) (Wired cfg) where
  rejected hw _ := ⟨hw.observers, hw.sessions⟩
  acceptedMqtt hw hc _ := by
    refine ⟨hw.observers, hw.sessions.append rfl ?_ rfl⟩
    exact hc
  acceptedHttp hw _ _ := ⟨hw.observers, hw.sessions⟩
  act _ hw h := by
    obtain ⟨s, op?, msgs, hp⟩ := h.performed
    exact hw.performed hp
  input _ hw hin e := by
    obtain ⟨_, _, _, _, _, _, _, rfl, -⟩ := hin
    exact hw.quiet e rfl rfl
  packet _ hw e := hw.quiet e rfl rfl
  transferred _ _ hw _ _ _ := hw.quiet (.ofUpdate _) rfl rfl
  http _ hw _ h := by
    refine ⟨?_, hw.sessions⟩
    rw [← hw.observers]
    rcases (Http.HttpSession.handle_effect h).registry with hr | ⟨role, worker, hr⟩
    · rw [hr]
    · rw [hr]
      exact congrArg (List.map Prod.snd) (eventCbs_run cfg (.resolveNode role worker)
        (fun _ h => by cases h) fun _ h => by cases h)
  destroyedMqtt _ hw _ := hw.quiet (.ofUpdate _) rfl rfl
  destroyedHttp _ hw _ := ⟨hw.observers, hw.sessions⟩
  removed {w _ id} hw ha := by
    have hm := ha.mqtt
    rw [← set_session_self w 0] at hm
    refine hw.delivered hm rfl ?_
    rw [ha.shared]
    exact eventCbs_run cfg (.removeNodePermanently id) (fun _ h => by cases h) fun _ h => by cases h

theorem wired_init (cfg : ServerConfig) : Wired cfg (init cfg) := by
  refine ⟨?_, fun _ _ h => (by cases h)⟩
  have key (servers : List Nat) (r : Registry) :
      (servers.foldl (fun r server => r.addEventCallback server) r).eventCbs.map Prod.snd =
        r.eventCbs.map Prod.snd ++ servers := by
    induction servers generalizing r with
    | nil => exact (List.append_nil _).symm
    | cons server servers ih =>
      rw [List.foldl_cons, ih]
      simp [addEventCallback]
  exact key (List.range cfg.servers) .empty

theorem visited_wired (h : Visited cfg w) : Wired cfg w :=
  h.invariant (wired_preserved cfg) (wired_init cfg) fun hs => onListener_step hs

/-! The operations that announce a node, where the source calls them. -/

inductive Publishes (cfg : ServerConfig) (w : World) : World → Registry × Outcome → Prop
  | publishMeta (now : Int) {i : Nat} {payload : Bytes} {m : NodeMeta} : i < w.mqtt.length →
      readMeta cfg.registry.json (w.session i).role payload = some m →
      Publishes cfg w (w.publishMeta cfg now i m) (registration cfg now (w.session i) m w.shared.registry)
  | publishExtra (now : Int) {i : Nat} {payload worker : Bytes} {extra : Json} :
      readExtra cfg.registry.json payload = some (worker, extra) →
      Publishes cfg w (w.publishExtra cfg now i worker extra)
        (w.shared.registry.updateNodeExtra cfg.registry now (w.session i).nodeId worker extra)
  | closeSession (now : Int) {i : Nat} : (w.session i).tcp.closed = false → (w.session i).nodeId ≠ [] →
      Publishes cfg w (w.closeSession cfg now i).1 (w.shared.registry.markNodeGrace now (w.session i).nodeId)
  | removeNodePermanently (id : Bytes) :
      Publishes cfg w (w.mutate cfg (w.shared.registry.removeNodePermanently cfg.registry id)).1
        (w.shared.registry.removeNodePermanently cfg.registry id)

/-- What the delivery of a message depends on, and what it changes. -/
structure SameSubscriber (s s' : MqttSession) : Prop where
  listed : s'.listed = s.listed
  server : s'.server = s.server
  subscriptions : s'.subscriptions = s.subscriptions
  isWebsocket : s'.isWebsocket = s.isWebsocket
  out : s'.out = s.out

variable {result : Registry × Outcome}

theorem Publishes.delivers (h : Publishes cfg w w' result) :
    ∃ i s, SameSubscriber (w.session i) s ∧ w'.mqtt = (w.mqtt.set i s).map (deliverAll (eventMessages cfg result)) := by
  cases h with
  | @publishMeta now i payload m hi hm =>
    obtain ⟨nodeId, -, he⟩ := publishMeta_effect cfg now m hi
    refine ⟨i, _, ?_, he.mqtt⟩
    exact ⟨rfl, rfl, rfl, rfl, rfl⟩
  | @publishExtra now i payload worker extra hx =>
    have he := publishExtra_effect cfg now i worker extra w
    refine ⟨i, _, ?_, he.mqtt⟩
    exact ⟨rfl, rfl, rfl, rfl, rfl⟩
  | @closeSession now i hopen hne =>
    rcases closeSession_effect cfg now i w with ⟨hc, -⟩ | ⟨-, _, _, ⟨hnone, -⟩ | ⟨-, -, rfl⟩, he⟩
    · cases hopen.symm.trans hc
    · exact absurd hnone hne
    · refine ⟨i, _, ?_, he.mqtt⟩
      exact ⟨rfl, rfl, rfl, rfl, rfl⟩
  | removeNodePermanently id =>
    refine ⟨0, w.session 0, ⟨rfl, rfl, rfl, rfl, rfl⟩, ?_⟩
    rw [set_session_self]
    exact (mutate_effect rfl).1.mqtt

theorem Publishes.observers (h : Publishes cfg w w' result) :
    result.1.eventCbs = w.shared.registry.eventCbs := by
  cases h with
  | @publishMeta now i payload m =>
    exact eventCbs_run cfg (.registerOrUpdateNode now m.role m.workers m.endpoint
      (w.session i).tcp.peerIp (w.session i).nodeId m.extra) (fun _ h => by cases h) fun _ h => by cases h
  | @publishExtra now i payload worker extra =>
    exact eventCbs_run cfg (.updateNodeExtra now (w.session i).nodeId worker extra)
      (fun _ h => by cases h) fun _ h => by cases h
  | @closeSession now i =>
    exact eventCbs_run cfg (.markNodeGrace now (w.session i).nodeId) (fun _ h => by cases h)
      fun _ h => by cases h
  | removeNodePermanently id =>
    exact eventCbs_run cfg (.removeNodePermanently id) (fun _ h => by cases h) fun _ h => by cases h

/-- Apart from the role, an announced record is text. -/
theorem Publishes.text (hw : Integrity cfg w) (h : Publishes cfg w w' result) (hev : result.2 = .event node) :
    node.Utf8ButRole := by
  have stored {r r' : Registry} {k : Bytes} (hr : Intact cfg.registry r') (hn : r'.nodes = r.nodes.insert k node) :
      node.Utf8ButRole := (hr k node (by rw [hn, AList.lookup_insert])).utf8
  cases h with
  | publishMeta now hi hm =>
    exact stored (hw.registration now hi hm).1 (registration_event hw hi hm hev).2.1
  | @publishExtra now i payload worker extra hx =>
    obtain ⟨hworker, hextra⟩ := utf8_readExtra hx
    obtain ⟨⟨r', out⟩, he⟩ : ∃ x, updateNodeExtra cfg.registry now (w.session i).nodeId worker extra
      w.shared.registry = x := ⟨_, rfl⟩
    rw [he] at hev
    rcases updateNodeExtra_effect he with ⟨-, hout | hout⟩ | ⟨_, _, -, -, hn, -, hout⟩
    · cases hout.symm.trans hev
    · cases hout.symm.trans hev
    · obtain rfl := Outcome.event.inj (hout.symm.trans hev)
      exact stored (hw.registry.updateNodeExtra hworker hextra he) hn
  | @closeSession now i =>
    obtain ⟨⟨r', out⟩, he⟩ : ∃ x, markNodeGrace now (w.session i).nodeId w.shared.registry = x := ⟨_, rfl⟩
    rw [he] at hev
    rcases modifyNode_effect he with ⟨-, -, hout⟩ | ⟨_, -, hn, -, hout⟩
    · cases hout.symm.trans hev
    · obtain rfl := Outcome.event.inj (hout.symm.trans hev)
      exact stored (hw.registry.markNodeGrace he) hn
  | removeNodePermanently id =>
    obtain ⟨⟨r', out⟩, he⟩ : ∃ x, Registry.removeNodePermanently cfg.registry id w.shared.registry = x := ⟨_, rfl⟩
    rw [he] at hev
    rcases removeNodePermanently_effect he with ⟨-, -, hout⟩ | ⟨old, hold, -, -, hout | hout, -⟩
    · cases hout.symm.trans hev
    · obtain rfl := Outcome.event.inj (hout.symm.trans hev)
      have hu := (hw.registry id old hold).utf8
      exact ⟨hu.id, hu.workers, hu.endpoint, hu.extra⟩
    · cases hout.symm.trans hev

/-! What a subscriber is sent. -/

def topicOf (node : NodeInfo) : Bytes := ascii "apr/" ++ node.role

/-- One buffer more: a PUBLISH with the node's topic and JSON. -/
def SentEvent (cfg : ServerConfig) (node : NodeInfo) (s s' : MqttSession) : Prop :=
  ∃ packet text, cfg.registry.json.dump node.toJson = some text ∧ Encodes packet (topicOf node) text ∧
    s'.out.buffers = s.out.buffers ++ [s.framed packet]

/-- When the event of `node` reaches a session that subscribes to "apr/+". -/
structure Deliverable (cfg : ServerConfig) (node : NodeInfo) (s : MqttSession) : Prop where
  text : Utf8.Valid node.role
  fits : ∀ text ∈ cfg.registry.json.dump node.toJson, Fits (topicOf node) text
  /-- the role is one level, or another filter takes it -/
  level : Topic.OneLevel node.role ∨
    ∃ pat ∈ s.subscriptions, pat ≠ ascii "apr/+" ∧ Topic.topicMatches pat (topicOf node) = true

/-- The listeners announce a message one after the other, and a session hears its own. -/
theorem deliverAll_listeners (n : Nat) (topic payload : Bytes) (s : MqttSession) :
    deliverAll ((List.range n).map fun k => (k, topic, payload)) s =
      if s.server < n then s.deliver s.server topic payload else s := by
  induction n with
  | zero => rfl
  | succ n ih =>
    have hserver : (deliverAll ((List.range n).map fun k => (k, topic, payload)) s).server = s.server :=
      server_deliverAll _ s
    have hlast : deliverAll ((List.range (n + 1)).map fun k => (k, topic, payload)) s =
        (deliverAll ((List.range n).map fun k => (k, topic, payload)) s).deliver n topic payload := by
      rw [List.range_succ, List.map_append, deliverAll, List.foldl_append]
      rfl
    rw [hlast, ih]
    rw [ih] at hserver
    by_cases hlt : s.server < n
    · rw [if_pos hlt] at hserver ⊢
      rw [deliver, if_neg (by rw [hserver]; omega), if_pos (by omega)]
    · rw [if_neg hlt]
      by_cases heq : s.server = n
      · rw [if_pos (by omega), heq]
      · rw [deliver, if_neg (by simp [heq]), if_neg (by omega)]

theorem matchesTopic_iff (hsub : ascii "apr/+" ∈ s.subscriptions) (node : NodeInfo) :
    s.matchesTopic (topicOf node) = true ↔ Topic.OneLevel node.role ∨
      ∃ pat ∈ s.subscriptions, pat ≠ ascii "apr/+" ∧ Topic.topicMatches pat (topicOf node) = true := by
  have hplus : Topic.topicMatches (ascii "apr/+") (topicOf node) = true ↔ Topic.OneLevel node.role := by
    have h := Topic.topicMatches_plus_last (l := ascii "apr/") (by decide) (by decide) node.role
    rwa [show ascii "apr/" ++ [Topic.plus] = ascii "apr/+" by decide] at h
  rw [matchesTopic, List.any_eq_true]
  constructor
  · rintro ⟨pat, hpat, hm⟩
    by_cases he : pat = ascii "apr/+"
    · exact .inl (hplus.mp (he ▸ hm))
    · exact .inr ⟨pat, hpat, he, hm⟩
  · rintro (h | ⟨pat, hpat, -, hm⟩)
    · exact ⟨_, hsub, hplus.mpr h⟩
    · exact ⟨pat, hpat, hm⟩

/-- An event as one session has it: one message of its own listener, or nothing where the record is not text. -/
theorem deliverAll_nodeMessages {r : Registry} (hr : r.eventCbs.map Prod.snd = List.range cfg.servers)
    (hserver : s.server < cfg.servers) :
    deliverAll (nodeMessages cfg node r.eventCbs) s =
      match cfg.registry.json.dump node.toJson with
      | none => s
      | some text => s.deliver s.server (topicOf node) text := by
  unfold nodeMessages
  cases cfg.registry.json.dump node.toJson with
  | none => rfl
  | some text =>
    have hmsgs : (r.eventCbs.map fun observer => (observer.2, ascii "apr/" ++ node.role, text)) =
        (List.range cfg.servers).map fun k => (k, topicOf node, text) := by
      rw [← hr, List.map_map]
      rfl
    dsimp only
    rw [hmsgs, deliverAll_listeners, if_pos hserver]

theorem SameSubscriber.matchesTopic {t : MqttSession} (hsame : SameSubscriber s t) (topic : Bytes) :
    t.matchesTopic topic = s.matchesTopic topic := by
  rw [MqttSession.matchesTopic, hsame.subscriptions]
  rfl

/-- An event as a subscriber to its topic sees it, after its own session has changed at most otherwise. -/
theorem sentEvent_iff_of_matches {t : MqttSession} {r : Registry} (hsame : SameSubscriber s t)
    (hr : r.eventCbs.map Prod.snd = List.range cfg.servers) (hserver : s.server < cfg.servers)
    (hl : s.listed = true) (hm : s.matchesTopic (topicOf node) = true) (hu : node.Utf8ButRole) :
    SentEvent cfg node s (deliverAll (nodeMessages cfg node r.eventCbs) t) ↔
      Utf8.Valid node.role ∧ ∀ text ∈ cfg.registry.json.dump node.toJson, Fits (topicOf node) text := by
  rw [deliverAll_nodeMessages hr (hsame.server ▸ hserver)]
  cases hd : cfg.registry.json.dump node.toJson with
  | none =>
    refine iff_of_false ?_ ?_
    · rintro ⟨packet, text, ht, -⟩
      cases hd.symm.trans ht
    · rintro ⟨htext, -⟩
      obtain ⟨text, ht⟩ := cfg.registry.json.dump_of_utf8 ((NodeInfo.utf8_toJson hu).mpr htext)
      cases hd.symm.trans ht
  | some text =>
    have htext : Utf8.Valid node.role := (NodeInfo.utf8_toJson hu).mp (cfg.registry.json.utf8_of_dump hd)
    have hframed : t.framed = s.framed := by
      funext data
      rw [framed, framed, hsame.isWebsocket]
    dsimp only
    rw [deliver, if_pos ⟨hsame.listed.trans hl, rfl, (hsame.matchesTopic _).trans hm⟩]
    have hout : ({ t with broadcasts := t.broadcasts ++ [(topicOf node, text)] }.sendRaw
        (encodePublish (topicOf node) text 0 0)).out.buffers =
          s.out.buffers ++ [s.framed (encodePublish (topicOf node) text 0 0)] := by
      rw [← hframed, ← hsame.out]
      rfl
    constructor
    · rintro ⟨packet, text', ht', henc, hbuf⟩
      obtain rfl := Option.some.inj (hd.symm.trans ht')
      have hlast := List.append_cancel_left (hout.symm.trans hbuf)
      obtain rfl := framed_inj s (List.cons.inj hlast).1
      refine ⟨htext, fun text' ht' => ?_⟩
      obtain rfl := Option.some.inj ht'
      exact (encodes_encodePublish _ _).mp henc
    · rintro ⟨-, hfits⟩
      exact ⟨_, text, hd, (encodes_encodePublish _ _).mpr (hfits text rfl), hout⟩

/-- A session that is not listed, or does not subscribe to the topic, is sent nothing. -/
theorem buffers_of_unmatched {t : MqttSession} {r : Registry} (hsame : SameSubscriber s t)
    (hr : r.eventCbs.map Prod.snd = List.range cfg.servers) (hserver : s.server < cfg.servers)
    (hm : ¬ (s.listed = true ∧ s.matchesTopic (topicOf node) = true)) :
    (deliverAll (nodeMessages cfg node r.eventCbs) t).out.buffers = s.out.buffers := by
  rw [deliverAll_nodeMessages hr (hsame.server ▸ hserver), ← hsame.out]
  cases cfg.registry.json.dump node.toJson with
  | none => rfl
  | some text =>
    dsimp only
    rw [deliver, if_neg fun hc => hm ⟨hsame.listed.symm.trans hc.1, (hsame.matchesTopic _).symm.trans hc.2.2⟩]

/-- The filter "apr/+" and the others of the session. -/
theorem sentEvent_deliverAll {t : MqttSession} {r : Registry} (hsame : SameSubscriber s t)
    (hr : r.eventCbs.map Prod.snd = List.range cfg.servers) (hserver : s.server < cfg.servers)
    (hl : s.listed = true) (hsub : ascii "apr/+" ∈ s.subscriptions) (hu : node.Utf8ButRole) :
    SentEvent cfg node s (deliverAll (nodeMessages cfg node r.eventCbs) t) ↔ Deliverable cfg node s := by
  by_cases hm : s.matchesTopic (topicOf node) = true
  · rw [sentEvent_iff_of_matches hsame hr hserver hl hm hu]
    exact ⟨fun h => ⟨h.1, h.2, (matchesTopic_iff hsub node).mp hm⟩, fun h => ⟨h.text, h.fits⟩⟩
  · refine iff_of_false ?_ fun h => hm ((matchesTopic_iff hsub node).mpr h.level)
    rintro ⟨packet, text', -, -, hbuf⟩
    have hlen := congrArg List.length (hbuf.symm.trans (buffers_of_unmatched hsame hr hserver fun h => hm h.2))
    simp at hlen

/-- One session across an operation that announces a node. -/
theorem Publishes.session (h : Publishes cfg w w' result) (hev : result.2 = .event node)
    (hs : w.mqtt[j]? = some s) :
    ∃ t, SameSubscriber s t ∧
      w'.mqtt[j]? = some (deliverAll (nodeMessages cfg node w.shared.registry.eventCbs) t) := by
  obtain ⟨i, t, hsame, hm⟩ := h.delivers
  have hmsgs : eventMessages cfg result = nodeMessages cfg node w.shared.registry.eventCbs := by
    rw [eventMessages, hev, h.observers]
  obtain ⟨t', ht', hsub'⟩ : ∃ t', (w.mqtt.set i t)[j]? = some t' ∧ SameSubscriber s t' := by
    obtain ⟨rfl, rfl, hset⟩ | ⟨-, hset⟩ := get_set_session i t hs
    · exact ⟨t, hset, hsame⟩
    · exact ⟨s, hset, ⟨rfl, rfl, rfl, rfl, rfl⟩⟩
  refine ⟨t', hsub', ?_⟩
  rw [hm, List.getElem?_map, ht', hmsgs]
  rfl

/-- **In every run, an event of the registry is sent to a listed session with the
subscription "apr/+" exactly if it is deliverable: the role is text, the packet fits its
length fields, and the role is one level or another filter of the session takes it.** -/
theorem apr_plus_sent_iff (cfg : ServerConfig) {w w' : World} {result : Registry × Outcome} {node : NodeInfo}
    (hw : Visited cfg w) (hp : Publishes cfg w w' result) (hev : result.2 = .event node) {j : Nat}
    {s : MqttSession} (hs : w.mqtt[j]? = some s) (hl : s.listed = true) (hsub : ascii "apr/+" ∈ s.subscriptions) :
    ∃ s', w'.mqtt[j]? = some s' ∧ (SentEvent cfg node s s' ↔ Deliverable cfg node s) := by
  have hwired := visited_wired hw
  have hu := hp.text (visited_integrity hw) hev
  obtain ⟨t, hsame, hs'⟩ := hp.session hev hs
  exact ⟨_, hs', sentEvent_deliverAll hsame hwired.observers (hwired.sessions j s hs) hl hsub hu⟩

/-- In every run, an event of the registry reaches every session that is listed and subscribes to its topic as
one PUBLISH with the topic "apr/" + role and the JSON of the node exactly if the role is text and both fit the
length fields; the other sessions are sent nothing. -/
theorem event_packet_exact_iff (cfg : ServerConfig) {w w' : World} {result : Registry × Outcome} {node : NodeInfo}
    (hw : Visited cfg w) (hp : Publishes cfg w w' result) (hev : result.2 = .event node) {j : Nat}
    {s : MqttSession} (hs : w.mqtt[j]? = some s) :
    ∃ s', w'.mqtt[j]? = some s' ∧
      if s.listed = true ∧ s.matchesTopic (topicOf node) = true then
        SentEvent cfg node s s' ↔
          Utf8.Valid node.role ∧ ∀ text ∈ cfg.registry.json.dump node.toJson, Fits (topicOf node) text
      else s'.out.buffers = s.out.buffers := by
  have hwired := visited_wired hw
  have hserver := hwired.sessions j s hs
  obtain ⟨t, hsame, hs'⟩ := hp.session hev hs
  refine ⟨_, hs', ?_⟩
  split
  · rename_i h
    exact sentEvent_iff_of_matches hsame hwired.observers hserver h.1 h.2 (hp.text (visited_integrity hw) hev)
  · rename_i h
    exact buffers_of_unmatched hsame hwired.observers hserver h

/-! An observer with the subscription "apr/+", and a node that announces a role. -/

private def announcer (role : Bytes) : ServerConfig := withRole role 1

/-- The node is on a WebSocket, which carries a packet of any size. -/
private def observing : List World.Event :=
  [.acceptMqtt 0 0 none false, .acceptMqtt 0 0 none false, .mqtt 100 0 (.read connectPacket),
    .mqtt 100 1 (.read upgradeRequest), .mqtt 100 1 (.read (clientFrame connectPacket)),
    .mqtt 100 0 (.read (subscribePacket (ascii "apr/+")))]

private def observed (role : Bytes) : World :=
  ((machine (announcer role)).exec (init (announcer role)) observing).getD (init (announcer role))

/-- What the node publishes on "apr/node/meta". -/
private def announcement (role : Bytes) : NodeMeta :=
  (readMeta (announcer role).registry.json [] (metaDocument role).render).getD ⟨[], [], none, .null⟩

private def announcedNode (role : Bytes) : NodeInfo :=
  (registration (announcer role) 101 ((observed role).session 1) (announcement role)
    (observed role).shared.registry).2.announced.headD (newNode (announcer role).registry 0 [] [] [] none)

/-- The observer and the node are there, and the node has no role of its own. -/
private abbrev Observes (role : Bytes) : Prop :=
  ((machine (announcer role)).exec (init (announcer role)) observing).isSome = true ∧
    1 < (observed role).mqtt.length ∧ ((observed role).session 1).role = [] ∧
    ((observed role).session 0).listed = true ∧ ascii "apr/+" ∈ ((observed role).session 0).subscriptions

private theorem observer_present {role : Bytes} (h : Observes role) :
    (observed role).mqtt[0]? = some ((observed role).session 0) :=
  session_eq (Nat.lt_of_succ_lt h.2.1)

/-- What the runs below have in common. -/
private theorem published {role : Bytes} (h : Observes role)
    (hread : (readMeta (announcer role).registry.json [] (metaDocument role).render).isSome = true) :
    Visited (announcer role) (observed role) ∧
      Publishes (announcer role) (observed role)
        ((observed role).publishMeta (announcer role) 101 1 (announcement role))
        (registration (announcer role) 101 ((observed role).session 1) (announcement role)
          (observed role).shared.registry) ∧
      (registration (announcer role) 101 ((observed role).session 1) (announcement role)
        (observed role).shared.registry).2 = .event (announcedNode role) := by
  obtain ⟨hrun, hi, hrole, -⟩ := h
  have hvisited : Visited (announcer role) (observed role) := .reached ((machine (announcer role)).reaches_exec hrun)
  obtain ⟨m, hm⟩ := Option.isSome_iff_exists.mp hread
  have hread : some m = some (announcement role) := by rw [announcement, hm, Option.getD_some]
  have hannounce := hm.trans hread
  rw [← hrole] at hannounce
  refine ⟨hvisited, .publishMeta 101 hi hannounce, ?_⟩
  obtain ⟨-, node, -, hev, -⟩ := (visited_integrity hvisited).registration 101 hi hannounce
  replace hev := hev (.inl rfl)
  have hnode : announcedNode role = node := by
    unfold announcedNode
    rw [hev]
    rfl
  exact hev.trans (congrArg Outcome.event hnode.symm)

/-- The role "jobs/batch": the event of its registration is not sent to the observer. -/
theorem slashed_role_unsent : ¬ ∀ (cfg : ServerConfig) (w w' : World) (result : Registry × Outcome) (node : NodeInfo),
    Visited cfg w → Publishes cfg w w' result → result.2 = .event node → ∀ (j : Nat) (s : MqttSession),
      w.mqtt[j]? = some s → s.listed = true → ascii "apr/+" ∈ s.subscriptions →
        ∃ s', w'.mqtt[j]? = some s' ∧ SentEvent cfg node s s' := by
  intro h
  have ho : Observes (ascii "jobs/batch") := by decide +kernel
  obtain ⟨hw, hp, hev⟩ := published ho (by decide +kernel)
  have hs := observer_present ho
  obtain ⟨-, -, -, hlisted, hsub⟩ := ho
  obtain ⟨s', hs', packet, text, -, -, hbuf⟩ := h _ _ _ _ _ hw hp hev 0 _ hs hlisted hsub
  obtain ⟨rfl, -⟩ := session_of_get hs'
  have hsame : (((observed (ascii "jobs/batch")).publishMeta (announcer (ascii "jobs/batch")) 101 1
      (announcement (ascii "jobs/batch"))).session 0).out.buffers.length =
        ((observed (ascii "jobs/batch")).session 0).out.buffers.length := by decide +kernel
  rw [hbuf, List.length_append, List.length_singleton] at hsame
  omega

private theorem metaDocument_eq (role : Bytes) :
    metaDocument role = .obj [(ascii "role", .str role), (ascii "workers", .arr [])] := by
  rfl

/-- The role announced is the one in the document. -/
private theorem announcement_role {role : Bytes} (h : Utf8.Valid role) :
    (readMeta (announcer role).registry.json [] (metaDocument role).render).isSome = true ∧
      (announcement role).role = role := by
  have hutf8 : (metaDocument role).utf8 = true := by
    have hnames : Utf8.Valid (ascii "role") ∧ Utf8.Valid (ascii "workers") := by decide
    rw [metaDocument_eq]
    simp [Json.utf8, Json.utf8Fields, Json.utf8Items, h, hnames]
  have hparse : (announcer role).registry.json.parse (metaDocument role).render = some (metaDocument role) := by
    change [metaDocument role].find? (fun j => j.utf8 && decide (j.render = (metaDocument role).render)) = _
    rw [List.find?_cons_of_pos (by simp [hutf8])]
  have hread : ∃ m, readMeta (announcer role).registry.json [] (metaDocument role).render = some m ∧ m.role = role := by
    rw [readMeta, hparse, metaDocument_eq]
    exact ⟨_, rfl, rfl⟩
  obtain ⟨m, hm, hrole⟩ := hread
  exact ⟨by rw [hm]; rfl, by rw [announcement, hm, Option.getD_some, hrole]⟩

/-- The length field of a topic has 16 bits. -/
theorem Encodes.topic_lt {packet : Bytes} (h : Encodes packet topic payload) : topic.length < 65536 := by
  rw [← h.topic, topicField, List.length_take]
  have h0 := (((packet.drop 1).dropWhile (0x80 ≤ ·)).drop 1).getD 0 0 |>.toNat_lt
  have h1 := (((packet.drop 1).dropWhile (0x80 ≤ ·)).drop 1).getD 1 0 |>.toNat_lt
  omega

/-- A node is announced with the role of its announcement. -/
theorem role_of_registration {m : NodeMeta} {r : Registry} (h : (registration cfg now s m r).2 = .event node) :
    node.role = m.role := by
  obtain ⟨⟨r', out⟩, he⟩ : ∃ x, registration cfg now s m r = x := ⟨_, rfl⟩
  rw [he] at h
  obtain ⟨node', -, -, hreg, hout | hout, -⟩ := registerOrUpdateNode_effect he
  · rw [Outcome.event.inj (h.symm.trans hout), hreg.role]
  · cases h.symm.trans hout

private def longRole : Bytes := List.replicate 65532 97

/-- A role of 65532 bytes: with "apr/" the topic has 65536. -/
theorem long_role_misread : ¬ ∀ (cfg : ServerConfig) (w w' : World) (result : Registry × Outcome) (node : NodeInfo),
    Visited cfg w → Publishes cfg w w' result → result.2 = .event node → ∀ (j : Nat) (s : MqttSession),
      w.mqtt[j]? = some s → s.listed = true → s.matchesTopic (topicOf node) = true →
        ∃ s', w'.mqtt[j]? = some s' ∧ SentEvent cfg node s s' := by
  intro h
  have hbytes : ∀ b ∈ longRole, b = 97 := fun b hb => List.eq_of_mem_replicate hb
  obtain ⟨hread, hrole⟩ := announcement_role (Utf8.valid_ascii fun b hb => by rw [hbytes b hb]; decide)
  have ho : Observes longRole := by decide +kernel
  obtain ⟨hw, hp, hev⟩ := published ho hread
  have hs := observer_present ho
  obtain ⟨-, -, -, hlisted, hsub⟩ := ho
  have hnode : (announcedNode longRole).role = longRole := by
    rw [role_of_registration hev, hrole]
  have hlevel : Topic.OneLevel (announcedNode longRole).role := by
    rw [hnode]
    refine ⟨List.ne_nil_of_length_pos (by rw [longRole, List.length_replicate]; decide), fun hslash => ?_⟩
    exact absurd (hbytes _ (List.dropLast_subset _ hslash)) (by decide)
  have hmatch : ((observed longRole).session 0).matchesTopic (topicOf (announcedNode longRole)) = true :=
    (matchesTopic_iff hsub (announcedNode longRole)).mpr (.inl hlevel)
  obtain ⟨s', -, packet, text, -, henc, -⟩ := h _ _ _ _ _ hw hp hev 0 _ hs hlisted hmatch
  have hlt := henc.topic_lt
  rw [topicOf, hnode, List.length_append, longRole, List.length_replicate] at hlt
  exact absurd hlt (by decide)

/-- The observer is sent the event of the role "api", and the node that announces it is not. -/
theorem api_event_exact :
    (∃ s', ((observed (ascii "api")).publishMeta (announcer (ascii "api")) 101 1
      (announcement (ascii "api"))).mqtt[0]? =
      some s' ∧ SentEvent (announcer (ascii "api")) (announcedNode (ascii "api"))
        ((observed (ascii "api")).session 0) s') ∧
    ∃ s', ((observed (ascii "api")).publishMeta (announcer (ascii "api")) 101 1 (announcement (ascii "api"))).mqtt[1]? =
      some s' ∧ s'.out.buffers = ((observed (ascii "api")).session 1).out.buffers := by
  have ho : Observes (ascii "api") := by decide +kernel
  obtain ⟨hw, hp, hev⟩ := published ho (by decide +kernel)
  constructor
  · obtain ⟨s', hs', hiff⟩ := event_packet_exact_iff (announcer (ascii "api")) hw hp hev (observer_present ho)
    rw [if_pos (by decide +kernel)] at hiff
    have hfits : ((announcer (ascii "api")).registry.json.dump (announcedNode (ascii "api")).toJson).all
        (fun text => decide (Fits (topicOf (announcedNode (ascii "api"))) text)) = true := by decide +kernel
    refine ⟨s', hs', hiff.mpr ⟨by decide +kernel, fun text ht => ?_⟩⟩
    rw [ht] at hfits
    simpa using hfits
  · obtain ⟨s', hs', hsame⟩ := event_packet_exact_iff (announcer (ascii "api")) hw hp hev
      (session_eq ho.2.1 : _ = some ((observed (ascii "api")).session 1))
    rw [if_neg (by decide +kernel)] at hsame
    exact ⟨s', hs', hsame⟩

/-- The role "job" is one level. -/
theorem job_event_reaches_observer :
    ∃ s', ((observed (ascii "job")).publishMeta (announcer (ascii "job")) 101 1 (announcement (ascii "job"))).mqtt[0]? =
      some s' ∧ SentEvent (announcer (ascii "job")) (announcedNode (ascii "job"))
        ((observed (ascii "job")).session 0) s' := by
  have ho : Observes (ascii "job") := by decide +kernel
  obtain ⟨hw, hp, hev⟩ := published ho (by decide +kernel)
  have hs := observer_present ho
  obtain ⟨-, -, -, hlisted, hsub⟩ := ho
  obtain ⟨s', hs', hiff⟩ :=
    apr_plus_sent_iff (announcer (ascii "job")) hw hp hev hs hlisted hsub
  have hfits : ((announcer (ascii "job")).registry.json.dump (announcedNode (ascii "job")).toJson).all
      (fun text => decide (Fits (topicOf (announcedNode (ascii "job"))) text)) = true := by decide +kernel
  refine ⟨s', hs', hiff.mpr ⟨by decide +kernel, fun text ht => ?_, .inl (by decide +kernel)⟩⟩
  rw [ht] at hfits
  simpa using hfits

end LightApr.Server.TopologyEvents
