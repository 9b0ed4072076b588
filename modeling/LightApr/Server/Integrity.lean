import LightApr.Core.RegistryIntegrity
import LightApr.Http.SessionEffect
import LightApr.Server.Step

/-! In every reachable state the registry is intact, and so an HTTP request is answered
unless its own parameters or a stored role stand against it. -/
namespace LightApr.Server
open LightApr.Core Lib Mqtt MqttSession World Registry

/-! What a publish hands over has been through the JSON parser. -/

theorem utf8_workersFromJson {j : Json} {workers : List Bytes} (hj : j.utf8 = true)
    (h : NodeInfo.workersFromJson j = some workers) : ∀ worker ∈ workers, Utf8.Valid worker := by
  unfold NodeInfo.workersFromJson at h
  split at h
  · rename_i items hf
    exact Json.utf8_getStrings (Json.utf8_field hj hf) h
  · obtain rfl := Option.some.inj h
    exact nofun

theorem utf8_endpointFromJson {j : Json} {endpoint : Option EndpointInfo} (hj : j.utf8 = true)
    (h : NodeInfo.endpointFromJson j = some endpoint) : ∀ ep ∈ endpoint, ep.Utf8 := by
  unfold NodeInfo.endpointFromJson at h
  split at h
  · obtain rfl := Option.some.inj h
    exact nofun
  · obtain rfl := Option.some.inj h
    exact nofun
  · rename_i e _ hf
    obtain ⟨ep, he, rfl⟩ := Option.map_eq_some_iff.mp h
    rintro ep' hm
    obtain rfl := Option.some.inj hm
    exact EndpointInfo.utf8_of_fromJson (Json.utf8_field hj hf) he

theorem utf8_metaExtra {j : Json} (hj : j.utf8 = true) : (metaExtra j).utf8 = true := by
  unfold metaExtra
  split
  · rename_i fields hf
    exact Json.utf8_field hj hf
  · rfl

theorem utf8_readMeta {lib : JsonLib} {role payload : Bytes} {m : NodeMeta}
    (h : readMeta lib role payload = some m) :
    (∀ worker ∈ m.workers, Utf8.Valid worker) ∧ (∀ ep ∈ m.endpoint, ep.Utf8) ∧ m.extra.utf8 = true := by
  obtain ⟨j, hp, h⟩ := Option.bind_eq_some_iff.mp h
  obtain ⟨role', -, h⟩ := Option.bind_eq_some_iff.mp h
  obtain ⟨workers, hw, h⟩ := Option.bind_eq_some_iff.mp h
  obtain ⟨endpoint, he, h⟩ := Option.bind_eq_some_iff.mp h
  obtain rfl := Option.some.inj h
  have hj := lib.parse_utf8 hp
  exact ⟨utf8_workersFromJson hj hw, utf8_endpointFromJson hj he, utf8_metaExtra hj⟩

theorem utf8_readExtra {lib : JsonLib} {payload worker : Bytes} {extra : Json}
    (h : readExtra lib payload = some (worker, extra)) : Utf8.Valid worker ∧ extra.utf8 = true := by
  obtain ⟨j, hp, h⟩ := Option.bind_eq_some_iff.mp h
  obtain ⟨worker', hw, h⟩ := Option.bind_eq_some_iff.mp h
  have hj := lib.parse_utf8 hp
  split at h
  · rename_i fields hf
    split at h
    · exact nomatch h
    · obtain ⟨rfl, rfl⟩ := Prod.mk.inj (Option.some.inj h)
      refine ⟨?_, Json.utf8_field hj hf⟩
      unfold Json.valueString? at hw
      split at hw
      · split at hw
        · rename_i v hv
          exact Json.utf8_getString (Json.utf8_field hj (by exact hv)) hw
        · obtain rfl := Option.some.inj hw
          exact Utf8.valid_nil
      · exact nomatch hw
  · exact nomatch h

/-! The invariant. -/

/-- The id a session holds and the address of its peer are text. -/
structure Readable (s : MqttSession) : Prop where
  nodeId : Utf8.Valid s.nodeId
  peerIp : ∀ b ∈ s.tcp.peerIp, b ≤ 0x7F

structure Integrity (cfg : ServerConfig) (w : World) : Prop where
  registry : Intact cfg.registry w.shared.registry
  sessions : All (fun _ => Readable) w

variable {cfg : ServerConfig} {now : Int} {i : Nat} {w w' : World} {s : MqttSession}
  {msgs : List (Nat × Bytes × Bytes)} {shared : Shared}

theorem Readable.deliverAll (h : Readable s) (msgs : List (Nat × Bytes × Bytes)) :
    Readable (deliverAll msgs s) := by
  obtain ⟨_, _, _, hd⟩ := deliverAll_same msgs s
  rw [hd]
  exact ⟨h.nodeId, h.peerIp⟩

theorem Integrity.effect (hw : Integrity cfg w) (he : Effect w w' i s msgs shared)
    (hr : Intact cfg.registry shared.registry)
    (hs : i < w.mqtt.length → Readable s) : Integrity cfg w' :=
  ⟨he.shared ▸ hr, hw.sessions.effect he (fun _ _ h => h.deliverAll msgs) hs⟩

/-- The registration of a session meets no extra that is no object. -/
def RegistersFreely (cfg : ServerConfig) (now : Int) (s : MqttSession) (m : NodeMeta) (r : Registry) : Prop :=
  Unobstructed cfg.registry (r.nodes.lookup (targetId now s.nodeId r)) m.workers m.extra

instance (cfg : ServerConfig) (now : Int) (s : MqttSession) (m : NodeMeta) (r : Registry) :
    Decidable (RegistersFreely cfg now s m r) :=
  inferInstanceAs (Decidable (Unobstructed _ _ _ _))

/-- A registration as a session makes it. -/
theorem Integrity.registration (hw : Integrity cfg w) (now : Int) (hi : i < w.mqtt.length) {payload : Bytes}
    {m : NodeMeta} (hm : readMeta cfg.registry.json (w.session i).role payload = some m) :
    Intact cfg.registry (registration cfg now (w.session i) m w.shared.registry).1 ∧
      ∃ node, (registration cfg now (w.session i) m w.shared.registry).1.nodes =
          w.shared.registry.nodes.insert (targetId now (w.session i).nodeId w.shared.registry) node ∧
        (RegistersFreely cfg now (w.session i) m w.shared.registry →
          (registration cfg now (w.session i) m w.shared.registry).2 = .event node) ∧
        (¬ RegistersFreely cfg now (w.session i) m w.shared.registry →
          (registration cfg now (w.session i) m w.shared.registry).2 = .threw) ∧
        node.id = targetId now (w.session i).nodeId w.shared.registry ∧
        (Utf8.Valid m.role → node.toJson.utf8 = true) := by
  have hs := hw.sessions.session hi
  obtain ⟨hworkers, hep, hextra⟩ := utf8_readMeta hm
  exact hw.registry.registerOrUpdateNode ⟨hworkers, hep, Utf8.valid_ascii hs.peerIp, hs.nodeId, hextra⟩ rfl

/-- A record that is announced has been stored, and nothing stood against it. -/
theorem registration_event (hw : Integrity cfg w) (hi : i < w.mqtt.length) {payload : Bytes} {m : NodeMeta}
    (hm : readMeta cfg.registry.json (w.session i).role payload = some m) {node : NodeInfo}
    (hev : (registration cfg now (w.session i) m w.shared.registry).2 = .event node) :
    RegistersFreely cfg now (w.session i) m w.shared.registry ∧
      (registration cfg now (w.session i) m w.shared.registry).1.nodes =
        w.shared.registry.nodes.insert (targetId now (w.session i).nodeId w.shared.registry) node ∧
      node.id = targetId now (w.session i).nodeId w.shared.registry ∧
      (Utf8.Valid m.role → node.toJson.utf8 = true) := by
  obtain ⟨-, node', hn, hfreely, hthrew, hid, htext⟩ := hw.registration now hi hm
  by_cases hfree : RegistersFreely cfg now (w.session i) m w.shared.registry
  · obtain rfl := Outcome.event.inj ((hfreely hfree).symm.trans hev)
    exact ⟨hfree, hn, hid, htext⟩
  · cases (hthrew hfree).symm.trans hev

theorem integrity_act (hi : i < w.mqtt.length) (hw : Integrity cfg w) (h : Act cfg now i w w') : Integrity cfg w' := by
  have hs := hw.sessions.session hi
  cases h with
  | own ho e =>
    refine hw.effect e hw.registry fun _ => ?_
    cases ho <;> exact ⟨hs.nodeId, hs.peerIp⟩
  | relay _ e => exact hw.effect e hw.registry fun _ => hs
  | publishMeta _ hm hl e =>
    obtain ⟨hr, -⟩ := hw.registration now hi hm
    refine hw.effect e hr fun _ => ⟨?_, hs.peerIp⟩
    rcases hl with ⟨node, hev, rfl⟩ | ⟨rfl, -⟩
    · obtain ⟨-, hn, -⟩ := registration_event hw hi hm hev
      exact (hr _ _ (by rw [hn, AList.lookup_insert])).utf8.id
    · exact hs.nodeId
  | publishExtra _ _ hx e =>
    obtain ⟨hworker, hextra⟩ := utf8_readExtra hx
    exact hw.effect e (hw.registry.updateNodeExtra hworker hextra rfl) fun _ => hs
  | close _ hnode e =>
    refine hw.effect e ?_ fun _ => ⟨hs.nodeId, hs.peerIp⟩
    rcases hnode with ⟨-, rfl, -⟩ | ⟨-, rfl, -⟩
    · exact hw.registry
    · exact hw.registry.markNodeGrace rfl

theorem readable_accepted (server : Nat) (remote : Option Address) (again : Bool) :
    Readable (accepted server remote again) := by
  refine ⟨Utf8.valid_nil, ?_⟩
  cases again with
  | false => exact nofun
  | true =>
    cases remote with
    | none => exact nofun
    | some address => exact address.ascii

theorem integrity_preserved (cfg : ServerConfig) : Preserved cfg (fun _ _ => True) (Integrity cfg) where
  rejected hw _ := ⟨hw.registry, hw.sessions⟩
  acceptedMqtt hw _ _ := ⟨hw.registry, hw.sessions.append rfl (readable_accepted _ _ _) rfl⟩
  acceptedHttp hw _ _ := ⟨hw.registry, hw.sessions⟩
  act hi hw h := integrity_act hi hw h
  input hi hw hin e := by
    obtain ⟨_, _, _, _, _, _, _, rfl, -⟩ := hin
    have hs := hw.sessions.session hi
    exact hw.effect e hw.registry fun _ => ⟨hs.nodeId, hs.peerIp⟩
  packet hi hw e := by
    have hs := hw.sessions.session hi
    exact hw.effect e hw.registry fun _ => ⟨hs.nodeId, hs.peerIp⟩
  transferred _ hi hw _ _ _ := by
    have hs := hw.sessions.session hi
    exact hw.effect (.ofUpdate _) hw.registry fun _ => ⟨hs.nodeId, hs.peerIp⟩
  http _ hw _ h := ⟨Registry.Stored.same hw.registry (Http.HttpSession.handle_effect h).registry.nodes, hw.sessions⟩
  destroyedMqtt hi hw _ := by
    have hs := hw.sessions.session hi
    exact hw.effect (.ofUpdate _) hw.registry fun _ => ⟨hs.nodeId, hs.peerIp⟩
  destroyedHttp _ hw _ := ⟨hw.registry, hw.sessions⟩
  removed hw ha := by
    refine ⟨?_, hw.sessions.announced ha fun _ _ h => h.deliverAll _⟩
    rw [ha.shared]
    exact hw.registry.removeNodePermanently rfl

theorem nodes_init (cfg : ServerConfig) : (init cfg).shared.registry.nodes = ∅ := by
  change ((List.range cfg.servers).foldl (fun r server => r.addEventCallback server) Registry.empty).nodes = ∅
  have key (servers : List Nat) (r : Registry) :
      (servers.foldl (fun r server => r.addEventCallback server) r).nodes = r.nodes := by
    induction servers generalizing r with
    | nil => rfl
    | cons server servers ih => rw [List.foldl_cons, ih, addEventCallback]
  exact key _ _

theorem integrity_init (cfg : ServerConfig) : Integrity cfg (init cfg) := by
  refine ⟨fun k node h => ?_, fun _ _ h => nomatch h⟩
  rw [nodes_init] at h
  exact nomatch h

/-- In every reachable state the registry is intact and every session readable. -/
theorem integrity_run {es : List World.Event} {C : World → World.Event → Prop}
    (h : (machine cfg).Run C (init cfg) es w) : Integrity cfg w :=
  (integrity_preserved cfg).run (integrity_init cfg) h.reaches

/-- **In every reachable state the router returns a response to a request exactly if the
condition of its route holds.** -/
theorem route_request_returns_iff (cfg : ServerConfig) {es : List World.Event} {w : World}
    (hrun : (machine cfg).Reaches (init cfg) es w) (env : Http.Readings) (req : Http.HttpRequest) :
    (Http.routeRequest cfg.http env req w.shared.registry).1.isSome = true ↔
      Http.Answerable cfg.http env req w.shared.registry :=
  Http.routeRequest_isSome (integrity_run hrun).registry req

theorem second_page_answerable : Http.Answerable oneListener.http .zero
    (Http.parseRawHttp .written (ascii "GET /registry?page=2 HTTP/1.1\r\n\r\n")) (init oneListener).shared.registry :=
  (route_request_returns_iff oneListener .start .zero _).mp (by decide +kernel)

/-- A page that is no number: `stoul` throws. -/
theorem page_abc_throws : ¬ ∀ (cfg : ServerConfig) (es : List World.Event) (w : World),
    (machine cfg).Reaches (init cfg) es w → ∀ (env : Http.Readings) (raw : Bytes),
      (Http.routeRequest cfg.http env (Http.parseRawHttp cfg.registry.order raw)
        w.shared.registry).1.isSome = true := by
  intro h
  have hthrows : (Http.routeRequest oneListener.http .zero (Http.parseRawHttp oneListener.registry.order
      (ascii "GET /registry?page=abc HTTP/1.1\r\n\r\n")) (init oneListener).shared.registry).1.isSome = false := by
    decide +kernel
  exact nomatch hthrows.symm.trans (h oneListener [] _ .start .zero _)

end LightApr.Server
