import LightApr.Server.Reconnection
import LightApr.Server.TopologyEvents

/-! When a publish of metadata takes place as a whole, or not at all. -/
namespace LightApr.Server.MetadataPublish
open LightApr.Core Lib Mqtt MqttSession World Registry Packet TopologyEvents
open Reconnection (handlePublish_meta)

/-- The payload names a role. -/
def NamesRole (lib : JsonLib) (payload : Bytes) : Prop :=
  ∃ j, lib.parse payload = some j ∧ (j.field? (ascii "role")).isSome = true

/-- At this second the record says already what a publish asks for. -/
structure SaysAlready (now : Int) (peerIp : Bytes) (m : NodeMeta) (old : NodeInfo) : Prop where
  role : old.role = m.role
  workers : old.workers = m.workers
  endpoint : old.endpoint = finalEndpoint peerIp m.endpoint
  status : old.status = .ok
  activeAt : old.activeAt = now
  expiresIn : old.expiresIn = none

/-- The session has a node, and its record says already what is asked for. -/
def Repeats (now : Int) (s : MqttSession) (m : NodeMeta) (r : Registry) : Prop :=
  s.nodeId ≠ [] ∧ ∃ old, r.nodes.lookup s.nodeId = some old ∧ SaysAlready now s.tcp.peerIp m old

/-- If the payload can be read, it names a role or the session's role is text; where the registration meets an extra
that is no object, nothing is left to change. -/
def Admits (cfg : ServerConfig) (now : Int) (s : MqttSession) (payload : Bytes) (r : Registry) : Prop :=
  ∀ m ∈ readMeta cfg.registry.json s.role payload,
    if RegistersFreely cfg now s m r then NamesRole cfg.registry.json payload ∨ Utf8.Valid s.role
    else Repeats now s m r

/-! The observers that are called. -/

/-- The observers that `notify` calls: one that throws is the last. -/
def reached (cfg : ServerConfig) (node : NodeInfo) : List (Nat × Nat) → List Nat
  | [] => []
  | (_, server) :: rest =>
    match cfg.registry.json.dump node.toJson with
    | none => [server]
    | some _ => server :: reached cfg node rest

/-- The observers that a publish of metadata calls, with the record. -/
def called (cfg : ServerConfig) (now : Int) (s : MqttSession) (payload : Bytes) (r : Registry) :
    List (Nat × NodeInfo) :=
  match readMeta cfg.registry.json s.role payload with
  | none => []
  | some m =>
    match registration cfg now s m r with
    | (r', .event node) => (reached cfg node r'.eventCbs).map fun server => (server, node)
    | (_, .refused) | (_, .threw) => []

/-- The registry holds the metadata, the session has the id, and every observer has sent the record to its listener. -/
structure Taken (cfg : ServerConfig) (now : Int) (i : Nat) (m : NodeMeta) (node : NodeInfo) (text : Bytes)
    (w w' : World) : Prop where
  committed : registration cfg now (w.session i) m w.shared.registry = (w'.shared.registry, .event node)
  stored : w'.shared.registry.nodes.lookup node.id = some node
  role : node.role = m.role
  workers : node.workers = m.workers
  endpoint : node.endpoint = finalEndpoint (w.session i).tcp.peerIp m.endpoint
  status : node.status = .ok
  nodeId : (w'.session i).nodeId = node.id
  printed : cfg.registry.json.dump node.toJson = some text
  observed : ∃ s, w'.mqtt = (w.mqtt.set i s).map
    (deliverAll (w.shared.registry.eventCbs.map fun observer => (observer.2, ascii "apr/" ++ node.role, text)))

/-- The same registry, whatever the order of its nodes. -/
structure SameRegistry (r r' : Registry) : Prop where
  nodes : ∀ k, r'.nodes.lookup k = r.nodes.lookup k
  rest : { r' with nodes := r.nodes } = r

/-- The registry with its gauges, the session's id and the other sessions are as before. -/
structure Untouched (i : Nat) (w w' : World) : Prop where
  registry : SameRegistry w.shared.registry w'.shared.registry
  nodeId : (w'.session i).nodeId = (w.session i).nodeId
  observed : ∃ s, w'.mqtt = w.mqtt.set i s

inductive AllOrNothing (cfg : ServerConfig) (now : Int) (i : Nat) (payload : Bytes) (w w' : World) : Prop
  | all {m : NodeMeta} {node : NodeInfo} {text : Bytes} :
      readMeta cfg.registry.json (w.session i).role payload = some m → Taken cfg now i m node text w w' →
      called cfg now (w.session i) payload w.shared.registry =
        w.shared.registry.eventCbs.map (fun observer => (observer.2, node)) → AllOrNothing cfg now i payload w w'
  | nothing : Untouched i w w' → called cfg now (w.session i) payload w.shared.registry = [] →
      AllOrNothing cfg now i payload w w'

variable {cfg : ServerConfig} {now : Int} {i : Nat} {w : World} {node : NodeInfo} {m : NodeMeta} {pub : MqttPublish}
  {payload data : Bytes}

/-- Only a role that the payload does not name can be anything else than text. -/
theorem utf8_role {lib : JsonLib} {role : Bytes} (h : readMeta lib role payload = some m) :
    Utf8.Valid m.role ↔ NamesRole lib payload ∨ Utf8.Valid role := by
  obtain ⟨j, hj, h⟩ := Option.bind_eq_some_iff.mp h
  obtain ⟨role', hrole, h⟩ := Option.bind_eq_some_iff.mp h
  obtain ⟨workers, -, h⟩ := Option.bind_eq_some_iff.mp h
  obtain ⟨endpoint, -, h⟩ := Option.bind_eq_some_iff.mp h
  obtain rfl := Option.some.inj h
  have hutf8 := lib.parse_utf8 hj
  cases j with
  | obj fields =>
    unfold Json.valueString? at hrole
    dsimp only at hrole
    cases hf : fields.lookup (ascii "role") with
    | none =>
      rw [hf] at hrole
      obtain rfl := Option.some.inj hrole
      have hunnamed : ¬ NamesRole lib payload := by
        rintro ⟨j', hj', hnamed⟩
        obtain rfl := Option.some.inj (hj.symm.trans hj')
        rw [Json.field?, hf] at hnamed
        cases hnamed
      exact ⟨.inr, fun h => h.resolve_left hunnamed⟩
    | some v =>
      rw [hf] at hrole
      have hnamed : NamesRole lib payload := ⟨_, hj, by rw [Json.field?, hf]; rfl⟩
      exact ⟨fun _ => .inl hnamed, fun _ => Json.utf8_getString (Json.utf8_field hutf8 hf) hrole⟩
  | null | bool _ | int _ | float _ _ | str _ | arr _ => cases hrole

theorem reached_all {text : Bytes} (h : cfg.registry.json.dump node.toJson = some text) (observers : List (Nat × Nat)) :
    reached cfg node observers = observers.map Prod.snd := by
  induction observers with
  | nil => rfl
  | cons observer rest ih =>
    rw [reached, h]
    dsimp only
    rw [ih, List.map_cons]

theorem reached_ne_nil {observers : List (Nat × Nat)} (h : observers ≠ []) : reached cfg node observers ≠ [] := by
  obtain ⟨observer, rest, rfl⟩ := List.exists_cons_of_ne_nil h
  rw [reached]
  cases cfg.registry.json.dump node.toJson <;> exact List.cons_ne_nil _ _

/-- Where there is a session, there is an observer. -/
theorem observers_ne_nil (hw : Visited cfg w) (hi : i < w.mqtt.length) : w.shared.registry.eventCbs ≠ [] := by
  intro hnone
  have hwired := visited_wired hw
  have hserver := hwired.sessions.session hi
  have hlen := congrArg List.length hwired.observers
  rw [hnone, List.map_nil, List.length_nil, List.length_range] at hlen
  rw [← hlen] at hserver
  exact absurd hserver (Nat.not_lt_zero _)

/-- The registration of a session leads to `r'`, with `node` under its id; it is announced unless an extra is met that
is no object. -/
structure Records (cfg : ServerConfig) (now : Int) (s : MqttSession) (m : NodeMeta) (r r' : Registry)
    (node : NodeInfo) : Prop where
  committed : (registration cfg now s m r).1 = r'
  announced : RegistersFreely cfg now s m r → (registration cfg now s m r).2 = .event node
  threw : ¬ RegistersFreely cfg now s m r → (registration cfg now s m r).2 = .threw
  observers : r'.eventCbs = r.eventCbs
  id : node.id = targetId now s.nodeId r
  stored : r'.nodes.lookup node.id = some node
  role : node.role = m.role
  workers : node.workers = m.workers
  endpoint : node.endpoint = finalEndpoint s.tcp.peerIp m.endpoint
  status : node.status = .ok
  printed : node.toJson.utf8 = true ↔ Utf8.Valid m.role

/-- There is one record under the id. -/
theorem Records.unique {s : MqttSession} {r r' : Registry} {node' : NodeInfo} (h : Records cfg now s m r r' node)
    (h' : Records cfg now s m r r' node') : node = node' := by
  have hstored := h.stored
  rw [h.id, ← h'.id, h'.stored] at hstored
  exact (Option.some.inj hstored).symm

/-- A registration as the session makes it. -/
theorem registration_record (hw : Integrity cfg w) (now : Int) (hi : i < w.mqtt.length)
    (hm : readMeta cfg.registry.json (w.session i).role payload = some m) :
    ∃ node, Records cfg now (w.session i) m w.shared.registry
      (registration cfg now (w.session i) m w.shared.registry).1 node := by
  obtain ⟨hintact, node, hn, hev, hthrew, hid, -⟩ := hw.registration now hi hm
  obtain ⟨⟨r', out⟩, hresult⟩ : ∃ x, registration cfg now (w.session i) m w.shared.registry = x := ⟨_, rfl⟩
  rw [hresult] at hintact hn hev hthrew ⊢
  obtain ⟨node', hn', hobs, hreg, -⟩ := registerOrUpdateNode_effect hresult
  have hstored : r'.nodes.lookup node.id = some node := by
    rw [hid, hn]
    exact AList.lookup_insert _
  obtain rfl : node' = node := by
    rw [hid, hn', AList.lookup_insert] at hstored
    exact Option.some.inj hstored
  refine ⟨node', by rw [hresult], by rwa [hresult], by rwa [hresult], hobs.eventCbs, hid, hstored, hreg.role,
    hreg.workers, hreg.endpoint, hreg.status, ?_⟩
  rw [NodeInfo.utf8_toJson (hintact _ _ hstored).utf8, hreg.role]

theorem saysAlready_iff {peerIp : Bytes} : SaysAlready now peerIp m node ↔
    Registry.announced now m.role m.workers (finalEndpoint peerIp m.endpoint) node = node := by
  constructor
  · rintro ⟨hrole, hworkers, hendpoint, hstatus, hactive, hexpires⟩
    rw [Registry.announced, ← hrole, ← hworkers, ← hendpoint, ← hstatus, ← hactive, ← hexpires]
  · intro h
    rw [← h]
    exact ⟨rfl, rfl, rfl, rfl, rfl, rfl⟩

/-- A registration that throws changes nothing exactly if it has nothing to change. -/
theorem registration_same_iff (hw : Integrity cfg w) (now : Int) {s : MqttSession}
    (hno : ¬ RegistersFreely cfg now s m w.shared.registry) :
    SameRegistry w.shared.registry (registration cfg now s m w.shared.registry).1 ↔
      Repeats now s m w.shared.registry := by
  obtain ⟨⟨r', out⟩, hresult⟩ : ∃ x, registration cfg now s m w.shared.registry = x := ⟨_, rfl⟩
  rw [hresult]
  obtain ⟨-, ⟨old, hold, rfl⟩ | ⟨hnone, hsome⟩⟩ := registerOrUpdateNode_obstructed
    (fun old ho => (hw.registry _ _ ho).sound.formed) hno hresult
  · constructor
    · rintro ⟨hnodes, hrest⟩
      have hne : s.nodeId ≠ [] := by
        intro hnil
        have hcounter := congrArg Registry.idCounter hrest
        rw [drawId, if_pos hnil] at hcounter
        simp only [sizeMax] at hcounter
        omega
      have hkept := hnodes (targetId now s.nodeId w.shared.registry)
      dsimp only at hkept
      rw [AList.lookup_insert, hold] at hkept
      rw [targetId, if_neg hne] at hold
      exact ⟨hne, old, hold, saysAlready_iff.mpr (Option.some.inj hkept)⟩
    · rintro ⟨hne, old', hold', hsays⟩
      have htarget : targetId now s.nodeId w.shared.registry = s.nodeId := if_neg hne
      rw [htarget] at hold ⊢
      obtain rfl := Option.some.inj (hold.symm.trans hold')
      rw [saysAlready_iff.mp hsays, drawId, if_neg hne]
      refine ⟨fun k => ?_, rfl⟩
      by_cases hk : k = s.nodeId
      · rw [hk, AList.lookup_insert, hold]
      · exact AList.lookup_insert_ne hk
  · refine iff_of_false (fun h => ?_) ?_
    · rw [h.nodes, hnone] at hsome
      cases hsome
    · rintro ⟨hne, old, hold, -⟩
      rw [targetId, if_neg hne, hold] at hnone
      cases hnone

/-- The acknowledgement is no concern of the registration. -/
theorem registration_acknowledge (cfg : ServerConfig) (now : Int) (m : NodeMeta) (pub : MqttPublish) (s : MqttSession)
    (r : Registry) : registration cfg now (s.acknowledge pub) m r = registration cfg now s m r := by
  unfold acknowledge
  split <;> rfl

theorem nodeId_acknowledge (pub : MqttPublish) (s : MqttSession) : (s.acknowledge pub).nodeId = s.nodeId := by
  unfold acknowledge
  split <;> rfl

/-- A publish that cannot be read. -/
theorem nothing_of_unread (cfg : ServerConfig) (now : Int) (hi : i < w.mqtt.length)
    (hm : readMeta cfg.registry.json (w.session i).role pub.payload = none) :
    AllOrNothing cfg now i pub.payload w (w.update i (acknowledge pub)) := by
  refine .nothing ⟨⟨fun _ => rfl, rfl⟩, ?_, _, rfl⟩ ?_
  · rw [session_update hi]
    exact nodeId_acknowledge pub _
  · rw [called, hm]

/-- A publish that has come as far as the observers. -/
structure Announces (cfg : ServerConfig) (now : Int) (i : Nat) (payload : Bytes) (m : NodeMeta) (node : NodeInfo)
    (w w' : World) : Prop where
  committed : registration cfg now (w.session i) m w.shared.registry = (w'.shared.registry, .event node)
  called : called cfg now (w.session i) payload w.shared.registry =
    (reached cfg node w.shared.registry.eventCbs).map fun server => (server, node)
  observed : ∃ s, w'.mqtt = (w.mqtt.set i s).map (deliverAll (nodeMessages cfg node w.shared.registry.eventCbs))
  nodeId : node.toJson.utf8 = true → (w'.session i).nodeId = node.id

theorem publishMeta_announces (hw : Visited cfg w) (now : Int) (hi : i < w.mqtt.length)
    (hm : readMeta cfg.registry.json (w.session i).role pub.payload = some m)
    (hfree : RegistersFreely cfg now (w.session i) m w.shared.registry) :
    ∃ node, Announces cfg now i pub.payload m node w ((w.update i (acknowledge pub)).publishMeta cfg now i m) := by
  obtain ⟨node, hrecord⟩ := registration_record (visited_integrity hw) now hi hm
  have hcbs := hrecord.observers
  have hresult : registration cfg now (w.session i) m w.shared.registry =
    ((registration cfg now (w.session i) m w.shared.registry).1, .event node) := Prod.ext rfl (hrecord.announced hfree)
  obtain ⟨r', hr'⟩ : ∃ r', (registration cfg now (w.session i) m w.shared.registry).1 = r' := ⟨_, rfl⟩
  rw [hr'] at hresult hcbs
  have hi₁ : i < (w.update i (acknowledge pub)).mqtt.length := by simpa using hi
  obtain ⟨nodeId, hlearns, he⟩ := publishMeta_effect cfg now m hi₁
  rw [session_update hi, registration_acknowledge, shared_update, hresult] at hlearns he
  let learned : MqttSession :=
    (((w.session i).acknowledge pub).recordRegistration now m w.shared.registry).assignNode nodeId
  refine ⟨node, by rw [hresult, he.shared], ?_, ⟨learned, ?_⟩, fun hu => ?_⟩
  · rw [called, hm]
    dsimp only
    rw [hresult]
    dsimp only
    rw [hcbs]
  · rw [he.mqtt, update, setSession, List.set_set, eventMessages, hcbs]
  · rw [he.session_self hi₁]
    obtain ⟨_, _, _, hd⟩ := deliverAll_same (eventMessages cfg (r', .event node)) learned
    rw [hd]
    rcases hlearns with ⟨node', hout, hid⟩ | ⟨-, hout | ⟨node', hout, hno⟩⟩
    · obtain rfl := Outcome.event.inj hout
      exact hid
    · cases hout
    · obtain rfl := Outcome.event.inj hout
      cases hno.symm.trans hu

/-- What a publish that is read does to the registry. -/
theorem registry_publishMeta (cfg : ServerConfig) (now : Int) (m : NodeMeta) (pub : MqttPublish)
    (hi : i < w.mqtt.length) :
    ((w.update i (acknowledge pub)).publishMeta cfg now i m).shared.registry =
      (registration cfg now (w.session i) m w.shared.registry).1 := by
  obtain ⟨_, -, he⟩ := publishMeta_effect cfg now m (w := w.update i (acknowledge pub)) (by simpa using hi)
  rw [he.shared, session_update hi, registration_acknowledge, shared_update]

/-- A publish that is read puts the record into the registry. -/
theorem publish_record (hw : Visited cfg w) (now : Int) (hi : i < w.mqtt.length)
    (ha : (w.session i).authenticated = true)
    {data : Bytes} (hpub : decodePublish data = some pub) (ht : pub.topic = ascii "apr/node/meta")
    (hm : readMeta cfg.registry.json (w.session i).role pub.payload = some m) :
    ∃ node, Records cfg now (w.session i) m w.shared.registry
      (w.handlePublish cfg now i data).shared.registry node := by
  have hpublish := handlePublish_meta cfg now ha hpub ht
  rw [hm] at hpublish
  dsimp only at hpublish
  rw [hpublish, registry_publishMeta cfg now m pub hi]
  exact registration_record (visited_integrity hw) now hi hm

theorem all_of_text (hw : Visited cfg w) (now : Int) (hi : i < w.mqtt.length)
    (hm : readMeta cfg.registry.json (w.session i).role pub.payload = some m)
    (hfree : RegistersFreely cfg now (w.session i) m w.shared.registry) (hrole : Utf8.Valid m.role) :
    AllOrNothing cfg now i pub.payload w ((w.update i (acknowledge pub)).publishMeta cfg now i m) := by
  obtain ⟨node, hrecord⟩ := registration_record (visited_integrity hw) now hi hm
  obtain ⟨_, hannounces⟩ := publishMeta_announces hw now hi hm hfree
  obtain rfl : node = _ :=
    Outcome.event.inj ((hrecord.announced hfree).symm.trans (congrArg Prod.snd hannounces.committed))
  rw [hannounces.committed] at hrecord
  have hutf8 := hrecord.printed.mpr hrole
  obtain ⟨text, htext⟩ := cfg.registry.json.dump_of_utf8 hutf8
  obtain ⟨s, hmqtt⟩ := hannounces.observed
  refine .all hm ⟨hannounces.committed, hrecord.stored, hrecord.role, hrecord.workers, hrecord.endpoint, hrecord.status,
    hannounces.nodeId hutf8, htext, s, ?_⟩ ?_
  · rw [hmqtt, nodeMessages, htext]
  · rw [hannounces.called, reached_all htext, List.map_map]
    rfl

/-- The record of a role that is no text is stored, and cannot be announced. -/
theorem neither_of_not_text (hw : Visited cfg w) (now : Int) (hi : i < w.mqtt.length)
    (hm : readMeta cfg.registry.json (w.session i).role pub.payload = some m)
    (hfree : RegistersFreely cfg now (w.session i) m w.shared.registry) (hrole : ¬ Utf8.Valid m.role) :
    ¬ AllOrNothing cfg now i pub.payload w ((w.update i (acknowledge pub)).publishMeta cfg now i m) := by
  obtain ⟨node, hrecord⟩ := registration_record (visited_integrity hw) now hi hm
  obtain ⟨_, hannounces⟩ := publishMeta_announces hw now hi hm hfree
  rintro (⟨hm', htaken, -⟩ | ⟨-, hnone⟩)
  · obtain rfl := Option.some.inj (hm.symm.trans hm')
    obtain rfl : node = _ :=
      Outcome.event.inj ((hrecord.announced hfree).symm.trans (congrArg Prod.snd htaken.committed))
    exact hrole (hrecord.printed.mp (cfg.registry.json.utf8_of_dump htaken.printed))
  · have hcalled := hannounces.called
    rw [hnone] at hcalled
    exact reached_ne_nil (observers_ne_nil hw hi) (List.map_eq_nil_iff.mp hcalled.symm)

/-- A registration that throws calls nobody, and the session keeps the id it had. -/
theorem all_or_nothing_of_threw (hw : Visited cfg w) (now : Int) (hi : i < w.mqtt.length)
    (hm : readMeta cfg.registry.json (w.session i).role pub.payload = some m)
    (hno : ¬ RegistersFreely cfg now (w.session i) m w.shared.registry) :
    AllOrNothing cfg now i pub.payload w ((w.update i (acknowledge pub)).publishMeta cfg now i m) ↔
      Repeats now (w.session i) m w.shared.registry := by
  obtain ⟨node, hrecord⟩ := registration_record (visited_integrity hw) now hi hm
  have hthrew := hrecord.threw hno
  have hi₁ : i < (w.update i (acknowledge pub)).mqtt.length := by simpa using hi
  have hsame := registration_same_iff (visited_integrity hw) now hno
  rw [← registry_publishMeta cfg now m pub hi] at hsame
  constructor
  · rintro (⟨hm', htaken, -⟩ | ⟨huntouched, -⟩)
    · obtain rfl := Option.some.inj (hm.symm.trans hm')
      cases hthrew.symm.trans (congrArg Prod.snd htaken.committed)
    · exact hsame.mp huntouched.registry
  · intro hrepeats
    refine .nothing ⟨hsame.mpr hrepeats, ?_, ?_⟩ ?_
    · rw [Reconnection.nodeId_publishMeta_threw hi₁
        (by rwa [session_update hi, registration_acknowledge, shared_update]),
        session_update hi, nodeId_acknowledge]
    · obtain ⟨nodeId, -, he⟩ := publishMeta_effect cfg now m hi₁
      rw [session_update hi, registration_acknowledge, shared_update] at he
      have hsilent : eventMessages cfg (registration cfg now (w.session i) m w.shared.registry) = [] := by
        rw [eventMessages, hthrew]
      have hmqtt := he.mqtt
      rw [hsilent, update, setSession, List.set_set] at hmqtt
      exact ⟨_, hmqtt.trans (List.map_id _)⟩
    · obtain ⟨r', hr'⟩ : ∃ r', (registration cfg now (w.session i) m w.shared.registry).1 = r' := ⟨_, rfl⟩
      rw [called, hm]
      dsimp only
      rw [show registration cfg now (w.session i) m w.shared.registry = (r', .threw) from Prod.ext hr' hthrew]

/-- **Whenever an authenticated session handles a publish of metadata, it takes place as a whole or not at all exactly
if the payload cannot be read, or names a role, or the session's own role is text, and the registration meets no extra
that is no object, unless there is nothing left to change. Otherwise the node is stored and the registration or the
first observer throws.** -/
theorem metadata_all_or_nothing_iff (cfg : ServerConfig) {w : World} (hw : Visited cfg w) (now : Int) {i : Nat}
    (hi : i < w.mqtt.length) (ha : (w.session i).authenticated = true) {data : Bytes} {pub : MqttPublish}
    (hpub : decodePublish data = some pub) (ht : pub.topic = ascii "apr/node/meta") :
    AllOrNothing cfg now i pub.payload w (w.handlePublish cfg now i data) ↔
      Admits cfg now (w.session i) pub.payload w.shared.registry := by
  rw [handlePublish_meta cfg now ha hpub ht, Admits]
  cases hm : readMeta cfg.registry.json (w.session i).role pub.payload with
  | none => exact iff_of_true (nothing_of_unread cfg now hi hm) fun m h => by cases h
  | some m =>
    have hone {P : NodeMeta → Prop} : (∀ m' ∈ some m, P m') ↔ P m := by simp
    rw [hone]
    dsimp only
    by_cases hfree : RegistersFreely cfg now (w.session i) m w.shared.registry
    · rw [if_pos hfree, ← utf8_role hm]
      constructor
      · intro h
        by_contra hrole
        exact neither_of_not_text hw now hi hm hfree hrole h
      · exact all_of_text hw now hi hm hfree
    · rw [if_neg hfree]
      exact all_or_nothing_of_threw hw now hi hm hfree

/-! A session without a role in its metadata. -/

private def joined (name : UInt8) : World :=
  ((machine rolelessListener).exec (init rolelessListener)
    [.acceptMqtt 0 0 none false, .mqtt 100 0 (.read (connectAs [name]))]).getD
    (init rolelessListener)

/-- The session is there, its role is its user name, and the metadata take that role. -/
private abbrev Joins (name : UInt8) : Prop :=
  ((machine rolelessListener).exec (init rolelessListener)
      [.acceptMqtt 0 0 none false, .mqtt 100 0 (.read (connectAs [name]))]).isSome = true ∧
    0 < (joined name).mqtt.length ∧ ((joined name).session 0).authenticated = true ∧
    ((joined name).session 0).role = [name] ∧ (decodePublish rolelessPacket).isSome = true ∧
    ∀ pub ∈ decodePublish rolelessPacket, pub.topic = ascii "apr/node/meta" ∧
      (readMeta rolelessListener.registry.json [name] pub.payload).isSome = true ∧
      ∀ m ∈ readMeta rolelessListener.registry.json [name] pub.payload, m.role = [name]

private theorem visited_joined {name : UInt8} (h : Joins name) : Visited rolelessListener (joined name) :=
  .reached ((machine rolelessListener).reaches_exec h.1)

private theorem joins_text : Joins 0x6A := by decide +kernel

private theorem joins_no_text : Joins 0xFF := by decide +kernel

/-- The role "j" is registered and announced. -/
theorem text_role_taken : ∃ pub, decodePublish rolelessPacket = some pub ∧
    AllOrNothing rolelessListener 101 0 pub.payload
    (joined 0x6A) ((joined 0x6A).handlePublish rolelessListener 101 0 rolelessPacket) := by
  obtain ⟨-, hi, ha, hrole, hdecoded, hmeta⟩ := joins_text
  obtain ⟨pub, hpub⟩ := Option.isSome_iff_exists.mp hdecoded
  refine ⟨pub, hpub, ?_⟩
  refine (metadata_all_or_nothing_iff rolelessListener (visited_joined joins_text) 101 hi ha hpub
    (hmeta pub hpub).1).mpr ?_
  intro m _
  rw [if_pos (.inl rfl), hrole]
  exact .inr (by decide)

/-- The role 0xFF is registered, and the session does not learn the id of its node. -/
theorem no_text_role_half_taken : ¬ ∀ (cfg : ServerConfig) (w : World), Visited cfg w → ∀ (now : Int) (i : Nat),
    i < w.mqtt.length → (w.session i).authenticated = true → ∀ (data : Bytes) (pub : MqttPublish),
      decodePublish data = some pub → pub.topic = ascii "apr/node/meta" →
      AllOrNothing cfg now i pub.payload w (w.handlePublish cfg now i data) := by
  intro h
  obtain ⟨-, hi, ha, hrole, hdecoded, hmeta⟩ := joins_no_text
  obtain ⟨pub, hpub⟩ := Option.isSome_iff_exists.mp hdecoded
  obtain ⟨htopic, hread, hnamed⟩ := hmeta pub hpub
  obtain ⟨m, hm⟩ := Option.isSome_iff_exists.mp hread
  have hall := h rolelessListener _ (visited_joined joins_no_text) 101 0 hi ha _ _ hpub htopic
  rw [handlePublish_meta rolelessListener 101 ha hpub htopic, hrole, hm] at hall
  refine neither_of_not_text (visited_joined joins_no_text) 101 hi (by rw [hrole]; exact hm) (.inl rfl) ?_ hall
  rw [hnamed m hm]
  decide

end LightApr.Server.MetadataPublish
