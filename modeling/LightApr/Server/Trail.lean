import LightApr.Core.RegistryIds
import LightApr.Http.SessionEffect
import LightApr.Server.Step

/-! The registry operations behind a run of the process, and the messages their events
make the listeners broadcast. -/
namespace LightApr.Server
open LightApr.Core Lib Mqtt MqttSession World Registry

/-- The id and the role that a registration hands to the registry. -/
def registered? : Operation → Option (Bytes × Bytes)
  | .registerOrUpdateNode _ role _ _ _ existingId _ => some (existingId, role)
  | _ => none

def registeredBy (s : MqttSession) : List (Bytes × Bytes) := s.registrations.map fun r => (r.nodeId, r.asked.role)

/-- The operations lead from the empty registry to the present one, and the registrations
among them are those that the sessions made. -/
structure Trail (cfg : ServerConfig) (ops : List Operation) (w : World) : Prop where
  registry : w.shared.registry = after cfg.registry .empty ops
  registrations : (ops.filterMap registered?).Perm (w.mqtt.flatMap registeredBy)

/-- The operations that session `s` can run. -/
inductive Calls (now : Int) (s : MqttSession) : Operation → Prop
  | registerOrUpdateNode (role : Bytes) (workers : List Bytes) (ep : Option EndpointInfo) (extra : Json) :
      Calls now s (.registerOrUpdateNode now role workers ep s.tcp.peerIp s.nodeId extra)
  | updateNodeExtra (worker : Bytes) (extra : Json) : s.nodeId ≠ [] →
      Calls now s (.updateNodeExtra now s.nodeId worker extra)
  | markNodeGrace : s.nodeId ≠ [] → Calls now s (.markNodeGrace now s.nodeId)

/-- The message is the event of an operation: the JSON of the node, under the node's role. -/
def FromRegistry (cfg : ServerConfig) (r : Registry) (ops : List Operation) (topic payload : Bytes) : Prop :=
  ∃ node ∈ announcedBy cfg.registry r ops, topic = ascii "apr/" ++ node.role ∧
    cfg.registry.json.dump node.toJson = some payload

variable {cfg : ServerConfig} {now : Int} {i : Nat} {w w' : World} {s : MqttSession} {r : Registry}
  {msgs : List (Nat × Bytes × Bytes)} {shared : Shared} {ops more : List Operation} {topic payload : Bytes}

theorem FromRegistry.append (h : FromRegistry cfg r ops topic payload) (more : List Operation) :
    FromRegistry cfg r (ops ++ more) topic payload := by
  obtain ⟨node, hn, h⟩ := h
  refine ⟨node, ?_, h⟩
  rw [announcedBy, along_append]
  exact List.mem_append_left _ hn

theorem FromRegistry.later (h : FromRegistry cfg (after cfg.registry r ops) more topic payload) :
    FromRegistry cfg r (ops ++ more) topic payload := by
  obtain ⟨node, hn, h⟩ := h
  refine ⟨node, ?_, h⟩
  rw [announcedBy, along_append]
  exact List.mem_append_right _ hn

theorem fromRegistry_of_mem (op : Operation) {m : Nat × Bytes × Bytes}
    (h : m ∈ eventMessages cfg (op.run cfg.registry r)) : FromRegistry cfg r [op] m.2.1 m.2.2 := by
  unfold eventMessages at h
  split at h
  · rename_i node hev
    unfold nodeMessages at h
    split at h
    · rename_i text ht
      obtain ⟨observer, -, rfl⟩ := List.mem_map.mp h
      refine ⟨node, ?_, rfl, ht⟩
      simp [announcedBy, along, hev, Outcome.announced]
    · cases h
  · cases h
  · cases h

/-! One act. -/

/-- Session `i` becomes `s`, runs at most one operation, and `msgs` are broadcast. -/
structure Performed (cfg : ServerConfig) (now : Int) (w w' : World) (i : Nat) (s : MqttSession)
    (op? : Option Operation) (msgs : List (Nat × Bytes × Bytes)) : Prop where
  mqtt : w'.mqtt = (w.mqtt.set i s).map (deliverAll msgs)
  registry : w'.shared.registry = after cfg.registry w.shared.registry op?.toList
  calls : ∀ op ∈ op?, Calls now (w.session i) op
  registrations : registeredBy s = registeredBy (w.session i) ++ op?.toList.filterMap registered?
  /-- an id is learned from the event of the operation -/
  nodeId : s.nodeId = (w.session i).nodeId ∨ ∃ op ∈ op?, ∃ node,
    (op.run cfg.registry w.shared.registry).2 = .event node ∧ s.nodeId = node.id
  authenticated : (w.session i).authenticated = true → s.authenticated = true
  handled : s.handled = (w.session i).handled
  server : s.server = (w.session i).server
  broadcasts : s.broadcasts = (w.session i).broadcasts
  messages : (∀ m ∈ msgs, FromRegistry cfg w.shared.registry op?.toList m.2.1 m.2.2) ∨ Relays (w.session i) msgs

private theorem Own.same {s s' : MqttSession} (h : Own cfg s s') : registeredBy s' = registeredBy s ∧
    s'.nodeId = s.nodeId ∧ (s.authenticated = true → s'.authenticated = true) ∧ s'.handled = s.handled ∧
    s'.server = s.server ∧ s'.broadcasts = s.broadcasts := by
  cases h with
  | authenticate => exact ⟨rfl, rfl, fun _ => rfl, rfl, rfl, rfl⟩
  | write | startClosing | identify | subscribe | unlist => exact ⟨rfl, rfl, id, rfl, rfl, rfl⟩

theorem Act.performed (h : Act cfg now i w w') : ∃ s op? msgs, Performed cfg now w w' i s op? msgs := by
  have call {s : MqttSession} {op : Operation} (hc : Calls now (w.session i) op)
      (he : w'.mqtt = (w.mqtt.set i s).map (deliverAll (eventMessages cfg (op.run cfg.registry w.shared.registry))))
      (hr : w'.shared.registry = (op.run cfg.registry w.shared.registry).1)
      (hs : registeredBy s = registeredBy (w.session i) ++ [op].filterMap registered?)
      (hid : s.nodeId = (w.session i).nodeId ∨ ∃ node,
        (op.run cfg.registry w.shared.registry).2 = .event node ∧ s.nodeId = node.id)
      (hsame : s.authenticated = (w.session i).authenticated ∧ s.handled = (w.session i).handled ∧
        s.server = (w.session i).server ∧ s.broadcasts = (w.session i).broadcasts) : ∃ s op? msgs,
          Performed cfg now w w' i s op? msgs := by
    refine ⟨s, some op, _, he, hr, fun op' hm => Option.some.inj hm ▸ hc, hs, hid.imp_right fun h => ⟨op, rfl, h⟩,
      fun ha => hsame.1.trans ha, hsame.2.1, hsame.2.2.1, hsame.2.2.2, .inl fun m hm => fromRegistry_of_mem _ hm⟩
  cases h with
  | @own s ho e =>
    obtain ⟨hreg, hid, hauth, hhandled, hserver, hsent⟩ := ho.same
    refine ⟨s, none, [], e.mqtt, congrArg Shared.registry e.shared, by simp, ?_, .inl hid, hauth, hhandled, hserver,
      hsent, .inl (by simp)⟩
    simpa using hreg
  | @relay msgs hr e =>
    refine ⟨_, none, msgs, e.mqtt, congrArg Shared.registry e.shared, by simp, ?_, .inl rfl, id, rfl, rfl, rfl,
      .inr hr⟩
    simp
  | @publishMeta payload nodeId m =>
    rename_i hm hl e
    refine call (.registerOrUpdateNode m.role m.workers m.endpoint m.extra) e.mqtt
      (congrArg Shared.registry e.shared) ?_ ?_ ⟨rfl, rfl, rfl, rfl⟩
    · simp [registeredBy, registered?, recordRegistration, assignNode]
    · rcases hl with h | ⟨h, -⟩
      · exact .inr h
      · exact .inl h
  | publishExtra _ hn _ e =>
    exact call (.updateNodeExtra _ _ hn) e.mqtt (congrArg Shared.registry e.shared) (List.append_nil _).symm
      (.inl rfl) ⟨rfl, rfl, rfl, rfl⟩
  | close _ hnode e =>
    rcases hnode with ⟨-, rfl, rfl⟩ | ⟨hn, rfl, rfl⟩
    · have hr : w'.shared.registry = w.shared.registry := by rw [e.shared]
      exact ⟨_, none, [], e.mqtt, hr, by simp, (List.append_nil _).symm, .inl rfl, id, rfl, rfl, rfl,
        .inl (by simp)⟩
    · exact call (.markNodeGrace hn) e.mqtt (congrArg Shared.registry e.shared) (List.append_nil _).symm
        (.inl rfl) ⟨rfl, rfl, rfl, rfl⟩

/-! The trail of a run. -/

theorem flatMap_set_perm {α β : Type} {f : α → List β} {l : List α} {i : Nat} {x y : α} {ys : List β}
    (hx : l[i]? = some x) (hy : f y = f x ++ ys) : ((l.set i y).flatMap f).Perm (l.flatMap f ++ ys) := by
  induction l generalizing i with
  | nil => cases hx
  | cons a l ih =>
    cases i with
    | zero =>
      obtain rfl : a = x := by simpa using hx
      rw [List.set_cons_zero, List.flatMap_cons, List.flatMap_cons, hy, List.append_assoc, List.append_assoc]
      exact List.perm_append_comm.append_left _
    | succ i =>
      rw [List.set_cons_succ, List.flatMap_cons, List.flatMap_cons, List.append_assoc]
      exact (ih (by simpa using hx)).append_left _

theorem registeredBy_deliverAll (msgs : List (Nat × Bytes × Bytes)) (s : MqttSession) :
    registeredBy (deliverAll msgs s) = registeredBy s := by
  obtain ⟨_, _, _, h⟩ := deliverAll_same msgs s
  rw [h]
  rfl

theorem Trail.same (ht : Trail cfg ops w) (hr : w'.shared.registry = w.shared.registry)
    (hm : w'.mqtt.flatMap registeredBy = w.mqtt.flatMap registeredBy) : Trail cfg ops w' :=
  ⟨hr.trans ht.registry, hm ▸ ht.registrations⟩

theorem Trail.delivered (ht : Trail cfg ops w) (hi : i < w.mqtt.length)
    (hm : w'.mqtt = (w.mqtt.set i s).map (deliverAll msgs))
    (hr : w'.shared.registry = after cfg.registry w.shared.registry more)
    (hs : registeredBy s = registeredBy (w.session i) ++ more.filterMap registered?) :
    Trail cfg (ops ++ more) w' := by
  refine ⟨by rw [hr, ht.registry, after_append], ?_⟩
  have hmap : (fun t => registeredBy (deliverAll msgs t)) = registeredBy := funext (registeredBy_deliverAll msgs)
  rw [hm, List.flatMap_map, hmap, List.filterMap_append]
  exact (ht.registrations.append_right _).trans (flatMap_set_perm (session_eq hi) hs).symm

theorem Trail.performed (ht : Trail cfg ops w) (hi : i < w.mqtt.length)
    {op? : Option Operation} (hp : Performed cfg now w w' i s op? msgs) : Trail cfg (ops ++ op?.toList) w' :=
  ht.delivered hi hp.mqtt hp.registry hp.registrations

/-- A change of one session that makes no registration. -/
theorem Trail.quiet (ht : Trail cfg ops w) (hi : i < w.mqtt.length) (he : Effect w w' i s [] shared)
    (hr : shared.registry = w.shared.registry) (hs : registeredBy s = registeredBy (w.session i)) :
    Trail cfg ops w' := by
  have h : Trail cfg (ops ++ []) w' := ht.delivered hi he.mqtt (by rw [he.shared, hr]; rfl) (by simpa using hs)
  rwa [List.append_nil] at h

theorem Trail.removed {id : Bytes} (ht : Trail cfg ops w)
    (ha : w.Announced w' (w.shared.registry.removeNodePermanently cfg.registry id).1 msgs) :
    Trail cfg (ops ++ [.removeNodePermanently id]) w' := by
  refine ⟨by rw [ha.shared, ht.registry, after_append]; rfl, ?_⟩
  have hmap : (fun t => registeredBy (deliverAll msgs t)) = registeredBy := funext (registeredBy_deliverAll msgs)
  rw [ha.mqtt, List.flatMap_map, hmap, List.filterMap_append]
  exact (List.append_nil _).symm ▸ ht.registrations

/-- An HTTP request reads, or resolves one node. -/
theorem trail_resolves (w' : World) (hr : Http.Resolves cfg.registry w.shared.registry w'.shared.registry)
    (hm : w'.mqtt = w.mqtt) :
    ∃ more, w'.shared.registry = after cfg.registry w.shared.registry more ∧
      ∀ {ops : List Operation}, Trail cfg ops w → Trail cfg (ops ++ more) w' := by
  rcases hr with h | ⟨role, worker, h⟩
  · refine ⟨[], h, fun {ops} ht => ?_⟩
    rw [List.append_nil]
    exact ht.same h (by rw [hm])
  · refine ⟨[.resolveNode role worker], h, fun {ops} ht => ⟨?_, ?_⟩⟩
    · rw [h, ht.registry, after_append]
      rfl
    · rw [hm, List.filterMap_append]
      exact (List.append_nil _).symm ▸ ht.registrations

theorem Trail.accepted (ht : Trail cfg ops w) (hr : w'.shared.registry = w.shared.registry) {server : Nat}
    {remote : Option Address} {again : Bool} (hm : w'.mqtt = w.mqtt ++ [accepted server remote again]) :
    Trail cfg ops w' := by
  refine ht.same hr ?_
  rw [hm, List.flatMap_append]
  simp [registeredBy, LightApr.Server.accepted, MqttSession.new, startReadLoop]

/-- What the listeners do when they are constructed. -/
def subscriptionsOf (cfg : ServerConfig) : List Operation := (List.range cfg.servers).map .addEventCallback

theorem trail_init (cfg : ServerConfig) : Trail cfg (subscriptionsOf cfg) (init cfg) := by
  refine ⟨?_, ?_⟩
  · rw [after, subscriptionsOf, List.foldl_map]
    rfl
  · have hnone : (subscriptionsOf cfg).filterMap registered? = [] := by
      simp [subscriptionsOf, registered?]
    rw [hnone]
    exact .nil

end LightApr.Server
