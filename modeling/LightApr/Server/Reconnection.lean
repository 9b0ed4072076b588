import LightApr.Server.Isolation
import LightApr.Server.NodeOwnership

/-! A client that lost its session, and opens another one within the grace period. -/
namespace LightApr.Server.Reconnection
open LightApr.Core Lib Mqtt MqttSession World Registry Isolation

/-- Two sessions of one client. -/
structure SameClient (s t : MqttSession) : Prop where
  clientId : t.clientId = s.clientId
  username : t.username = s.username

/-- The events that can close session `i`, at second `lost`. -/
inductive Ends (i : Nat) (lost : Int) : World.Event → Prop
  | mqtt (e : MqttEvent) : Ends i lost (.mqtt lost i e)
  | destroyMqtt : Ends i lost (.destroyMqtt lost i)

/-- In the reachable state `u` session `i` is open and registered; then it is lost. Less than
180 seconds later, in state `v`, the client is authenticated on session `j`. -/
structure Reconnects (cfg : ServerConfig) (i j : Nat) (lost now : Int) (u v : World) : Prop where
  reachable : ∃ es, (machine cfg).Reaches (init cfg) es u
  opened : i < u.mqtt.length ∧ (u.session i).tcp.closed = false
  registered : (u.session i).nodeId ≠ []
  /-- some handler on session `j` has come as far as `v` -/
  run : ∃ e u' es v₀, Ends i lost e ∧ u.step cfg e = some u' ∧ (u'.session i).tcp.closed = true ∧
    (machine cfg).Reaches u' es v₀ ∧ Trace cfg now j v₀ v
  soon : now - lost < 180
  other : j < v.mqtt.length ∧ j ≠ i
  client : SameClient (u.session i) (v.session j)
  authenticated : (v.session j).authenticated = true

/-- `data` is a readable publish of metadata. -/
def Publishes (cfg : ServerConfig) (v : World) (j : Nat) (data : Bytes) (m : NodeMeta) : Prop :=
  ∃ pub, Packet.decodePublish data = some pub ∧ pub.topic = ascii "apr/node/meta" ∧
    readMeta cfg.registry.json (v.session j).role pub.payload = some m

/-- Session `j` has the node `id` again, its status is OK, and it is the only node of the
client. -/
structure Restored (id : Bytes) (j : Nat) (w : World) : Prop where
  reused : (w.session j).nodeId = id
  status : ∃ node, w.shared.registry.nodes.lookup id = some node ∧ node.status = .ok
  sole : ∀ (k : Nat) (s : MqttSession), w.mqtt[k]? = some s → SameClient (w.session j) s →
    s.nodeId ∈ w.shared.registry.nodes → s.nodeId = id

/-- Session `j` has the id already, or is given it and learns it; and no other session of
the client has another node. -/
structure Coincides (cfg : ServerConfig) (id : Bytes) (j : Nat) (now : Int) (m : NodeMeta) (v : World) : Prop where
  given : (v.session j).nodeId = id ∨ ((v.session j).nodeId = [] ∧
    generateNodeId now v.shared.registry.idCounter = id ∧
    RegistersFreely cfg now (v.session j) m v.shared.registry ∧
    (v.shared.registry.eventCbs = [] ∨ Utf8.Valid m.role))
  sole : ∀ (k : Nat) (s : MqttSession), v.mqtt[k]? = some s → k ≠ j → SameClient (v.session j) s →
    s.nodeId ∈ v.shared.registry.nodes → s.nodeId = id

/-! The registration. -/

variable {cfg : ServerConfig} {now lost : Int} {i j : Nat} {u v w : World} {m : NodeMeta} {id data : Bytes}

theorem notify_done {node : NodeInfo} {observers : List (Nat × Nat)} :
    (w.notify cfg node observers).2 = .done ↔ observers = [] ∨ node.toJson.utf8 = true := by
  constructor
  · intro h
    cases observers with
    | nil => exact .inl rfl
    | cons o rest =>
      rw [notify] at h
      cases hd : cfg.registry.json.dump node.toJson with
      | none =>
        rw [hd] at h
        cases h
      | some text => exact .inr (cfg.registry.json.utf8_of_dump hd)
  · rintro (rfl | hu)
    · rfl
    · exact (notify_effect rfl).2 hu

theorem mutate_done {result : Registry × Outcome} {node : NodeInfo} (hev : result.2 = .event node) :
    (w.mutate cfg result).2 = .done ↔ result.1.eventCbs = [] ∨ node.toJson.utf8 = true := by
  obtain ⟨registry, out⟩ := result
  obtain rfl : out = .event node := hev
  exact notify_done

/-- Announcing an event changes no session's id. -/
theorem nodeId_mutate {result : Registry × Outcome} {w' : World} {flow : Flow} (hi : i < w.mqtt.length)
    (h : w.mutate cfg result = (w', flow)) : i < w'.mqtt.length ∧ (w'.session i).nodeId = (w.session i).nodeId := by
  obtain ⟨hann, -⟩ := mutate_effect h
  have hlen : i < w'.mqtt.length := by rwa [hann.mqtt, List.length_map]
  have hget := session_eq hlen
  rw [hann.mqtt, List.getElem?_map, session_eq hi, Option.map_some] at hget
  obtain ⟨_, _, _, hd⟩ := deliverAll_same (eventMessages cfg result) (w.session i)
  rw [← Option.some.inj hget, hd]
  exact ⟨hlen, rfl⟩

/-- The session learns the id when the announcement can be made. -/
theorem nodeId_publishMeta (hi : i < w.mqtt.length) {node : NodeInfo}
    (hev : (registration cfg now (w.session i) m w.shared.registry).2 = .event node) :
    ((w.publishMeta cfg now i m).session i).nodeId =
      if (registration cfg now (w.session i) m w.shared.registry).1.eventCbs = [] ∨ node.toJson.utf8 = true then
        node.id
      else (w.session i).nodeId := by
  have hdone : ((w.update i (recordRegistration now m w.shared.registry)).mutate cfg
      (registration cfg now (w.session i) m w.shared.registry)).2 = .done ↔ _ := mutate_done hev
  obtain ⟨⟨w1, flow⟩, hw⟩ : ∃ x, (w.update i (recordRegistration now m w.shared.registry)).mutate cfg
    (registration cfg now (w.session i) m w.shared.registry) = x := ⟨_, rfl⟩
  obtain ⟨hlen, hkept⟩ := nodeId_mutate (by rwa [length_update]) hw
  rw [session_update hi] at hkept
  have hpublish : w.publishMeta cfg now i m = if flow = .done then w1.update i (assignNode node.id) else w1 := by
    unfold publishMeta
    dsimp only
    rw [shared_update, show w.shared.registry.registerOrUpdateNode cfg.registry now m.role m.workers m.endpoint
      (w.session i).tcp.peerIp (w.session i).nodeId m.extra =
        registration cfg now (w.session i) m w.shared.registry from rfl, hw, hev]
    cases flow <;> rfl
  rw [hw] at hdone
  rw [hpublish]
  simp only [← hdone]
  split
  · rw [session_update hlen]
    rfl
  · exact hkept

/-- It keeps the id it had when the registration fails. -/
theorem nodeId_publishMeta_threw (hi : i < w.mqtt.length)
    (hthrew : (registration cfg now (w.session i) m w.shared.registry).2 = .threw) :
    ((w.publishMeta cfg now i m).session i).nodeId = (w.session i).nodeId := by
  obtain ⟨nodeId, hl, heff⟩ := publishMeta_effect cfg now m hi
  rcases hl with ⟨node, hev, -⟩ | ⟨rfl, -⟩
  · cases hthrew.symm.trans hev
  · obtain ⟨_, _, _, hd⟩ := deliverAll_same
      (eventMessages cfg (registration cfg now (w.session i) m w.shared.registry))
      (((w.session i).recordRegistration now m w.shared.registry).assignNode (w.session i).nodeId)
    rw [heff.session_self hi, hd]
    rfl

/-- What a publish of metadata on session `j` does. -/
structure Registers (cfg : ServerConfig) (now : Int) (j : Nat) (m : NodeMeta) (v w : World) : Prop where
  nodes : ∃ node, node.status = .ok ∧ w.shared.registry.nodes =
    v.shared.registry.nodes.insert (targetId now (v.session j).nodeId v.shared.registry) node
  nodeId : (w.session j).nodeId =
    if RegistersFreely cfg now (v.session j) m v.shared.registry ∧
        (v.shared.registry.eventCbs = [] ∨ Utf8.Valid m.role) then
      targetId now (v.session j).nodeId v.shared.registry
    else (v.session j).nodeId
  client : SameClient (v.session j) (w.session j)
  others : ∃ msgs, ∀ k, k ≠ j → w.mqtt[k]? = (v.mqtt[k]?).map (deliverAll msgs)

theorem publishMeta_registers (hw : Integrity cfg w) (hi : i < w.mqtt.length) {payload : Bytes}
    (hm : readMeta cfg.registry.json (w.session i).role payload = some m) :
    Registers cfg now i m w (w.publishMeta cfg now i m) := by
  obtain ⟨hintact, node, hn, hev, hthrew, hid, -⟩ := hw.registration now hi hm
  obtain ⟨nodeId, -, heff⟩ := publishMeta_effect cfg now m hi
  obtain ⟨node', hn', hobs, hreg, -⟩ := registerOrUpdateNode_effect
    (show registration cfg now (w.session i) m w.shared.registry =
      ((registration cfg now (w.session i) m w.shared.registry).1, _) from rfl)
  have hstored : (registration cfg now (w.session i) m w.shared.registry).1.nodes.lookup
      (targetId now (w.session i).nodeId w.shared.registry) = some node := by
    rw [hn, AList.lookup_insert]
  obtain rfl : node = node' := by
    rw [hn', AList.lookup_insert] at hstored
    exact (Option.some.inj hstored).symm
  have hprinted : node.toJson.utf8 = true ↔ Utf8.Valid m.role := by
    rw [NodeInfo.utf8_toJson (hintact _ _ hstored).utf8, hreg.role]
  refine ⟨⟨node, hreg.status, ?_⟩, ?_, ?_, ⟨_, fun k hk => heff.get_ne hk.symm⟩⟩
  · rw [heff.shared]
    exact hn
  · by_cases hfree : RegistersFreely cfg now (w.session i) m w.shared.registry
    · rw [nodeId_publishMeta hi (hev hfree), hobs.eventCbs, hid]
      simp only [hprinted, hfree, true_and]
    · rw [nodeId_publishMeta_threw hi (hthrew hfree), if_neg fun h => hfree h.1]
  · obtain ⟨_, _, _, hd⟩ := deliverAll_same
      (eventMessages cfg (registration cfg now (w.session i) m w.shared.registry))
      (((w.session i).recordRegistration now m w.shared.registry).assignNode nodeId)
    rw [heff.session_self hi, hd]
    exact ⟨rfl, rfl⟩

/-- Before a publish is looked at it is acknowledged. -/
theorem handlePublish_meta (cfg : ServerConfig) (now : Int) {pub : Packet.MqttPublish}
    (ha : (w.session i).authenticated = true)
    (hpub : Packet.decodePublish data = some pub) (ht : pub.topic = ascii "apr/node/meta") :
    w.handlePublish cfg now i data =
      match readMeta cfg.registry.json (w.session i).role pub.payload with
      | none => w.update i (acknowledge pub)
      | some m => (w.update i (acknowledge pub)).publishMeta cfg now i m := by
  unfold handlePublish
  dsimp only
  rw [ha, hpub]
  dsimp only
  rw [if_pos ht]
  rfl

theorem handlePublish_registers (hv : Integrity cfg v) (hj : j < v.mqtt.length)
    (ha : (v.session j).authenticated = true) (hp : Publishes cfg v j data m) :
    Registers cfg now j m v (v.handlePublish cfg now j data) := by
  obtain ⟨pub, hpub, htopic, hm⟩ := hp
  obtain ⟨out, writes, hack⟩ : ∃ out writes,
      (v.session j).acknowledge pub = { v.session j with out, writes } := by
    unfold acknowledge
    split
    · exact ⟨_, _, rfl⟩
    · exact ⟨_, _, rfl⟩
  have hhandle : v.handlePublish cfg now j data = (v.update j (acknowledge pub)).publishMeta cfg now j m := by
    rw [handlePublish_meta cfg now ha hpub htopic, hm]
  have hs := hv.sessions.session hj
  have hint : Integrity cfg (v.update j (acknowledge pub)) :=
    hv.effect (.ofUpdate _) hv.registry fun _ => hack ▸ ⟨hs.nodeId, hs.peerIp⟩
  have hlen : j < (v.update j (acknowledge pub)).mqtt.length := by rwa [length_update]
  have hself : (v.update j (acknowledge pub)).session j = { v.session j with out, writes } := by
    rw [session_update hj, hack]
  have hread : readMeta cfg.registry.json ((v.update j (acknowledge pub)).session j).role pub.payload = some m := by
    rw [hself]
    exact hm
  have hregisters : Registers cfg now j m (v.update j (acknowledge pub))
      ((v.update j (acknowledge pub)).publishMeta cfg now j m) := publishMeta_registers hint hlen hread
  obtain ⟨hnodes, hnodeId, hclient, msgs, hothers⟩ := hregisters
  rw [hself] at hnodes hnodeId hclient
  rw [hhandle]
  refine ⟨hnodes, hnodeId, ⟨hclient.clientId, hclient.username⟩, msgs, fun k hk => ?_⟩
  rw [hothers k hk, update, get_setSession _ hj, if_neg hk.symm]

/-- The publish restores the node exactly if the session is given its id again. -/
theorem Registers.restored_iff (h : Registers cfg now j m v w) (hne : id ≠ []) :
    Restored id j w ↔ Coincides cfg id j now m v := by
  obtain ⟨⟨node, hok, hnodes⟩, hnodeId, hclient, msgs, hothers⟩ := h
  have hsession {k : Nat} (hk : k ≠ j) {s : MqttSession} (hs : v.mqtt[k]? = some s) :
      ∃ s', w.mqtt[k]? = some s' ∧ s'.nodeId = s.nodeId ∧
        (SameClient (w.session j) s' ↔ SameClient (v.session j) s) := by
    obtain ⟨_, _, _, hd⟩ := deliverAll_same msgs s
    refine ⟨_, by rw [hothers k hk, hs, Option.map_some], by rw [hd], ?_⟩
    rw [hd]
    exact ⟨fun h => ⟨h.clientId.trans hclient.clientId, h.username.trans hclient.username⟩,
      fun h => ⟨h.clientId.trans hclient.clientId.symm, h.username.trans hclient.username.symm⟩⟩
  constructor
  · intro hr
    have hreused := hr.reused
    rw [hnodeId] at hreused
    refine ⟨?_, fun k s hs hk hc hm => ?_⟩
    · split at hreused
      · rename_i hprint
        by_cases hnone : (v.session j).nodeId = []
        · rw [targetId, if_pos hnone] at hreused
          exact .inr ⟨hnone, hreused, hprint⟩
        · rw [targetId, if_neg hnone] at hreused
          exact .inl hreused
      · exact .inl hreused
    · obtain ⟨s', hs', hid, hsame⟩ := hsession hk hs
      rw [← hid] at hm ⊢
      refine hr.sole k s' hs' (hsame.mpr hc) ?_
      rw [hnodes, AList.mem_insert]
      exact .inr hm
  · intro hc
    have hgiven : targetId now (v.session j).nodeId v.shared.registry = id ∧ (w.session j).nodeId = id := by
      rcases hc.given with hold | ⟨hnone, hnew, hprint⟩
      · rw [hnodeId, targetId, if_neg (hold ▸ hne), ite_self]
        exact ⟨hold, hold⟩
      · rw [hnodeId, if_pos hprint, targetId, if_pos hnone]
        exact ⟨hnew, hnew⟩
    obtain ⟨htarget, hreused⟩ := hgiven
    rw [htarget] at hnodes
    refine ⟨hreused, ⟨node, by rw [hnodes, AList.lookup_insert], hok⟩, fun k s' hs' hsame hm => ?_⟩
    by_cases hk : k = j
    · subst hk
      rw [← hreused, (session_of_get hs').1]
    · have hget := hothers k hk
      rw [hs'] at hget
      obtain ⟨s, hs, -⟩ := Option.map_eq_some_iff.mp hget.symm
      obtain ⟨s'', hs'', hid, hclients⟩ := hsession hk hs
      obtain rfl := Option.some.inj (hs'.symm.trans hs'')
      rw [hid]
      rw [hid, hnodes, AList.mem_insert] at hm
      rcases hm with hm | hm
      · exact hm
      · exact hc.sole k s hs hk (hclients.mp hsame) hm

/-! The ids of the two sessions. -/

/-- Session `i` keeps its id while it is lost, and the process goes on as from its start. -/
theorem Reconnects.owning (h : Reconnects cfg i j lost now u v) :
    ∃ ops, Owning cfg ops v ∧ ∃ s, v.mqtt[i]? = some s ∧ s.nodeId = (u.session i).nodeId := by
  obtain ⟨es, hu⟩ := h.reachable
  obtain ⟨e, u', es', v₀, -, hstep, -, hrun, htrace⟩ := h.run
  obtain ⟨ops, hown⟩ := owning_run hu
  have hwell : Stored (WellFormed cfg.registry) u.shared.registry := wellFormed_trail hown.trail
  have hlost : ∃ more, Grows cfg u u' more := grows_step hwell hstep
  have hback : ∃ more, Grows cfg u v₀ more :=
    hrun.invariant _ hlost fun _ _ _ hm _ hs => (grows_preserved cfg hwell).step hm trivial hs
  have hj : j < v₀.mqtt.length := Trace.length htrace ▸ h.other.1
  obtain ⟨more, hgrows⟩ : ∃ more, Grows cfg u v more := (grows_preserved cfg hwell).trace hj hback htrace
  obtain ⟨s, hs, hid⟩ := hgrows.sessions i _ (session_eq h.opened.1)
  refine ⟨_, hgrows.owning hown, s, hs, hid.resolve_right fun hnew => h.registered hnew.1⟩

theorem Reconnects.integrity (h : Reconnects cfg i j lost now u v) : Integrity cfg v := by
  obtain ⟨es, hu⟩ := h.reachable
  obtain ⟨e, u', es', v₀, -, hstep, -, hrun, htrace⟩ := h.run
  have hj : j < v₀.mqtt.length := Trace.length htrace ▸ h.other.1
  have hv₀ : Integrity cfg v₀ := integrity_run ((hu.snoc trivial hstep).trans hrun)
  exact (integrity_preserved cfg).trace hj hv₀ htrace

/-- The id of one session comes to another only after the counter has been through all its
values. -/
theorem coincides_wraps {ops : List Operation} {s : MqttSession} (ho : Owning cfg ops v) (hj : j < v.mqtt.length)
    (hij : j ≠ i) (hs : v.mqtt[i]? = some s) (hne : s.nodeId ≠ []) (hc : Coincides cfg s.nodeId j now m v) :
    2 ^ 64 ≤ (v.mqtt.map fun s => s.registrations.length).sum := by
  by_contra hfew
  rw [Nat.not_le] at hfew
  rcases hc.given with hold | ⟨-, hnew, -⟩
  · exact ho.distinct (issued_nodup ho.trail hfew) i j s _ hs (session_eq hj) hij.symm hne hold.symm
  · -- the next registration would issue an id for the second time
    let op : Operation := .registerOrUpdateNode now [] [] none [] [] (.obj [])
    have hissued : issued cfg v.shared.registry [op] = [s.nodeId] := by
      simp [issued, issuedBy, along, Operation.issued?, op, hnew]
    have hlen := length_issued cfg .empty ops
    rw [ho.trail.registrations.length_eq, length_registrations] at hlen
    have hall : issued cfg .empty (ops ++ [op]) = issued cfg .empty ops ++ [s.nodeId] := by
      rw [issued, issuedBy_append, ← ho.trail.registry, ← hissued]
    have hnodup : (issued cfg .empty (ops ++ [op])).Nodup := by
      refine issuedBy_nodup (by decide) ?_
      rw [← issued, hall, List.length_append, List.length_singleton]
      exact Nat.succ_le_of_lt (Nat.lt_of_le_of_lt hlen hfew)
    rw [hall] at hnodup
    obtain ⟨-, -, hdisj⟩ := List.nodup_append.mp hnodup
    exact hdisj _ ((ho.held i s hs).resolve_left hne) _ (List.mem_singleton_self _) rfl

/-- **When a client that has lost its session publishes its metadata again, its node is
restored if and only if the new session has or is given the old id; and no session is before
`2 ^ 64` registrations.** -/
theorem reconnection_restores_iff (cfg : ServerConfig) {i j : Nat} {lost now : Int} {u v : World} {data : Bytes}
    {m : NodeMeta} (h : Reconnects cfg i j lost now u v) (hp : Publishes cfg v j data m) :
    let id := (u.session i).nodeId
    (Restored id j (v.handlePublish cfg now j data) ↔ Coincides cfg id j now m v) ∧
      (Coincides cfg id j now m v → 2 ^ 64 ≤ (v.mqtt.map fun s => s.registrations.length).sum) := by
  intro id
  obtain ⟨ops, ho, s, hs, hid⟩ := h.owning
  refine ⟨?_, fun hc => ?_⟩
  · exact (handlePublish_registers h.integrity h.other.1 h.authenticated hp).restored_iff h.registered
  · have hc : Coincides cfg (u.session i).nodeId j now m v := hc
    rw [← hid] at hc
    exact coincides_wraps ho h.other.1 h.other.2 hs (hid ▸ h.registered) hc

/-! A worker whose connection breaks, and who is back within seconds. -/

/-- CONNECT of client "w1" as "job". -/
private def helloPacket : Bytes :=
  [0x10, 0x13, 0x00, 0x04] ++ ascii "MQTT" ++ [0x04, 0x80, 0x00, 0x3C, 0x00, 0x02] ++ ascii "w1" ++ [0x00, 0x03] ++
    ascii "job"

private def joining : List World.Event :=
  [.acceptMqtt 0 0 none false, .mqtt 100 0 (.read helloPacket), .mqtt 101 0 (.read jobPacket)]

private def returning : List World.Event := [.acceptMqtt 0 35 none false, .mqtt 135 1 (.read helloPacket)]

private def joined : World := ((machine jobListener).exec (init jobListener) joining).getD (init jobListener)

private def severed : World := (joined.step jobListener (.mqtt 130 0 .readFailed)).getD joined

private def returned : World := ((machine jobListener).exec severed returning).getD severed

/-- The metadata has been read, and is about to be handled. -/
private def publishing : World := (returned.update 1 (recordRead jobPacket)).update 1 (recordPacket jobPacket)

private theorem severed_run :
    ((machine jobListener).exec (init jobListener) joining).isSome = true ∧
      (joined.step jobListener (.mqtt 130 0 .readFailed)).isSome = true ∧
      ((machine jobListener).exec severed returning).isSome = true ∧ returned.mqtt.length = 2 ∧
      (0 < joined.mqtt.length ∧ (joined.session 0).tcp.closed = false) ∧ (joined.session 0).nodeId ≠ [] ∧
      (severed.session 0).tcp.closed = true := by
  decide +kernel

private theorem publishing_session :
    ((publishing.session 1).clientId = (joined.session 0).clientId ∧
        (publishing.session 1).username = (joined.session 0).username) ∧
      (publishing.session 1).authenticated = true ∧
      (((Packet.decodePublish jobPacket).map fun pub => decide (pub.topic = ascii "apr/node/meta")) = some true ∧
        ((Packet.decodePublish jobPacket).bind fun pub => readMeta jobListener.registry.json
          (publishing.session 1).role pub.payload).isSome = true) ∧
      ((publishing.handlePublish jobListener 136 1 jobPacket).session 1).nodeId ≠ (joined.session 0).nodeId ∧
      (publishing.mqtt.map fun s => s.registrations.length).sum < 2 ^ 64 := by
  decide +kernel

private theorem worker_reconnects : Reconnects jobListener 0 1 130 136 joined publishing := by
  obtain ⟨hjoining, hstep, hreturning, hlen, hopened, hregistered, hclosed⟩ := severed_run
  obtain ⟨⟨hclientId, husername⟩, hauth, -⟩ := publishing_session
  obtain ⟨w, hw⟩ := Option.isSome_iff_exists.mp hstep
  have hsevered : severed = w := by rw [severed, hw, Option.getD_some]
  have hread : Trace jobListener 136 1 returned (returned.update 1 (recordRead jobPacket)) :=
    trace_input (input_recordRead _ _)
  have hreached := (machine jobListener).reaches_exec hreturning
  refine ⟨⟨joining, (machine jobListener).reaches_exec hjoining⟩, hopened, hregistered, ?_, by decide,
    ⟨?_, by decide⟩, ⟨hclientId, husername⟩, hauth⟩
  · exact ⟨_, severed, returning, returned, .mqtt .readFailed, hsevered ▸ hw, hclosed, hreached,
      hread.tail (.packet jobPacket (.ofUpdate _))⟩
  · rw [publishing, length_update, length_update, hlen]
    decide

private theorem worker_publishes : ∃ m, Publishes jobListener publishing 1 jobPacket m := by
  obtain ⟨-, -, ⟨htopic, hmeta⟩, -⟩ := publishing_session
  obtain ⟨pub, hpub, htopic⟩ := Option.map_eq_some_iff.mp htopic
  obtain ⟨m, hm⟩ := Option.isSome_iff_exists.mp hmeta
  rw [hpub] at hm
  exact ⟨m, pub, hpub, of_decide_eq_true htopic, hm⟩

theorem worker_not_restored :
    ¬ Restored (joined.session 0).nodeId 1 (publishing.handlePublish jobListener 136 1 jobPacket) := by
  obtain ⟨m, hm⟩ := worker_publishes
  obtain ⟨hiff, hwraps⟩ := reconnection_restores_iff jobListener worker_reconnects hm
  obtain ⟨-, -, -, -, hfew⟩ := publishing_session
  intro h
  exact absurd (hwraps (hiff.mp h)) (Nat.not_le_of_gt hfew)

/-- The worker is a second node. -/
theorem worker_registered_twice :
    ¬ ∀ (cfg : ServerConfig) (i j : Nat) (lost now : Int) (u v : World) (data : Bytes) (m : NodeMeta),
      Reconnects cfg i j lost now u v → Publishes cfg v j data m →
        Restored (u.session i).nodeId j (v.handlePublish cfg now j data) := by
  intro h
  obtain ⟨m, hm⟩ := worker_publishes
  obtain ⟨-, -, -, hother, -⟩ := publishing_session
  exact hother (h jobListener 0 1 130 136 joined publishing jobPacket m worker_reconnects hm).reused

end LightApr.Server.Reconnection
