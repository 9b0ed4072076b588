import LightApr.Server.Integrity

/-! Who answers for an active node: when every active node of the registry belongs to a
session that is still open. -/
namespace LightApr.Server.NodeOwnership
open LightApr.Core Lib Mqtt MqttSession World Registry

/-- Every active node is the node of an open session. -/
def Owned (w : World) : Prop :=
  ∀ k node, w.shared.registry.nodes.lookup k = some node → node.status = .ok →
    ∃ (j : Nat) (s : MqttSession), w.mqtt[j]? = some s ∧ s.nodeId = k ∧ s.tcp.closed = false

/-- The session that registers is open, and it has its id already or nothing can fail before
it learns its id: the role it announces is text, and no extra is touched that is no object. -/
def Proper (cfg : ServerConfig) (r : Registration) : Prop :=
  r.closed = false ∧ (r.nodeId ≠ [] ∨
    (Utf8.Valid r.asked.role ∧ Unobstructed cfg.registry r.stored r.asked.workers r.asked.extra))

/-- All registrations so far were proper. -/
abbrev Orderly (cfg : ServerConfig) : World → Prop := All fun _ s => ∀ r ∈ s.registrations, Proper cfg r

variable {cfg : ServerConfig} {now : Int} {i : Nat} {w w' : World} {s s' : MqttSession}
  {msgs : List (Nat × Bytes × Bytes)} {shared : Shared}

/-- What ownership depends on of a session, apart from its registrations. -/
structure SameClaim (s s' : MqttSession) : Prop where
  nodeId : s'.nodeId = s.nodeId
  closed : s'.tcp.closed = s.tcp.closed
  registrations : s'.registrations = s.registrations

theorem sameClaim_deliverAll (msgs : List (Nat × Bytes × Bytes)) (s : MqttSession) :
    SameClaim s (deliverAll msgs s) := by
  obtain ⟨_, _, _, h⟩ := deliverAll_same msgs s
  rw [h]
  exact ⟨rfl, rfl, rfl⟩

theorem sameClaim_own (h : Own cfg s s') : SameClaim s s' := by
  cases h <;> exact ⟨rfl, rfl, rfl⟩

/-- Registrations are only ever added. -/
theorem Orderly.back (h : Orderly cfg w') (he : Effect w w' i s msgs shared)
    (hs : ∀ r ∈ (w.session i).registrations, r ∈ s.registrations) : Orderly cfg w := by
  intro j t ht r hr
  by_cases hj : i = j
  · subst hj
    obtain ⟨rfl, hi⟩ := session_of_get ht
    refine h i _ (he.get_self hi) r ?_
    rw [(sameClaim_deliverAll msgs s).registrations]
    exact hs r hr
  · refine h j _ (by rw [he.get_ne hj, ht]; rfl) r ?_
    rw [(sameClaim_deliverAll msgs t).registrations]
    exact hr

/-- An active node is claimed by session `i` as it is now, or was active before and is
not taken from session `i`. -/
theorem Owned.effect (hw : Owned w) (he : Effect w w' i s msgs shared)
    (hn : ∀ k node, shared.registry.nodes.lookup k = some node → node.status = .ok →
      (i < w.mqtt.length ∧ s.nodeId = k ∧ s.tcp.closed = false) ∨
        ((∃ old, w.shared.registry.nodes.lookup k = some old ∧ old.status = .ok) ∧
          ((w.session i).nodeId = k → (w.session i).tcp.closed = false →
            s.nodeId = k ∧ s.tcp.closed = false))) : Owned w' := by
  intro k node hk hok
  rw [he.shared] at hk
  have claim (hi : i < w.mqtt.length) (hid : s.nodeId = k) (hopen : s.tcp.closed = false) :
      ∃ (j : Nat) (t : MqttSession), w'.mqtt[j]? = some t ∧ t.nodeId = k ∧ t.tcp.closed = false := by
    have hd := sameClaim_deliverAll msgs s
    exact ⟨i, _, he.get_self hi, hd.nodeId.trans hid, hd.closed.trans hopen⟩
  rcases hn k node hk hok with ⟨hi, hid, hopen⟩ | ⟨⟨old, hold, hok'⟩, hkeep⟩
  · exact claim hi hid hopen
  · obtain ⟨j, t, ht, hid, hopen⟩ := hw k old hold hok'
    by_cases hj : i = j
    · subst hj
      obtain ⟨rfl, hi⟩ := session_of_get ht
      obtain ⟨hid', hopen'⟩ := hkeep hid hopen
      exact claim hi hid' hopen'
    · have hd := sameClaim_deliverAll msgs t
      exact ⟨j, _, by rw [he.get_ne hj, ht]; rfl, hd.nodeId.trans hid, hd.closed.trans hopen⟩

theorem Owned.same (hw : Owned w) (he : Effect w w' i s msgs shared)
    (hn : ∀ k node, shared.registry.nodes.lookup k = some node → node.status = .ok →
      ∃ old, w.shared.registry.nodes.lookup k = some old ∧ old.status = .ok)
    (hs : SameClaim (w.session i) s) : Owned w' :=
  hw.effect he fun k node hk hok =>
    .inr ⟨hn k node hk hok, fun hid hopen => ⟨hs.nodeId.trans hid, hs.closed.trans hopen⟩⟩

theorem lookup_grace {r : Registry} {nodeId k : Bytes} {node : NodeInfo}
    (h : (r.markNodeGrace now nodeId).1.nodes.lookup k = some node) (hok : node.status = .ok) :
    k ≠ nodeId ∧ r.nodes.lookup k = some node := by
  obtain ⟨⟨r', out⟩, he⟩ : ∃ x, r.markNodeGrace now nodeId = x := ⟨_, rfl⟩
  rw [he] at h
  rcases modifyNode_effect he with ⟨hnone, rfl, -⟩ | ⟨old, -, hn, -, -⟩
  · refine ⟨?_, h⟩
    rintro rfl
    exact nomatch hnone.symm.trans h
  · rw [hn, Table.lookup_insert_eq_some] at h
    rcases h with ⟨-, rfl⟩ | h
    · exact nomatch hok
    · exact h

theorem lookup_extra {cfg : RegistryConfig} {r : Registry} {nodeId worker k : Bytes} {extra : Json}
    {node : NodeInfo} (h : (r.updateNodeExtra cfg now nodeId worker extra).1.nodes.lookup k = some node)
    (hok : node.status = .ok) : ∃ old, r.nodes.lookup k = some old ∧ old.status = .ok := by
  obtain ⟨⟨r', out⟩, he⟩ : ∃ x, r.updateNodeExtra cfg now nodeId worker extra = x := ⟨_, rfl⟩
  rw [he] at h
  rcases updateNodeExtra_effect he with ⟨rfl, -⟩ | ⟨old, _, hold, -, hn, -, -⟩
  · exact ⟨node, h, hok⟩
  · rw [hn, Table.lookup_insert_eq_some] at h
    rcases h with ⟨rfl, rfl⟩ | ⟨-, h⟩
    · exact ⟨old, hold, hok⟩
    · exact ⟨node, h, hok⟩

/-! The invariant. -/

structure Ownership (cfg : ServerConfig) (w : World) : Prop where
  integrity : Integrity cfg w
  owned : Orderly cfg w → Owned w

/-- A step that leaves the ids and the registrations of all sessions alone, and
activates no node. -/
theorem Ownership.same (hw : Ownership cfg w) (hI : Integrity cfg w') (he : Effect w w' i s msgs shared)
    (hn : ∀ k node, shared.registry.nodes.lookup k = some node → node.status = .ok →
      ∃ old, w.shared.registry.nodes.lookup k = some old ∧ old.status = .ok)
    (hs : SameClaim (w.session i) s) : Ownership cfg w' :=
  ⟨hI, fun hord => (hw.owned (hord.back he fun _ hr => hs.registrations ▸ hr)).same he hn hs⟩

/-- A proper registration leaves its node with the session that made it. -/
theorem Ownership.registered {payload nodeId : Bytes} {m : NodeMeta} (hw : Ownership cfg w) (hi : i < w.mqtt.length)
    (hm : readMeta cfg.registry.json (w.session i).role payload = some m)
    (hl : Learns (w.session i) (registration cfg now (w.session i) m w.shared.registry).2 nodeId)
    (he : Effect w w' i (((w.session i).recordRegistration now m w.shared.registry).assignNode nodeId) msgs
      { w.shared with registry := (registration cfg now (w.session i) m w.shared.registry).1 })
    (hord : Orderly cfg w') : Owned w' := by
  obtain ⟨-, node, hn, hev, -, hid, htext⟩ := hw.integrity.registration now hi hm
  obtain ⟨hopen, hknown⟩ : Proper cfg ⟨(w.session i).tcp.closed, (w.session i).nodeId, m,
      w.shared.registry.nodes.lookup (targetId now (w.session i).nodeId w.shared.registry)⟩ := by
    refine hord i _ (he.get_self hi) _ ?_
    rw [(sameClaim_deliverAll msgs _).registrations]
    simp [recordRegistration, assignNode]
  -- the session knows the node it has registered
  have hnode : nodeId = targetId now (w.session i).nodeId w.shared.registry := by
    rcases hl with ⟨node', hev', rfl⟩ | ⟨rfl, hfail⟩
    · exact (registration_event hw.integrity hi hm hev').2.2.1
    · have hne : (w.session i).nodeId ≠ [] := by
        rcases hknown with hne | ⟨hrole, hfree⟩
        · exact hne
        · rcases hfail with ht | ⟨node', hev', hu⟩
          · cases (hev hfree).symm.trans ht
          · obtain rfl := Outcome.event.inj ((hev hfree).symm.trans hev')
            cases (htext hrole).symm.trans hu
      rw [targetId, if_neg hne]
  have hback := hw.owned (hord.back he fun r hr => List.mem_append_left _ hr)
  refine hback.effect he fun k n hk hok => ?_
  by_cases hkt : k = targetId now (w.session i).nodeId w.shared.registry
  · exact .inl ⟨hi, hnode.trans hkt.symm, hopen⟩
  · replace hk : w.shared.registry.nodes.lookup k = some n := by
      rw [← AList.lookup_insert_ne hkt, ← hn]
      exact hk
    refine .inr ⟨⟨n, hk, hok⟩, fun hold => absurd ?_ hkt⟩
    have hne : (w.session i).nodeId ≠ [] := hold ▸ (hw.integrity.registry k n hk).key
    rw [targetId, if_neg hne, hold]

theorem ownership_act (hi : i < w.mqtt.length) (hw : Ownership cfg w) (h : Act cfg now i w w') :
    Ownership cfg w' := by
  have hI := integrity_act hi hw.integrity h
  cases h with
  | own ho e => exact hw.same hI e (fun _ n hk hok => ⟨n, hk, hok⟩) (sameClaim_own ho)
  | relay _ e => exact hw.same hI e (fun _ n hk hok => ⟨n, hk, hok⟩) ⟨rfl, rfl, rfl⟩
  | publishMeta _ hm hl e => exact ⟨hI, hw.registered hi hm hl e⟩
  | publishExtra _ _ _ e => exact hw.same hI e (fun _ _ hk hok => lookup_extra hk hok) ⟨rfl, rfl, rfl⟩
  | close _ hnode e =>
    refine ⟨hI, fun hord => (hw.owned (hord.back e fun _ hr => hr)).effect e fun k n hk hok => ?_⟩
    rcases hnode with ⟨hnil, rfl, -⟩ | ⟨-, rfl, -⟩
    · -- a session without a node owns none
      refine .inr ⟨⟨n, hk, hok⟩, fun hid => absurd (hnil.symm.trans hid).symm ?_⟩
      exact (hw.integrity.registry k n hk).key
    · obtain ⟨hne, hk⟩ := lookup_grace hk hok
      exact .inr ⟨⟨n, hk, hok⟩, fun hid => absurd hid.symm hne⟩

theorem Ownership.accepted (hw : Ownership cfg w) (hI : Integrity cfg w')
    (hr : w'.shared.registry = w.shared.registry) (hm : w'.mqtt = w.mqtt ++ [s]) : Ownership cfg w' := by
  have hold {j : Nat} {t : MqttSession} (ht : w.mqtt[j]? = some t) : w'.mqtt[j]? = some t := by
    rw [hm, List.getElem?_append_left (List.getElem?_eq_some_iff.mp ht).1, ht]
  refine ⟨hI, fun hord => ?_⟩
  intro k n hk hok
  obtain ⟨j, t, ht, hid, hopen⟩ := hw.owned (fun j t ht => hord j t (hold ht)) k n (hr ▸ hk) hok
  exact ⟨j, t, hold ht, hid, hopen⟩

theorem ownership_preserved (cfg : ServerConfig) : Preserved cfg (fun _ _ => True) (Ownership cfg) where
  rejected hw hg := ⟨(integrity_preserved cfg).rejected hw.integrity hg, hw.owned⟩
  acceptedMqtt hw hc hg := hw.accepted ((integrity_preserved cfg).acceptedMqtt hw.integrity hc hg) rfl rfl
  acceptedHttp hw hc hg := ⟨(integrity_preserved cfg).acceptedHttp hw.integrity hc hg, hw.owned⟩
  act hi hw h := ownership_act hi hw h
  input hi hw hin e := by
    have hI := (integrity_preserved cfg).input hi hw.integrity hin e
    obtain ⟨_, _, _, _, _, _, _, rfl, -⟩ := hin
    exact hw.same hI e (fun _ n hk hok => ⟨n, hk, hok⟩) ⟨rfl, rfl, rfl⟩
  packet hi hw e :=
    hw.same ((integrity_preserved cfg).packet hi hw.integrity e) e (fun _ n hk hok => ⟨n, hk, hok⟩) ⟨rfl, rfl, rfl⟩
  transferred now hi hw hc hopen hn :=
    hw.same ((integrity_preserved cfg).transferred now hi hw.integrity hc hopen hn) (.ofUpdate _)
      (fun _ n hk hok => ⟨n, hk, hok⟩) ⟨rfl, rfl, rfl⟩
  http hs hw hc h := by
    refine ⟨(integrity_preserved cfg).http hs hw.integrity hc h, fun hord => ?_⟩
    intro k n hk hok
    exact hw.owned hord k n ((Http.HttpSession.handle_effect h).registry.nodes ▸ hk) hok
  destroyedMqtt hi hw hc :=
    hw.same ((integrity_preserved cfg).destroyedMqtt hi hw.integrity hc) (.ofUpdate markGone)
      (fun _ n hk hok => ⟨n, hk, hok⟩) ⟨rfl, rfl, rfl⟩
  destroyedHttp hs hw hu := ⟨(integrity_preserved cfg).destroyedHttp hs hw.integrity hu, hw.owned⟩
  removed {w _ _} hw ha :=
    hw.same ((integrity_preserved cfg).removed hw.integrity ha) (.ofAnnounced (i := w.mqtt.length) ha)
      (fun _ n hk hok => ⟨n, lookup_removed hk, hok⟩) ⟨rfl, rfl, rfl⟩

theorem ownership_init (cfg : ServerConfig) : Ownership cfg (init cfg) := by
  refine ⟨integrity_init cfg, fun _ => ?_⟩
  intro k n hk
  rw [nodes_init] at hk
  exact nomatch hk

/-- **In every run whose registrations are all made by an open session, with its id or
where nothing can fail before it learns one, every active node belongs to an open session.** -/
theorem active_nodes_owned (cfg : ServerConfig) {es : List World.Event} {w : World}
    (hrun : (machine cfg).Reaches (init cfg) es w) (hord : Orderly cfg w) : Owned w :=
  ((ownership_preserved cfg).run (ownership_init cfg) hrun).owned hord

/-! A session that ends properly, and one whose last frames are read together. -/

private def published : List World.Event :=
  [.acceptMqtt 0 0 none false, .mqtt 100 0 (.read (connectAs (ascii "job"))), .mqtt 101 0 (.read jobPacket)]

private theorem published_run :
    ((machine jobListeners).exec (init jobListeners) published).isSome = true ∧
      ∀ s ∈ (((machine jobListeners).exec (init jobListeners) published).getD (init jobListeners)).mqtt,
        ∀ r ∈ s.registrations, r.closed = false ∧ (r.nodeId ≠ [] ∨ Utf8.Valid r.asked.role) := by
  decide +kernel

theorem active_nodes_owned_job :
    Owned (((machine jobListeners).exec (init jobListeners) published).getD (init jobListeners)) := by
  obtain ⟨hrun, hproper⟩ := published_run
  refine active_nodes_owned jobListeners ((machine jobListeners).reaches_exec hrun) fun _ _ hs r hr => ?_
  obtain ⟨hopen, hknown⟩ := hproper _ (List.mem_of_getElem? hs) r hr
  exact ⟨hopen, hknown.imp_right fun hrole => ⟨hrole, .inl rfl⟩⟩

private def publishedLate : List World.Event :=
  [.acceptMqtt 1 0 none false, .mqtt 100 0 (.read upgradeRequest),
    .mqtt 101 0 (.read (clientFrame (connectAs (ascii "job")) ++ clientFrame [0xE0, 0x00] ++ clientFrame jobPacket))]

private theorem publishedLate_run :
    ((machine jobListeners).exec (init jobListeners) publishedLate).isSome = true ∧
      ((((machine jobListeners).exec (init jobListeners) publishedLate).getD
        (init jobListeners)).shared.registry.nodes.lookup (ascii "node-101-1")).map NodeInfo.status = some .ok ∧
      ∀ s ∈ (((machine jobListeners).exec (init jobListeners) publishedLate).getD (init jobListeners)).mqtt,
        s.tcp.closed = true := by
  decide +kernel

/-- CONNECT, DISCONNECT and a metadata PUBLISH in one read: the node stays active, and
its session is closed. -/
theorem node_published_after_disconnect :
    ¬ ∀ (cfg : ServerConfig) (es : List World.Event) (w : World),
      (machine cfg).Reaches (init cfg) es w → Owned w := by
  intro h
  obtain ⟨hrun, hstatus, hclosed⟩ := publishedLate_run
  have hw := h jobListeners publishedLate _ ((machine jobListeners).reaches_exec hrun)
  obtain ⟨node, hk, hok⟩ := Option.map_eq_some_iff.mp hstatus
  obtain ⟨j, s, hs, -, hopen⟩ := hw _ node hk hok
  exact nomatch (hclosed s (List.mem_of_getElem? hs)).symm.trans hopen

end LightApr.Server.NodeOwnership
