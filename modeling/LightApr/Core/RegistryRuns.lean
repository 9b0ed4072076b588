import LightApr.Core.RegistryEffect

/-! Runs of registry operations, and what holds of every record they leave behind. -/
namespace LightApr.Core.Registry

/-- The operations that change the registry. The others only read it, and a sweep is a
read that chooses the ids of a sequence of removals. -/
inductive Operation where
  | addEventCallback (observer : Nat)
  | removeEventCallback (token : Nat)
  | registerOrUpdateNode (now : Int) (role : Bytes) (workers : List Bytes) (ep : Option EndpointInfo)
      (peerIp existingId : Bytes) (extra : Json)
  | markNodeGrace (now : Int) (nodeId : Bytes)
  | restoreNodeActive (now : Int) (nodeId : Bytes)
  | updateNodeExtra (now : Int) (nodeId worker : Bytes) (extra : Json)
  | removeNodePermanently (nodeId : Bytes)
  | resolveNode (role worker : Bytes)

/-- What the operation leaves, and what it announces. -/
def Operation.run (cfg : RegistryConfig) (r : Registry) : Operation → Registry × Outcome
  | addEventCallback observer => (r.addEventCallback observer, .refused)
  | removeEventCallback token => (r.removeEventCallback token, .refused)
  | registerOrUpdateNode now role workers ep peerIp existingId extra =>
    r.registerOrUpdateNode cfg now role workers ep peerIp existingId extra
  | markNodeGrace now nodeId => r.markNodeGrace now nodeId
  | restoreNodeActive now nodeId => r.restoreNodeActive now nodeId
  | updateNodeExtra now nodeId worker extra => r.updateNodeExtra cfg now nodeId worker extra
  | removeNodePermanently nodeId => r.removeNodePermanently cfg nodeId
  | resolveNode role worker => ((r.resolveNode cfg.order role worker).2, .refused)

/-- The time an operation reads off the clock. -/
def Operation.time? : Operation → Option Int
  | registerOrUpdateNode now .. | markNodeGrace now _ | restoreNodeActive now _ | updateNodeExtra now .. => some now
  | addEventCallback _ | removeEventCallback _ | removeNodePermanently _ | resolveNode .. => none

/-- The registry after a run. -/
def after (cfg : RegistryConfig) (r : Registry) (ops : List Operation) : Registry :=
  ops.foldl (fun r op => (op.run cfg r).1) r

/-- The clock never runs backwards during the run, and shows `now` or less at its end. -/
def ClockUntil (now : Int) (ops : List Operation) : Prop := (ops.filterMap Operation.time? ++ [now]).Pairwise (· ≤ ·)

instance (now : Int) (ops : List Operation) : Decidable (ClockUntil now ops) :=
  inferInstanceAs (Decidable (List.Pairwise ..))

section
variable {cfg : RegistryConfig} {node node' : NodeInfo} {gauge gauge' : Int} {threw : Bool}

/-- The value serialises to at most `max_node_extra_bytes` bytes. -/
def FitsLimit (cfg : RegistryConfig) (value : Json) : Prop :=
  ∃ text, cfg.json.dump value = some text ∧ text.length ≤ cfg.maxNodeExtraBytes

/-- What holds of the record stored under `k`. -/
structure WellFormed (cfg : RegistryConfig) (k : Bytes) (node : NodeInfo) : Prop where
  id : node.id = k
  status : node.status ≠ .erased
  expires : node.expiresIn.isSome = true ↔ node.status = .grace
  formed : Formed cfg node.extra
  workers : ∀ f ∈ node.extra.members, f.1 ∈ node.workers
  limit : ∀ f ∈ node.extra.members, FitsLimit cfg f.2

/-! What a record's extra can hold. -/

/-- The extra of a node with these workers. -/
structure ExtraFits (cfg : RegistryConfig) (workers : List Bytes) (extra : Json) : Prop where
  formed : Formed cfg extra
  workers : ∀ f ∈ extra.members, f.1 ∈ workers
  limit : ∀ f ∈ extra.members, FitsLimit cfg f.2

theorem ExtraFits.printable {workers : List Bytes} {extra : Json} (h : ExtraFits cfg workers extra) :
    Printable extra := by
  rcases h.formed.cases with ho | ho
  · refine .of_members ho fun f hf => ?_
    obtain ⟨text, ht, -⟩ := h.limit f hf
    exact cfg.json.utf8_of_dump ht
  · intro v hv
    rw [ho] at hv
    obtain rfl := List.mem_singleton.mp hv
    rfl

theorem WellFormed.extraFits {k : Bytes} (h : WellFormed cfg k node) : ExtraFits cfg node.workers node.extra :=
  ⟨h.formed, h.workers, h.limit⟩

/-- Only the extra differs, and it fits if it did before. -/
structure SameButExtra (cfg : RegistryConfig) (node node' : NodeInfo) : Prop where
  same : ∃ e, node' = { node with extra := e }
  fits : ExtraFits cfg node.workers node.extra → ExtraFits cfg node'.workers node'.extra

theorem SameButExtra.refl (node : NodeInfo) : SameButExtra cfg node node := ⟨⟨_, rfl⟩, id⟩

theorem SameButExtra.trans {node'' : NodeInfo} (h : SameButExtra cfg node node')
    (h' : SameButExtra cfg node' node'') : SameButExtra cfg node node'' := by
  refine ⟨?_, fun hf => h'.fits (h.fits hf)⟩
  obtain ⟨e, rfl⟩ := h.same
  obtain ⟨e', rfl⟩ := h'.same
  exact ⟨e', rfl⟩

theorem trySetExtraLocked_same {worker : Bytes} {value : Json} {delta : Int}
    (h : trySetExtraLocked cfg node worker value = .stored node' delta) : SameButExtra cfg node node' := by
  obtain ⟨-, -, hw, hl⟩ := trySetExtraLocked_fits h
  obtain ⟨rfl, he⟩ := trySetExtraLocked_stored h
  refine ⟨⟨_, rfl⟩, fun hf => ⟨he.formed cfg hf.formed, fun f hm => ?_, fun f hm => ?_⟩⟩
  · rcases he.members f hm with hm | ⟨-, hm, -⟩
    · exact hf.workers f hm
    · exact hm
  · rcases he.members f hm with hm | ⟨hm, -⟩
    · exact hf.limit f hm
    · obtain rfl := List.mem_singleton.mp hm
      exact hl

theorem announceExtra_same {members : List (Bytes × Json)}
    (h : announceExtra cfg node gauge members = (node', gauge', threw)) : SameButExtra cfg node node' := by
  refine announceExtra_invariant (P := fun n _ => SameButExtra cfg node n) ?_ (.refl node) h
  intro n g worker value n' delta hn hset
  exact hn.trans (trySetExtraLocked_same hset)

/-- A pruned extra holds what it held, less the members pruned. -/
theorem pruneKeys_members {keys : List Bytes} (h : pruneKeys cfg node gauge keys = (node', gauge', false)) :
    ∀ f ∈ node'.extra.members, f ∈ node.extra.members ∧ f.1 ∉ keys := by
  induction keys generalizing node gauge with
  | nil =>
    obtain ⟨rfl, -⟩ : node = node' ∧ gauge = gauge' := by simpa [pruneKeys] using h
    exact fun f hf => ⟨hf, List.not_mem_nil⟩
  | cons key rest ih =>
    rw [pruneKeys] at h
    intro f hf
    split at h
    · rename_i hnone
      obtain ⟨hm, hr⟩ := ih h f hf
      refine ⟨hm, List.not_mem_cons_of_ne_of_not_mem (fun he => ?_) hr⟩
      exact Json.field_ne_none_of_mem hm (he ▸ hnone)
    · split at h
      · exact absurd (Prod.mk.inj (Prod.mk.inj h).2).2 (by decide)
      · obtain ⟨hm, hr⟩ := ih h f hf
        obtain ⟨hm, hk⟩ := Json.mem_members_erase.mp hm
        exact ⟨hm, List.not_mem_cons_of_ne_of_not_mem hk hr⟩

theorem pruneStaleExtraLocked_members (h : pruneStaleExtraLocked cfg node gauge = (node', gauge', false)) :
    ∀ f ∈ node'.extra.members, f ∈ node.extra.members ∧ f.1 ∈ node'.workers := by
  unfold pruneStaleExtraLocked at h
  split at h
  · cases (Prod.mk.inj (Prod.mk.inj h).2).2
  · rename_i keys hkeys
    intro f hf
    obtain ⟨hm, hstale⟩ := pruneKeys_members h f hf
    refine ⟨hm, ?_⟩
    rw [(pruneKeys_effect h).1.workers]
    by_contra hno
    refine hstale (List.mem_filter.mpr ⟨Json.mem_keys hkeys hm, ?_⟩)
    simpa using hno

/-! One operation. -/

variable {now : Int} {role peerIp existingId nodeId worker k : Bytes} {workers : List Bytes}
  {ep : Option EndpointInfo} {extra : Json} {r r' : Registry} {out : Outcome}

/-- A record written under `k` at the time `now`, where `old?` stood before. -/
structure Written (cfg : RegistryConfig) (now : Int) (k : Bytes) (old? : Option NodeInfo) (node : NodeInfo) :
    Prop where
  activeAt : node.activeAt = now
  addedAt : node.addedAt = old?.elim now NodeInfo.addedAt
  wellFormed : (∀ old ∈ old?, WellFormed cfg k old) → WellFormed cfg k node

theorem upsert_written (h : upsert cfg now role workers ep nodeId r = (node, r', threw)) :
    r'.nodes = r.nodes.insert nodeId node ∧ Written cfg now nodeId (r.nodes.lookup nodeId) node := by
  cases upsert_cases h with
  | @pruned old _ gauge _ hold hp =>
    obtain ⟨heff, hprint⟩ := pruneStaleExtraLocked_effect hp
    obtain ⟨e, rfl⟩ := heff.same
    rw [hold]
    refine ⟨rfl, rfl, rfl, fun hw => ?_⟩
    have hold := hw old rfl
    have hformed := heff.formed cfg hold.formed
    rcases hformed.cases with ho | ho
    · -- every stored value can be printed, so the pruning ran to its end
      have hobject : old.extra.isObject = true := by
        rcases hold.formed.cases with hold' | harray
        · exact hold'
        · rw [heff.frozen (by rw
            [show (announced now role workers ep old).extra = old.extra from rfl, harray]; rfl)] at ho
          exact ho
      obtain rfl : threw = false := hprint hold.extraFits.printable hobject
      have hm := pruneStaleExtraLocked_members hp
      refine ⟨hold.id, NodeStatus.noConfusion, iff_of_false Bool.noConfusion NodeStatus.noConfusion, hformed,
        fun f hf => ?_, fun f hf => ?_⟩
      · exact (hm f hf).2
      · exact hold.limit f (hm f hf).1
    · have hnone (f : Bytes × Json) (hf : f ∈ e.members) : False := by
        rw [show e = .arr [.obj []] from ho] at hf
        cases hf
      exact ⟨hold.id, NodeStatus.noConfusion, iff_of_false Bool.noConfusion NodeStatus.noConfusion, hformed,
        fun f hf => (hnone f hf).elim, fun f hf => (hnone f hf).elim⟩
  | created hnone =>
    rw [hnone]
    refine ⟨rfl, rfl, rfl, fun _ => ?_⟩
    have hnone (f : Bytes × Json) (hf : f ∈ (newNode cfg now nodeId role workers ep).extra.members) : False := by
      rw [newNode, members_initial] at hf
      cases hf
    exact ⟨rfl, NodeStatus.noConfusion, iff_of_false Bool.noConfusion NodeStatus.noConfusion, formed_initial cfg,
      fun f hf => (hnone f hf).elim, fun f hf => (hnone f hf).elim⟩

theorem Written.announce {old? : Option NodeInfo} (h : Written cfg now k old? node)
    (hs : SameButExtra cfg node node') : Written cfg now k old? node' := by
  obtain ⟨⟨e, rfl⟩, hfits⟩ := hs
  refine ⟨h.activeAt, h.addedAt, fun hw => ?_⟩
  have hnode := h.wellFormed hw
  have hf := hfits hnode.extraFits
  exact ⟨hnode.id, hnode.status, hnode.expires, hf.formed, hf.workers, hf.limit⟩

theorem registerOrUpdateNode_written
    (h : registerOrUpdateNode cfg now role workers ep peerIp existingId extra r = (r', out)) :
    ∃ node, r'.nodes = r.nodes.insert (targetId now existingId r) node ∧
      Written cfg now (targetId now existingId r) (r.nodes.lookup (targetId now existingId r)) node := by
  obtain ⟨counter, hdrawn⟩ := drawId_same existingId r
  cases registerOrUpdateNode_cases h with
  | @threw node _ hu =>
    rw [hdrawn] at hu
    have hwritten := upsert_written hu
    exact ⟨node, hwritten⟩
  | @announced _ node' _ _ _ hu ha =>
    rw [hdrawn] at hu
    obtain ⟨hn, hw⟩ := upsert_written hu
    refine ⟨node', ?_, hw.announce (announceExtra_same ha)⟩
    simp [hn, AList.insert_insert]

theorem modifyNode_written {f : NodeInfo → NodeInfo}
    (hf : ∀ old, (f old).activeAt = now ∧ (f old).addedAt = old.addedAt)
    (hw : ∀ k old, WellFormed cfg k old → WellFormed cfg k (f old)) (h : modifyNode nodeId f r = (r', out)) :
    r'.nodes = r.nodes ∨ ∃ node, r'.nodes = r.nodes.insert nodeId node ∧
      Written cfg now nodeId (r.nodes.lookup nodeId) node := by
  rcases modifyNode_effect h with ⟨-, rfl, -⟩ | ⟨old, hold, hn, -, -⟩
  · exact .inl rfl
  · refine .inr ⟨f old, hn, (hf old).1, ?_, fun hall => hw _ _ (hall old hold)⟩
    rw [hold]
    exact (hf old).2

theorem markNodeGrace_written (h : markNodeGrace now nodeId r = (r', out)) :
    r'.nodes = r.nodes ∨ ∃ node, r'.nodes = r.nodes.insert nodeId node ∧
      Written cfg now nodeId (r.nodes.lookup nodeId) node := by
  refine modifyNode_written (fun old => ?_) (fun k old hw => ?_) h
  · exact ⟨rfl, rfl⟩
  · exact ⟨hw.id, nofun, ⟨fun _ => rfl, fun _ => rfl⟩, hw.formed, hw.workers, hw.limit⟩

theorem restoreNodeActive_written (h : restoreNodeActive now nodeId r = (r', out)) :
    r'.nodes = r.nodes ∨ ∃ node, r'.nodes = r.nodes.insert nodeId node ∧
      Written cfg now nodeId (r.nodes.lookup nodeId) node := by
  refine modifyNode_written (fun old => ?_) (fun k old hw => ?_) h
  · exact ⟨rfl, rfl⟩
  · exact ⟨hw.id, nofun, ⟨nofun, nofun⟩, hw.formed, hw.workers, hw.limit⟩

theorem updateNodeExtra_written (h : updateNodeExtra cfg now nodeId worker extra r = (r', out)) :
    r'.nodes = r.nodes ∨ ∃ node, r'.nodes = r.nodes.insert nodeId node ∧
      Written cfg now nodeId (r.nodes.lookup nodeId) node := by
  rcases updateNodeExtra_effect h with ⟨rfl, -⟩ | ⟨old, delta, hold, ht, hn, -, -⟩
  · exact .inl rfl
  · refine .inr ⟨_, hn, rfl, ?_, fun hall => ?_⟩
    · rw [hold]
      rfl
    · have hw := hall old hold
      have he := (trySetExtraLocked_same ht).fits hw.extraFits
      exact ⟨hw.id, hw.status, hw.expires, he.formed, he.workers, he.limit⟩

/-- An operation leaves the records alone, erases one, or writes one. -/
theorem run_nodes {op : Operation} (h : op.run cfg r = (r', out)) :
    r'.nodes = r.nodes ∨ (∃ k, r'.nodes = r.nodes.erase k) ∨
      ∃ now k node, op.time? = some now ∧ r'.nodes = r.nodes.insert k node ∧
        Written cfg now k (r.nodes.lookup k) node := by
  cases op with
  | addEventCallback | removeEventCallback =>
    obtain ⟨rfl, -⟩ := Prod.mk.inj h
    exact .inl rfl
  | resolveNode role worker =>
    obtain ⟨rfl, -⟩ := Prod.mk.inj h
    exact .inl (nodes_resolveNode _ _ _ _)
  | registerOrUpdateNode now =>
    obtain ⟨node, hn, hw⟩ := registerOrUpdateNode_written h
    exact .inr (.inr ⟨now, _, node, rfl, hn, hw⟩)
  | markNodeGrace now nodeId =>
    exact (markNodeGrace_written h).imp_right fun ⟨node, hn, hw⟩ => .inr ⟨now, nodeId, node, rfl, hn, hw⟩
  | restoreNodeActive now nodeId =>
    exact (restoreNodeActive_written h).imp_right fun ⟨node, hn, hw⟩ => .inr ⟨now, nodeId, node, rfl, hn, hw⟩
  | updateNodeExtra now nodeId =>
    exact (updateNodeExtra_written h).imp_right fun ⟨node, hn, hw⟩ => .inr ⟨now, nodeId, node, rfl, hn, hw⟩
  | removeNodePermanently nodeId =>
    rcases removeNodePermanently_effect h with ⟨-, rfl, -⟩ | ⟨old, -, hn, -, -, -⟩
    · exact .inl rfl
    · exact .inr (.inl ⟨nodeId, hn⟩)

/-! What an operation announces. -/

/-- The node an operation is about. -/
def Operation.about? (r : Registry) : Operation → Option Bytes
  | registerOrUpdateNode now _ _ _ _ existingId _ => some (targetId now existingId r)
  | markNodeGrace _ nodeId | restoreNodeActive _ nodeId | updateNodeExtra _ nodeId _ _
  | removeNodePermanently nodeId => some nodeId
  | addEventCallback _ | removeEventCallback _ | resolveNode .. => none

/-- The data a registration brings for the workers of its node can be printed, and meets no extra that is no object. -/
def Operation.Completes (cfg : RegistryConfig) (r : Registry) : Operation → Prop
  | registerOrUpdateNode now _ workers _ _ existingId extra =>
    Unobstructed cfg (r.nodes.lookup (targetId now existingId r)) workers extra ∧
      ∀ f ∈ extra.members, f.1 ∈ workers → f.2.utf8 = true
  | _ => True

/-- The operation announces `node`, and that is all it does to the records. -/
structure Announces (op : Operation) (r r' : Registry) (out : Outcome) (node : NodeInfo) : Prop where
  out : out = .event node
  about : op.about? r = some node.id
  nodes : r'.nodes = if node.status = .erased then r.nodes.erase node.id else r.nodes.insert node.id node

theorem announces_modifyNode {op : Operation} {f : NodeInfo → NodeInfo} (hr : Stored (WellFormed cfg) r)
    (habout : op.about? r = some nodeId) (hid : ∀ old, (f old).id = old.id) (hst : ∀ old, (f old).status ≠ .erased)
    (h : modifyNode nodeId f r = (r', out)) :
    (∃ node, Announces op r r' out node) ∨ ((∀ node, out ≠ .event node) ∧ r'.nodes = r.nodes) := by
  rcases modifyNode_effect h with ⟨-, rfl, rfl⟩ | ⟨old, hold, hn, -, rfl⟩
  · exact .inr ⟨nofun, rfl⟩
  · have hk : (f old).id = nodeId := (hid old).trans (hr _ _ hold).id
    exact .inl ⟨f old, rfl, hk ▸ habout, by rw [if_neg (hst old), hk, hn]⟩

/-- An operation that completes announces what it changes. -/
theorem run_announces {op : Operation} (hr : Stored (WellFormed cfg) r) (hp : op.Completes cfg r)
    (h : op.run cfg r = (r', out)) :
    (∃ node, Announces op r r' out node) ∨ ((∀ node, out ≠ .event node) ∧ r'.nodes = r.nodes) := by
  have hprint {k : Bytes} {old : NodeInfo} (hold : r.nodes.lookup k = some old) : Printable old.extra :=
    (hr k old hold).extraFits.printable
  cases op with
  | addEventCallback | removeEventCallback =>
    obtain ⟨rfl, rfl⟩ := Prod.mk.inj h
    exact .inr ⟨nofun, rfl⟩
  | resolveNode role worker =>
    obtain ⟨rfl, rfl⟩ := Prod.mk.inj h
    exact .inr ⟨nofun, nodes_resolveNode _ _ _ _⟩
  | registerOrUpdateNode now role workers ep peerIp existingId extra =>
    obtain ⟨node, hn, -, hreg, -, hevent⟩ := registerOrUpdateNode_effect h
    have hk : node.id = targetId now existingId r := by
      rw [hreg.id]
      cases hl : r.nodes.lookup (targetId now existingId r) with
      | none => rfl
      | some old => exact (hr _ old hl).id
    refine .inl ⟨node, hevent (fun old ho => ⟨hprint ho, (hr _ old ho).formed⟩) hp.1 hp.2, congrArg some hk.symm, ?_⟩
    rw [hreg.status, if_neg nofun, hn, hk]
  | markNodeGrace now nodeId =>
    refine announces_modifyNode hr rfl (fun old => ?_) (fun old => ?_) h
    · rfl
    · exact nofun
  | restoreNodeActive now nodeId =>
    refine announces_modifyNode hr rfl (fun old => ?_) (fun old => ?_) h
    · rfl
    · exact nofun
  | updateNodeExtra now nodeId worker extra =>
    rcases updateNodeExtra_effect h with ⟨rfl, rfl | rfl⟩ | ⟨old, delta, hold, -, hn, -, rfl⟩
    · exact .inr ⟨nofun, rfl⟩
    · exact .inr ⟨nofun, rfl⟩
    · have hk := (hr _ old hold).id
      refine .inl ⟨_, rfl, congrArg some hk.symm, ?_⟩
      rw [if_neg (by exact (hr _ old hold).status), hn]
      exact congrArg (fun k => r.nodes.insert k _) hk.symm
  | removeNodePermanently nodeId =>
    rcases removeNodePermanently_effect h with ⟨-, rfl, rfl⟩ | ⟨old, hold, hn, -, -, hevent⟩
    · exact .inr ⟨nofun, rfl⟩
    · have hk := (hr _ old hold).id
      refine .inl ⟨_, hevent (hprint hold), congrArg some hk.symm, ?_⟩
      rw [if_pos rfl, hn]
      exact congrArg r.nodes.erase hk.symm

/-- An operation adds a callback, removes one, or leaves the callbacks alone. -/
theorem run_callbacks {op : Operation} (h : op.run cfg r = (r', out)) :
    (∃ observer, op = .addEventCallback observer ∧ r' = r.addEventCallback observer ∧ out = .refused) ∨
      (∃ token, op = .removeEventCallback token ∧ r' = r.removeEventCallback token ∧ out = .refused) ∨
      r'.eventCbs = r.eventCbs ∧ r'.eventCbIdCounter = r.eventCbIdCounter := by
  have same (hs : SameObservers r r') : r'.eventCbs = r.eventCbs ∧ r'.eventCbIdCounter = r.eventCbIdCounter :=
    ⟨hs.eventCbs, hs.eventCbIdCounter⟩
  cases op with
  | addEventCallback observer =>
    obtain ⟨rfl, rfl⟩ := Prod.mk.inj h
    exact .inl ⟨observer, rfl, rfl, rfl⟩
  | removeEventCallback token =>
    obtain ⟨rfl, rfl⟩ := Prod.mk.inj h
    exact .inr (.inl ⟨token, rfl, rfl, rfl⟩)
  | resolveNode role worker =>
    obtain ⟨rfl, -⟩ := Prod.mk.inj h
    refine .inr (.inr ?_)
    unfold resolveNode
    dsimp only
    split <;> exact ⟨rfl, rfl⟩
  | registerOrUpdateNode =>
    obtain ⟨-, -, hs, -⟩ := registerOrUpdateNode_effect h
    exact .inr (.inr (same hs))
  | markNodeGrace | restoreNodeActive =>
    rcases modifyNode_effect h with ⟨-, rfl, -⟩ | ⟨-, -, -, hs, -⟩
    · exact .inr (.inr ⟨rfl, rfl⟩)
    · exact .inr (.inr (same hs))
  | updateNodeExtra =>
    rcases updateNodeExtra_effect h with ⟨rfl, -⟩ | ⟨-, -, -, -, -, hs, -⟩
    · exact .inr (.inr ⟨rfl, rfl⟩)
    · exact .inr (.inr (same hs))
  | removeNodePermanently =>
    rcases removeNodePermanently_effect h with ⟨-, rfl, -⟩ | ⟨-, -, -, hs, -⟩
    · exact .inr (.inr ⟨rfl, rfl⟩)
    · exact .inr (.inr (same hs))

/-! Runs. -/

variable {P : Bytes → NodeInfo → Prop}

theorem wellFormed_run {op : Operation} (hr : Stored (WellFormed cfg) r) (h : op.run cfg r = (r', out)) :
    Stored (WellFormed cfg) r' := by
  rcases run_nodes h with hn | ⟨k, hn⟩ | ⟨now, k, node, -, hn, hw⟩
  · exact hr.same hn
  · exact hr.erase hn
  · exact hr.insert hn (hw.wellFormed fun old hold => hr k old hold)

theorem wellFormed_after (hr : Stored (WellFormed cfg) r) (ops : List Operation) :
    Stored (WellFormed cfg) (after cfg r ops) := by
  induction ops generalizing r with
  | nil => exact hr
  | cons op ops ih => exact ih (wellFormed_run hr rfl)

/-- The record was first added no later than it was last active, and that was by `now`. -/
def Timed (now : Int) (_ : Bytes) (node : NodeInfo) : Prop := node.addedAt ≤ node.activeAt ∧ node.activeAt ≤ now

theorem Stored.later {now' : Int} (hr : Stored (Timed now) r) (h : now ≤ now') : Stored (Timed now') r := by
  intro k node hk
  obtain ⟨h1, h2⟩ := hr k node hk
  exact ⟨h1, Int.le_trans h2 h⟩

theorem timed_run {op : Operation} (hr : Stored (Timed now) r) (ht : ∀ t ∈ op.time?, t = now)
    (h : op.run cfg r = (r', out)) : Stored (Timed now) r' := by
  rcases run_nodes h with hn | ⟨k, hn⟩ | ⟨t, k, node, hop, hn, hw⟩
  · exact hr.same hn
  · exact hr.erase hn
  · obtain rfl := ht t hop
    refine hr.insert hn ⟨?_, Int.le_of_eq hw.activeAt⟩
    rw [hw.activeAt, hw.addedAt]
    cases hl : r.nodes.lookup k with
    | none => exact Int.le_refl t
    | some old =>
      obtain ⟨h1, h2⟩ := hr k old hl
      exact Int.le_trans h1 h2

theorem timed_after {ops : List Operation} (hc : ClockUntil now ops) :
    Stored (Timed now) (after cfg empty ops) := by
  induction ops using List.reverseRecOn generalizing now with
  | nil => exact stored_empty _
  | append_singleton ops op ih =>
    rw [after, List.foldl_append]
    cases ht : op.time? with
    | none =>
      have hc : ClockUntil now ops := by simpa [ClockUntil, ht] using hc
      exact timed_run (ih hc) (by simp [ht]) rfl
    | some t =>
      have hboth : ClockUntil t ops ∧ t ≤ now := by
        rw [ClockUntil, List.filterMap_append, List.pairwise_append] at hc
        refine ⟨by simpa [ClockUntil, ht] using hc.1, hc.2.2 t (by simp [ht]) now (by simp)⟩
      exact (timed_run (ih hboth.1) (by simp [ht]) rfl).later hboth.2

/-- The operation registers a node, or announces one again. -/
def Operation.Registers : Operation → Prop
  | registerOrUpdateNode .. => True
  | _ => False

/-- Without a registration nothing is ever stored. -/
theorem unregistered_run {op : Operation} (hr : ∀ k, r.nodes.lookup k = none) (hop : ¬ op.Registers)
    (h : op.run cfg r = (r', out)) : ∀ k, r'.nodes.lookup k = none := by
  have modify {nodeId : Bytes} {f : NodeInfo → NodeInfo} (h : modifyNode nodeId f r = (r', out)) : r' = r := by
    rcases modifyNode_effect h with ⟨-, rfl, -⟩ | ⟨old, hold, -⟩
    · rfl
    · cases (hr nodeId).symm.trans hold
  cases op with
  | registerOrUpdateNode => exact absurd trivial hop
  | addEventCallback | removeEventCallback =>
    obtain ⟨rfl, -⟩ := Prod.mk.inj h
    exact hr
  | resolveNode role worker =>
    obtain ⟨rfl, -⟩ := Prod.mk.inj h
    intro k
    rw [nodes_resolveNode]
    exact hr k
  | markNodeGrace | restoreNodeActive =>
    obtain rfl := modify h
    exact hr
  | updateNodeExtra now nodeId =>
    rcases updateNodeExtra_effect h with ⟨rfl, -⟩ | ⟨old, -, hold, -⟩
    · exact hr
    · cases (hr nodeId).symm.trans hold
  | removeNodePermanently nodeId =>
    rcases removeNodePermanently_effect h with ⟨-, rfl, -⟩ | ⟨old, hold, -⟩
    · exact hr
    · cases (hr nodeId).symm.trans hold

theorem unregistered_after {ops : List Operation} (hr : ∀ k, r.nodes.lookup k = none)
    (hops : ∀ op ∈ ops, ¬ op.Registers) : ∀ k, (after cfg r ops).nodes.lookup k = none := by
  induction ops generalizing r with
  | nil => exact hr
  | cons op ops ih =>
    obtain ⟨hop, hrest⟩ := List.forall_mem_cons.mp hops
    exact ih (unregistered_run hr hop rfl) hrest

/-- What a registration has stored. -/
theorem registered_stored (cfg : RegistryConfig) {op : Operation} (hop : op.Registers) (r : Registry) :
    ∃ k node, (op.run cfg r).1.nodes.lookup k = some node := by
  cases op with
  | registerOrUpdateNode now role workers ep peerIp existingId extra =>
    obtain ⟨⟨r', out⟩, h⟩ : ∃ x, r.registerOrUpdateNode cfg now role workers ep peerIp existingId extra = x := ⟨_, rfl⟩
    obtain ⟨node, hn, -⟩ := registerOrUpdateNode_written h
    refine ⟨targetId now existingId r, node, ?_⟩
    rw [Operation.run, h, hn, AList.lookup_insert]
  | _ => exact hop.elim

/-- **Whatever operations run, in any order and with any arguments, every record stored at any time of the run is
well formed, its extra is an object, and on a clock that does not run backwards it was added no later than it was
last active, and active no later than now, if and only if braces copy or the run registers nothing.** -/
theorem stored_nodes_wellFormed_iff (cfg : RegistryConfig) (ops : List Operation) :
    (∀ before, before <+: ops → ∀ k node, (after cfg empty before).nodes.lookup k = some node →
      WellFormed cfg k node ∧ node.extra.isObject = true ∧
        ∀ now, ClockUntil now before → node.addedAt ≤ node.activeAt ∧ node.activeAt ≤ now) ↔
      cfg.json.bracesWrap = false ∨ ∀ op ∈ ops, ¬ op.Registers := by
  constructor
  · intro h
    refine Classical.or_iff_not_imp_left.mpr fun hwrap op hop hreg => ?_
    -- the record that the first half of the run and the registration leave
    obtain ⟨before, rest, rfl⟩ := List.append_of_mem hop
    obtain ⟨k, node, hk⟩ := registered_stored cfg hreg (after cfg empty before)
    have hstored : (after cfg empty (before ++ [op])).nodes.lookup k = some node := by
      rw [after, List.foldl_append]
      exact hk
    have hpre : before ++ [op] <+: before ++ op :: rest := ⟨rest, by simp⟩
    obtain ⟨hw, ho, -⟩ := h _ hpre k node hstored
    rw [hw.formed.wraps (Bool.not_eq_false _ ▸ hwrap)] at ho
    cases ho
  · rintro hcond before hpre k node hk
    have hw : WellFormed cfg k node := wellFormed_after (stored_empty _) before k node hk
    refine ⟨hw, ?_, fun now hc => timed_after hc k node hk⟩
    rcases hcond with hcopies | hnone
    · exact hw.formed.copies hcopies
    · have hempty (k : Bytes) : (empty : Registry).nodes.lookup k = none := AList.lookup_empty k
      have hno : (after cfg empty before).nodes.lookup k = none :=
        unregistered_after hempty (fun op hop => hnone op (hpre.subset hop)) k
      cases hno.symm.trans hk

end

/-- One registration, by a server for which braces make an array. -/
theorem registered_extra_wrapped :
    ¬ ∀ (cfg : RegistryConfig) (ops : List Operation) (k : Bytes) (node : NodeInfo),
      (after cfg empty ops).nodes.lookup k = some node → node.extra.isObject = true := by
  intro h
  let ops : List Operation :=
    [.registerOrUpdateNode 5 (ascii "gate") [ascii "job"] none (ascii "127.0.0.1") [] (.obj [])]
  have hstored : ((after (RegistryConfig.ofDocuments []).wrapping empty ops).nodes.lookup (generateNodeId 5 1)).any
      (fun node => !node.extra.isObject) = true := by
    decide +kernel
  obtain ⟨node, hk, hno⟩ := (Option.any_eq_true _ _).mp hstored
  rw [h _ _ _ _ hk] at hno
  cases hno

end LightApr.Core.Registry
