import LightApr.Sdk.Replica

/-! The replica of the C# library. Its queue is an unordered bag. -/
namespace LightApr.Sdk.CSharp
open LightApr.Core Lib Replay Replica

/-- `NodeInfo` of the library: the status is kept as text, the extra as a dictionary. -/
structure Node where
  id : Bytes
  role : Bytes
  workers : List Bytes
  endpoint : Option EndpointInfo
  status : Bytes
  addedAt : Int
  activeAt : Int
  expiresIn : Option Int
  extra : Option (List (Bytes × Json))

/-- The properties bound to the members of a registry record. -/
def Node.ofRecord (node : NodeInfo) : Node where
  id := node.id
  role := node.role
  workers := node.workers
  endpoint := node.endpoint
  status := node.status.toString
  addedAt := node.addedAt
  activeAt := node.activeAt
  expiresIn := node.expiresIn
  extra := match node.extra with
    | .obj fields => some fields
    | _ => none

/-- The extra of the record can be a dictionary, or is null. -/
def Readable (node : NodeInfo) : Prop := node.extra.isObject = true ∨ node.extra = .null

/-- What the library relies on of `JsonSerializer`: a record that it accepts has an object or
nothing for its dictionary, and is read member by member. It need not accept every record. -/
structure Serializer where
  /-- none: an exception, which is caught, or null, which is ignored -/
  deserializeNode : Json → Option Node
  /-- the nodes of a `RegistryResponse` -/
  deserializeSnapshot : List Json → Option (List Node)
  node_toJson : ∀ {node n}, deserializeNode node.toJson = some n → Readable node ∧ n = .ofRecord node
  snapshot_toJson : ∀ {nodes : List NodeInfo} {ns}, deserializeSnapshot (nodes.map NodeInfo.toJson) = some ns →
    (∀ node ∈ nodes, Readable node) ∧ ns = nodes.map .ofRecord

/-- The node of a record whose extra is an object. -/
def Node.ofJson? (j : Json) : Option Node :=
  match j.field? (ascii "extra") with
  | some (.obj _) => (NodeInfo.fromJson j).map .ofRecord
  | _ => none

private theorem ofJson_toJson {node : NodeInfo} {n : Node} (h : Node.ofJson? node.toJson = some n) :
    Readable node ∧ n = .ofRecord node := by
  have hextra : node.toJson.field? (ascii "extra") = some node.extra :=
    NodeInfo.field_toJson (by simp [NodeInfo.jsonMembers])
  rw [Node.ofJson?, hextra] at h
  split at h
  · rename_i he
    have ho : node.extra.isObject = true := by
      rw [Option.some.inj he]
      rfl
    rw [NodeInfo.fromJson_toJson ho, Option.map_some] at h
    exact ⟨.inl ho, (Option.some.inj h).symm⟩
  · cases h

private theorem mapM_ofJson {nodes : List NodeInfo} {ns : List Node}
    (h : (nodes.map NodeInfo.toJson).mapM Node.ofJson? = some ns) :
    (∀ node ∈ nodes, Readable node) ∧ ns = nodes.map .ofRecord := by
  induction nodes generalizing ns with
  | nil =>
    obtain rfl : [] = ns := Option.some.inj h
    exact ⟨nofun, rfl⟩
  | cons node nodes ih =>
    rw [List.map_cons, List.mapM_cons] at h
    obtain ⟨n, hn, h⟩ := Option.bind_eq_some_iff.mp h
    obtain ⟨rest, hrest, h⟩ := Option.bind_eq_some_iff.mp h
    obtain rfl := Option.some.inj h
    obtain ⟨hread, rfl⟩ := ofJson_toJson hn
    obtain ⟨hall, rfl⟩ := ih hrest
    exact ⟨List.forall_mem_cons.mpr ⟨hread, hall⟩, rfl⟩

/-- One that accepts every record whose extra is an object. -/
def Serializer.ofRecords : Serializer where
  deserializeNode := Node.ofJson?
  deserializeSnapshot nodes := nodes.mapM Node.ofJson?
  node_toJson h := ofJson_toJson h
  snapshot_toJson h := mapM_ofJson h

def loadSnapshot (ser : Serializer) (localNodes : Table Node) (nodes : List Json) : Table Node :=
  match ser.deserializeSnapshot nodes with
  | none => localNodes
  | some nodes => nodes.foldl (fun t node => t.insert node.id node) localNodes

def applyNodeEvent (localNodes : Table Node) (node : Node) : Table Node :=
  if node.status = ascii "OK" then localNodes.insert node.id node
  else if node.status = ascii "GRACE" then
    match localNodes.lookup node.id with
    | none => localNodes
    | some existing =>
      localNodes.insert node.id
        { existing with status := ascii "GRACE", expiresIn := some (node.expiresIn.getD 180) }
  else if node.status = ascii "ERASED" then localNodes.erase node.id
  else localNodes

def library (ser : Serializer) : Library Node Node := ⟨ser.deserializeNode, loadSnapshot ser, applyNodeEvent⟩

/-- The loop of `ReconcileQueue`: `TryTake` may return any element of the bag. -/
inductive Drained : Table Node → List Node → Table Node → Prop
  | done {localNodes : Table Node} : Drained localNodes [] localNodes
  | take {localNodes t : Table Node} {bag : List Node} {i : Nat} {node : Node} : bag[i]? = some node →
      Drained (applyNodeEvent localNodes node) (bag.eraseIdx i) t → Drained localNodes bag t

/-- The client when the loop begins. -/
def beforeDrain (ser : Serializer) (queued nodes : List Json) : Client Node Node :=
  fetchSnapshot (library ser) (queued.foldl (handleMessage (library ser)) ⟨∅, [], false⟩) nodes

/-! What is compared. -/

structure View where
  role : Bytes
  workers : List Bytes
  endpoint : Option EndpointInfo
  status : Bytes
  extra : Option (List (Bytes × Json))

def view (node : Node) : View := ⟨node.role, node.workers, node.endpoint, node.status, node.extra⟩

def shown (t : Table Node) : Bytes → Option View := fun id => (t.lookup id).map view

def graced (v : View) : View := { v with status := ascii "GRACE" }

/-! A drain applies the events in some order. -/

section
variable {t t' : Table Node} {bag : List Node}

theorem drained_iff :
    Drained t bag t' ↔ ∃ order : List Node, order.Perm bag ∧ order.foldl applyNodeEvent t = t' := by
  constructor
  · intro h
    induction h with
    | done => exact ⟨[], .refl _, rfl⟩
    | @take t t' bag i node hi _ ih =>
      obtain ⟨order, hperm, hfold⟩ := ih
      obtain ⟨hlt, rfl⟩ := List.getElem?_eq_some_iff.mp hi
      exact ⟨bag[i] :: order, (hperm.cons _).trans (List.getElem_cons_eraseIdx_perm hlt), hfold⟩
  · rintro ⟨order, hperm, hfold⟩
    induction order generalizing t bag with
    | nil =>
      obtain rfl := List.nil_perm.mp hperm
      obtain rfl : t = t' := hfold
      exact .done
    | cons node order ih =>
      obtain ⟨i, hlt, rfl⟩ := List.mem_iff_getElem.mp (hperm.subset List.mem_cons_self)
      have hrest : order.Perm (bag.eraseIdx i) :=
        (hperm.trans (List.getElem_cons_eraseIdx_perm hlt).symm).cons_inv
      exact .take (List.getElem?_eq_getElem hlt) (ih hrest hfold)

end

/-! One event. -/

/-- The event came from a registry. -/
def Announced (node : Node) : Prop := ∃ record : NodeInfo, node = .ofRecord record

def change (node : Node) : Bytes × Change View :=
  (node.id,
    if node.status = ascii "OK" then .put (view node)
    else if node.status = ascii "GRACE" then .touch
    else .delete)

theorem shown_applyNodeEvent (t : Table Node) {node : Node} (h : Announced node) :
    shown (applyNodeEvent t node) = applyAt graced (shown t) (change node) := by
  obtain ⟨record, rfl⟩ := h
  have hstatus : (Node.ofRecord record).status = record.status.toString := rfl
  unfold applyNodeEvent applyAt change
  rw [hstatus]
  cases record.status with
  | ok => exact Table.lookup_map_insert ..
  | grace =>
    rw [if_neg (by decide), if_pos (by decide), if_neg (by decide), if_pos (by decide)]
    cases hl : t.lookup (Node.ofRecord record).id with
    | none =>
      have hnone : shown t (Node.ofRecord record).id = none := by rw [shown, hl, Option.map_none]
      rw [Change.apply, hnone, Option.map_none, Function.update_eq_self_iff.mpr hnone.symm]
    | some existing =>
      have hsome : shown t (Node.ofRecord record).id = some (view existing) := by rw [shown, hl, Option.map_some]
      rw [Change.apply, hsome, Option.map_some]
      exact Table.lookup_map_insert ..
  | erased => exact Table.lookup_map_erase ..

theorem shown_foldl (t : Table Node) {events : List Node} (h : ∀ node ∈ events, Announced node) :
    shown (events.foldl applyNodeEvent t) = replay graced (events.map change) (shown t) := by
  induction events generalizing t with
  | nil => rfl
  | cons node events ih =>
    rw [List.foldl_cons, ih _ fun n hn => h n (List.mem_cons_of_mem _ hn),
      shown_applyNodeEvent t (h node List.mem_cons_self)]
    rfl

/-! The queue. -/

/-- What is queued are the records that the serializer accepts. -/
theorem syncQueue_queued (ser : Serializer) (messages : List Json) {c : Client Node Node}
    (hc : c.reconciled = false) :
    messages.foldl (handleMessage (library ser)) c =
      { c with syncQueue := c.syncQueue ++ messages.filterMap ser.deserializeNode } := by
  induction messages generalizing c with
  | nil => simp
  | cons j messages ih =>
    have hstep : handleMessage (library ser) c j =
        { c with syncQueue := c.syncQueue ++ (ser.deserializeNode j).toList } := by
      rw [handleMessage, library]
      cases hd : ser.deserializeNode j with
      | none => simp [hd]
      | some node => simp [hd, hc]
    rw [List.foldl_cons, hstep, ih (by exact hc)]
    cases hd : ser.deserializeNode j with
    | none => simp [hd]
    | some node => simp [hd]

theorem announced_queued (ser : Serializer) (events : List NodeInfo) (nodes : List Json) :
    ∀ node ∈ (beforeDrain ser (events.map NodeInfo.toJson) nodes).syncQueue, Announced node := by
  intro node hm
  rw [beforeDrain, syncQueue_queued ser _ rfl] at hm
  obtain ⟨j, hj, hd⟩ := List.mem_filterMap.mp hm
  obtain ⟨record, -, rfl⟩ := List.mem_map.mp hj
  exact ⟨record, (ser.node_toJson hd).2⟩

/-- **Whatever snapshot was loaded, every order in which the bag can be drained leaves what
the order of arrival leaves if and only if no queued event competes with a queued OK event
about its node.** -/
theorem drains_agree_iff (ser : Serializer) (cfg : RegistryConfig) (pre ops : List Op) (nodes : List Json) :
    let events := (history cfg (history cfg .empty pre).1 ops).2
    let c := beforeDrain ser (events.map NodeInfo.toJson) nodes
    (∀ t, Drained c.localNodes c.syncQueue t → shown t = shown (reconcileQueue (library ser) c).localNodes) ↔
      ∀ e ∈ c.syncQueue, ∀ e' ∈ c.syncQueue, e.id = e'.id → e.status = ascii "OK" → view e' = view e := by
  intro events c
  have hannounced : ∀ node ∈ c.syncQueue, Announced node := announced_queued ser events nodes
  have hput : ∀ e : Node, ∀ v, (change e).2 = .put v → e.status = ascii "OK" ∧ v = view e := by
    intro e v hv
    unfold change at hv
    dsimp only at hv
    split at hv
    · rename_i hok
      exact ⟨hok, (Change.put.inj hv).symm⟩
    · split at hv
      · cases hv
      · cases hv
  have hperm := replay_perm_iff change c.syncQueue (shown c.localNodes) (g := graced) fun e _ v hv he => by
    obtain ⟨hok, rfl⟩ := hput e v hv
    have hstatus : ascii "GRACE" = e.status := congrArg View.status he
    exact absurd (hstatus.trans hok) (by decide)
  have horders : (∀ t, Drained c.localNodes c.syncQueue t →
        shown t = shown (reconcileQueue (library ser) c).localNodes) ↔
      ∀ order : List Node, order.Perm c.syncQueue →
        replay graced (order.map change) (shown c.localNodes) =
          replay graced (c.syncQueue.map change) (shown c.localNodes) := by
    have harrival : shown (reconcileQueue (library ser) c).localNodes =
        replay graced (c.syncQueue.map change) (shown c.localNodes) := shown_foldl _ hannounced
    have hdrain {order : List Node} (hp : order.Perm c.syncQueue) :
        shown (order.foldl applyNodeEvent c.localNodes) = replay graced (order.map change) (shown c.localNodes) :=
      shown_foldl _ fun node hn => hannounced node (hp.subset hn)
    rw [harrival]
    constructor
    · intro h order hp
      rw [← hdrain hp]
      exact h _ (drained_iff.mpr ⟨order, hp, rfl⟩)
    · intro h t hd
      obtain ⟨order, hp, rfl⟩ := drained_iff.mp hd
      rw [hdrain hp, h order hp]
  rw [horders, hperm]
  constructor
  · intro h e he e' he' hid hok
    have hv : (change e).2 = .put (view e) := if_pos hok
    obtain ⟨-, hview⟩ := hput e' _ (h e he e' he' hid _ hv)
    exact hview.symm
  · intro h e he e' he' hid v hv
    obtain ⟨hok, rfl⟩ := hput e v hv
    have hview := h e he e' he' hid hok
    have hok' : e'.status = ascii "OK" := (congrArg View.status hview).trans hok
    rw [← hview]
    exact if_pos hok'

/-- A node registers and is removed while the snapshot is on its way. -/
private def briefly : List Op :=
  [.registerOrUpdateNode 100 (ascii "job") [] none (ascii "10.0.0.7") [] (.obj []),
    .removeNodePermanently (ascii "node-100-1")]

private def queuedBriefly : Client Node Node :=
  beforeDrain .ofRecords ((history (.ofDocuments []) .empty briefly).2.map NodeInfo.toJson)
    (snapshot .written 99 (history (.ofDocuments []) .empty []).1)

private theorem drained_backwards :
    let backwards := queuedBriefly.syncQueue.reverse.foldl applyNodeEvent queuedBriefly.localNodes
    (backwards.lookup (ascii "node-100-1")).isSome = true ∧
      ((reconcileQueue (library .ofRecords) queuedBriefly).localNodes.lookup
        (ascii "node-100-1")).isSome = false := by
  decide +kernel

/-- Drained backwards, the bag brings the removed node back. -/
theorem removed_node_returns :
    ¬ ∀ (ser : Serializer) (cfg : RegistryConfig) (pre before later : List Op) (now : Int),
      let start := (history cfg .empty pre).1
      let c := beforeDrain ser ((history cfg start (before ++ later)).2.map NodeInfo.toJson)
        (snapshot cfg.order now (history cfg start before).1)
      ∀ t, Drained c.localNodes c.syncQueue t → shown t = shown (reconcileQueue (library ser) c).localNodes := by
  intro h
  obtain ⟨hback, harrival⟩ := drained_backwards
  have heq := congrFun (h .ofRecords (.ofDocuments []) [] [] briefly 99 _
    (drained_iff.mpr ⟨_, List.reverse_perm _, rfl⟩)) (ascii "node-100-1")
  have hsome := congrArg Option.isSome heq
  rw [shown, shown, Option.isSome_map, Option.isSome_map] at hsome
  exact absurd (hback.symm.trans (hsome.trans harrival)) (by decide)

end LightApr.Sdk.CSharp
