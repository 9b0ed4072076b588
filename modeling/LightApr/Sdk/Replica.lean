import LightApr.Core.RegistryEffect
import LightApr.Lib.Replay
import LightApr.Sdk.Rounding

/-! The registry replicas of the client libraries: a snapshot of the registry, then the
node events of the broker, applied in order. -/
namespace LightApr.Sdk.Replica
open LightApr.Core Lib Replay Rounding

/-! The registry side: a sequence of mutations and the events they announce. -/

inductive Op where
  | registerOrUpdateNode (now : Int) (role : Bytes) (workers : List Bytes) (ep : Option EndpointInfo)
      (peerIp existingId : Bytes) (extra : Json)
  | updateNodeExtra (now : Int) (nodeId worker : Bytes) (extra : Json)
  | markNodeGrace (now : Int) (nodeId : Bytes)
  | restoreNodeActive (now : Int) (nodeId : Bytes)
  | removeNodePermanently (nodeId : Bytes)

def Op.run (cfg : RegistryConfig) (r : Registry) : Op → Registry × Outcome
  | registerOrUpdateNode now role workers ep peerIp existingId extra =>
    r.registerOrUpdateNode cfg now role workers ep peerIp existingId extra
  | updateNodeExtra now nodeId worker extra => r.updateNodeExtra cfg now nodeId worker extra
  | markNodeGrace now nodeId => r.markNodeGrace now nodeId
  | restoreNodeActive now nodeId => r.restoreNodeActive now nodeId
  | removeNodePermanently nodeId => r.removeNodePermanently cfg nodeId

def eventsOf : Outcome → List NodeInfo
  | .event node => [node]
  | .refused | .threw => []

/-- The registry after `ops`, and the events in the order they were announced. -/
def history (cfg : RegistryConfig) (r : Registry) : List Op → Registry × List NodeInfo
  | [] => (r, [])
  | op :: ops =>
    let (r', out) := op.run cfg r
    let (last, events) := history cfg r' ops
    (last, eventsOf out ++ events)

/-- The nodes of `GET /registry` when the page holds them all. -/
def snapshot (order : MapOrder) (now : Int) (r : Registry) : List Json :=
  (r.matched order now [] []).map NodeInfo.toJson

/-! The client side. The libraries share the queue and differ in how they read and
keep a node. -/

structure Client (ε ν : Type) where
  localNodes : Table ν
  syncQueue : List ε
  reconciled : Bool

structure Library (ε ν : Type) where
  /-- `JSON.parse` or the conversion to a node; none: it throws, which is caught -/
  decode : Json → Option ε
  loadSnapshot : Table ν → List Json → Table ν
  applyNodeEvent : Table ν → ε → Table ν

section
variable {ε ν : Type} (sdk : Library ε ν)

/-- The "apr/" branch of the message handler. -/
def handleMessage (c : Client ε ν) (payload : Json) : Client ε ν :=
  match sdk.decode payload with
  | none => c
  | some node =>
    if c.reconciled then { c with localNodes := sdk.applyNodeEvent c.localNodes node }
    else { c with syncQueue := c.syncQueue ++ [node] }

def fetchSnapshot (c : Client ε ν) (nodes : List Json) : Client ε ν :=
  { c with localNodes := sdk.loadSnapshot c.localNodes nodes }

def reconcileQueue (c : Client ε ν) : Client ε ν :=
  { localNodes := c.syncQueue.foldl sdk.applyNodeEvent c.localNodes, syncQueue := [], reconciled := true }

/-- Messages `queued` arrive before the queue is reconciled, `live` afterwards. -/
def bootstrap (queued nodes live : List Json) : Client ε ν :=
  let c := queued.foldl (handleMessage sdk) ⟨∅, [], false⟩
  live.foldl (handleMessage sdk) (reconcileQueue sdk (fetchSnapshot sdk c nodes))

end

namespace Cpp

/-- A node that cannot be converted ends the loop. -/
def loadSnapshot (localNodes : Table NodeInfo) : List Json → Table NodeInfo
  | [] => localNodes
  | nj :: rest =>
    match NodeInfo.fromJson nj with
    | none => localNodes
    | some n => loadSnapshot (localNodes.insert n.id n) rest

def applyNodeEvent (localNodes : Table NodeInfo) (node : NodeInfo) : Table NodeInfo :=
  match node.status with
  | .ok => localNodes.insert node.id node
  | .grace =>
    match localNodes.lookup node.id with
    | none => localNodes
    | some existing => localNodes.insert node.id { existing with status := .grace }
  | .erased => localNodes.erase node.id

def library : Library NodeInfo NodeInfo := ⟨NodeInfo.fromJson, loadSnapshot, applyNodeEvent⟩

end Cpp

/-! The TypeScript and the Node.js library run the same code on parsed JSON, whose numbers may be rounded. -/
namespace Js

/-- `node.id` -/
def idOf (node : Json) : Bytes := (NodeInfo.stringFromJson node (ascii "id")).getD []

def loadSnapshot (localNodes : Table Json) (nodes : List Json) : Table Json :=
  nodes.foldl (fun t node => t.insert (idOf node) node) localNodes

/-- `expires_in || 180` -/
def orGrace : Option Json → Json
  | none | some .null | some (.bool false) | some (.int 0) | some (.str []) => .int 180
  | some v => v

def applyNodeEvent (localNodes : Table Json) (nodeInfo : Json) : Table Json :=
  match NodeInfo.stringFromJson nodeInfo (ascii "status") with
  | none => localNodes
  | some status =>
    if status = ascii "OK" then localNodes.insert (idOf nodeInfo) nodeInfo
    else if status = ascii "GRACE" then
      match localNodes.lookup (idOf nodeInfo) with
      | none => localNodes
      | some existing =>
        localNodes.insert (idOf nodeInfo)
          ((existing.set (ascii "status") (.str (ascii "GRACE"))).set (ascii "expires_in")
            (orGrace (nodeInfo.field? (ascii "expires_in"))))
    else if status = ascii "ERASED" then localNodes.erase (idOf nodeInfo)
    else localNodes

def library (round : Json → Json) : Library Json Json :=
  ⟨fun j => some (rounded round j), fun t nodes => loadSnapshot t (nodes.map (rounded round)), applyNodeEvent⟩

end Js

/-! What is compared: role, workers, endpoint, status and extra of every id. -/

structure View where
  role : Bytes
  workers : List Bytes
  endpoint : Option EndpointInfo
  status : NodeStatus
  extra : Json

def view (node : NodeInfo) : View := ⟨node.role, node.workers, node.endpoint, node.status, node.extra⟩

/-- The same members of a node kept as JSON. -/
def jsonView (node : Json) : List (Option Json) :=
  [ascii "role", ascii "workers", ascii "endpoint", ascii "status", ascii "extra"].map node.field?

/-- The replica holds the registry's ids, each with the registry's data. -/
def Cpp.Agrees (c : Client NodeInfo NodeInfo) (r : Registry) : Prop :=
  ∀ id, (c.localNodes.lookup id).map view = (r.nodes.lookup id).map view

def Js.Agrees (c : Client Json Json) (r : Registry) : Prop :=
  ∀ id, (c.localNodes.lookup id).map jsonView = (r.nodes.lookup id).map fun node => jsonView node.toJson

/-- The update names a worker of the node, and the value is small enough. -/
def Accepted (cfg : RegistryConfig) (node : NodeInfo) (worker : Bytes) (extra : Json) : Prop :=
  worker ∈ node.workers ∧ ∃ text, cfg.json.dump extra = some text ∧ text.length ≤ cfg.maxNodeExtraBytes

/-- The step announces what it changes in a form every replica takes over: a registration
meets no extra that is no object, and the data it brings for listed workers can be printed; and
the extra of a node in its grace period does not change. -/
def Steady (cfg : RegistryConfig) (r : Registry) : Op → Prop
  | .registerOrUpdateNode now _ workers _ _ existingId extra =>
    Registry.Unobstructed cfg (r.nodes.lookup (Registry.targetId now existingId r)) workers extra ∧
      ∀ f ∈ extra.members, f.1 ∈ workers → f.2.utf8 = true
  | .updateNodeExtra _ nodeId worker extra =>
    ∀ node, r.nodes.lookup nodeId = some node → node.status = .grace → Accepted cfg node worker extra →
      node.extra.set worker extra = node.extra
  | _ => True

def SteadyFrom (cfg : RegistryConfig) (r : Registry) : List Op → Prop
  | [] => True
  | op :: ops => Steady cfg r op ∧ SteadyFrom cfg (op.run cfg r).1 ops

/-- The data that the step stores holds no number that is rounded. -/
def StoresExact (cfg : RegistryConfig) (round : Json → Json) (r : Registry) : Op → Prop
  | .registerOrUpdateNode _ _ workers _ _ _ extra => ∀ f ∈ extra.members, f.1 ∈ workers → Exact round f.2
  | .updateNodeExtra _ nodeId worker extra =>
    ∀ node, r.nodes.lookup nodeId = some node → Accepted cfg node worker extra → Exact round extra
  | _ => True

def StoresExactFrom (cfg : RegistryConfig) (round : Json → Json) (r : Registry) : List Op → Prop
  | [] => True
  | op :: ops => StoresExact cfg round r op ∧ StoresExactFrom cfg round (op.run cfg r).1 ops

/-! The abstract replica: a map of views and a log of changes to it. -/

def graced (v : View) : View := { v with status := .grace }

theorem graced_idem (v : View) : graced (graced v) = graced v := rfl

def change (node : NodeInfo) : Bytes × Change View :=
  (node.id, match node.status with
    | .ok => .put (view node)
    | .grace => .touch
    | .erased => .delete)

def shown (r : Registry) : Bytes → Option View := fun id => (r.nodes.lookup id).map view

/-! The registry makes exactly the changes it announces. -/

section
variable {cfg : RegistryConfig} {r r' : Registry} {op : Op} {out : Outcome}

theorem shown_insert {id : Bytes} {node : NodeInfo} (hn : r'.nodes = r.nodes.insert id node) :
    shown r' = Function.update (shown r) id (some (view node)) := by
  have hmap := Table.lookup_map_insert view r.nodes id node
  rwa [← hn] at hmap

private theorem shown_erase {id : Bytes} (hn : r'.nodes = r.nodes.erase id) :
    shown r' = Function.update (shown r) id none := by
  have hmap := Table.lookup_map_erase view r.nodes id
  rwa [← hn] at hmap

/-- One event, seen from the id it is about. -/
theorem replay_event {node : NodeInfo} {id : Bytes} (m : Bytes → Option View) (h : node.id = id) :
    replay graced ((eventsOf (.event node)).map change) m =
      Function.update m id ((change node).2.apply graced (m id)) := by
  subst h
  rfl

theorem Op.sound (hr : r.Sound cfg) (h : op.run cfg r = (r', out)) : r'.Sound cfg := by
  cases op with
  | registerOrUpdateNode => exact hr.registerOrUpdateNode h
  | updateNodeExtra => exact hr.updateNodeExtra h
  | markNodeGrace => exact hr.markNodeGrace h
  | restoreNodeActive => exact hr.restoreNodeActive h
  | removeNodePermanently => exact hr.removeNodePermanently h

/-- A change in place that keeps the id: the registry follows its own event. -/
private theorem shown_modifyNode {nodeId : Bytes} {f : NodeInfo → NodeInfo} (hr : r.Sound cfg)
    (hid : ∀ node, (f node).id = node.id)
    (hput : ∀ node, (change (f node)).2.apply graced (some (view node)) = some (view (f node)))
    (h : r.modifyNode nodeId f = (r', out)) :
    shown r' = replay graced ((eventsOf out).map change) (shown r) := by
  rcases Registry.modifyNode_effect h with ⟨-, rfl, rfl⟩ | ⟨old, hold, hn, -, rfl⟩
  · rfl
  · have hk : (f old).id = nodeId := (hid old).trans (hr _ _ hold).id
    have hv : shown r nodeId = some (view old) := congrArg (Option.map view) hold
    rw [shown_insert hn, replay_event _ hk, hv, hput]

/-- A registration that is announced. -/
theorem shown_registered {now : Int} {role peerIp existingId : Bytes} {workers : List Bytes}
    {ep : Option EndpointInfo} {extra : Json} {node : NodeInfo} (hr : r.Sound cfg)
    (h : r.registerOrUpdateNode cfg now role workers ep peerIp existingId extra = (r', .event node)) :
    shown r' = replay graced ((eventsOf (.event node)).map change) (shown r) := by
  obtain ⟨stored, hn, -, hreg, hout, -⟩ := Registry.registerOrUpdateNode_effect h
  obtain rfl : node = stored := by
    rcases hout with he | he
    · exact Outcome.event.inj he
    · cases he
  have hk : node.id = Registry.targetId now existingId r := by
    rw [hreg.id]
    cases hl : r.nodes.lookup (Registry.targetId now existingId r) with
    | none => rfl
    | some old => exact (hr _ old hl).id
  rw [shown_insert hn, replay_event _ hk, change, hreg.status]
  rfl

theorem Op.shown_run (hr : r.Sound cfg) (hs : Steady cfg r op) (h : op.run cfg r = (r', out)) :
    shown r' = replay graced ((eventsOf out).map change) (shown r) := by
  cases op with
  | registerOrUpdateNode now role workers ep peerIp existingId extra =>
    obtain ⟨node, -, -, -, -, hevent⟩ := Registry.registerOrUpdateNode_effect h
    obtain rfl := hevent (fun old ho => ⟨(hr _ _ ho).printable, (hr _ _ ho).formed⟩) hs.1 hs.2
    exact shown_registered hr h
  | updateNodeExtra now nodeId worker extra =>
    rcases Registry.updateNodeExtra_effect h with ⟨rfl, rfl | rfl⟩ | ⟨old, delta, hold, ht, hn, -, rfl⟩
    · rfl
    · rfl
    · have hk := (hr _ _ hold).id
      have hv : shown r nodeId = some (view old) := congrArg (Option.map view) hold
      rw [shown_insert hn, replay_event _ (by exact hk), hv]
      congr 1
      cases hst : old.status with
      | ok => simp [change, Change.apply]
      | grace =>
        -- nothing but the activity time changes
        obtain ⟨-, -, hfits⟩ := Registry.trySetExtraLocked_fits ht
        have he := hs old hold hst hfits
        simp [change, hst, Change.apply, view, graced, he]
      | erased => exact absurd hst (hr _ _ hold).status
  | markNodeGrace now nodeId =>
    refine shown_modifyNode hr ?_ ?_ h
    · exact fun _ => rfl
    · exact fun _ => rfl
  | restoreNodeActive now nodeId =>
    refine shown_modifyNode hr ?_ ?_ h
    · exact fun _ => rfl
    · exact fun _ => rfl
  | removeNodePermanently nodeId =>
    rcases Registry.removeNodePermanently_effect h with ⟨-, rfl, rfl⟩ | ⟨old, hold, hn, -, -, hevent⟩
    · rfl
    · have hout := hevent (hr _ _ hold).printable
      subst hout
      rw [shown_erase hn, replay_event _ (by exact (hr _ _ hold).id)]
      rfl

theorem sound_history (hr : r.Sound cfg) (ops : List Op) : (history cfg r ops).1.Sound cfg := by
  induction ops generalizing r with
  | nil => exact hr
  | cons op ops ih => exact ih (Op.sound hr rfl)

/-- Over a steady run the registry is its starting state with the event log applied. -/
theorem shown_history (hr : r.Sound cfg) {ops : List Op} (hs : SteadyFrom cfg r ops) :
    shown (history cfg r ops).1 = replay graced ((history cfg r ops).2.map change) (shown r) := by
  induction ops generalizing r with
  | nil => rfl
  | cons op ops ih =>
    obtain ⟨⟨r', out⟩, hrun⟩ : ∃ x, op.run cfg r = x := ⟨_, rfl⟩
    have h1 := Op.shown_run hr hs.1 hrun
    have h2 := ih (hrun ▸ Op.sound hr hrun) hs.2
    rw [hrun, h1] at h2
    rw [history, List.map_append, replay_append, hrun]
    exact h2

theorem history_append (r : Registry) (before later : List Op) :
    history cfg r (before ++ later) =
      ((history cfg (history cfg r before).1 later).1,
        (history cfg r before).2 ++ (history cfg (history cfg r before).1 later).2) := by
  induction before generalizing r with
  | nil => rfl
  | cons op before ih => simp [history, ih]

theorem SteadyFrom.left {before later : List Op} (h : SteadyFrom cfg r (before ++ later)) :
    SteadyFrom cfg r before := by
  induction before generalizing r with
  | nil => trivial
  | cons op before ih => exact ⟨h.1, ih h.2⟩

/-! What is stored is read as it is. -/

/-- No entry of the extra holds a number that is rounded. -/
def ExactEntries (round : Json → Json) (_ : Bytes) (node : NodeInfo) : Prop :=
  ∀ f ∈ node.extra.members, Exact round f.2

theorem exactEntries_run {round : Json → Json} (hr : Registry.Stored (ExactEntries round) r)
    (hs : StoresExact cfg round r op) (h : op.run cfg r = (r', out)) : Registry.Stored (ExactEntries round) r' := by
  have modified {nodeId : Bytes} {f : NodeInfo → NodeInfo} (hf : ∀ node, (f node).extra = node.extra)
      (h : r.modifyNode nodeId f = (r', out)) : Registry.Stored (ExactEntries round) r' := by
    rcases Registry.modifyNode_effect h with ⟨-, rfl, -⟩ | ⟨old, hold, hn, -, -⟩
    · exact hr
    · refine hr.insert hn ?_
      rw [ExactEntries, hf]
      exact hr nodeId old hold
  cases op with
  | registerOrUpdateNode now role workers ep peerIp existingId extra =>
    obtain ⟨node, hn, -, hreg, -⟩ := Registry.registerOrUpdateNode_effect h
    refine hr.insert hn fun f hf => ?_
    rcases hreg.members f hf with ⟨old, hold, hf⟩ | ⟨hf, hw, -⟩
    · exact hr _ old hold f hf
    · exact hs f hf (hreg.workers ▸ hw)
  | updateNodeExtra now nodeId worker extra =>
    rcases Registry.updateNodeExtra_effect h with ⟨rfl, -⟩ | ⟨old, delta, hold, ht, hn, -⟩
    · exact hr
    · refine hr.insert hn fun f hf => ?_
      obtain ⟨-, -, hfits⟩ := Registry.trySetExtraLocked_fits ht
      rcases (Registry.trySetExtraLocked_stored ht).2.members f hf with hf | ⟨hf, -⟩
      · exact hr nodeId old hold f hf
      · obtain rfl := List.mem_singleton.mp hf
        exact hs old hold hfits
  | markNodeGrace | restoreNodeActive =>
    refine modified (fun node => ?_) h
    rfl
  | removeNodePermanently nodeId =>
    rcases Registry.removeNodePermanently_effect h with ⟨-, rfl, -⟩ | ⟨old, -, hn, -⟩
    · exact hr
    · exact hr.erase hn

theorem exactEntries_history {round : Json → Json} {ops : List Op} (hr : Registry.Stored (ExactEntries round) r)
    (hs : StoresExactFrom cfg round r ops) : Registry.Stored (ExactEntries round) (history cfg r ops).1 := by
  induction ops generalizing r with
  | nil => exact hr
  | cons op ops ih => exact ih (exactEntries_run hr hs.1 rfl) hs.2

theorem exact_extra {round : Json → Json} {extra : Json} (hf : Registry.Formed cfg extra)
    (h : ∀ f ∈ extra.members, Exact round f.2) : Exact round extra := by
  rcases hf.cases with ho | ho
  · cases extra with
    | obj fields => exact exact_obj h
    | _ => cases ho
  · rw [ho]
    exact exact_arr (List.forall_mem_singleton.mpr (exact_obj nofun))

end

/-! A client library follows the abstract replica when each of its steps does. -/

section
variable {ε ν V : Type} {vw : ν → V} {proj : View → V} {sdk : Library ε ν}

/-- The table shows the abstract map. -/
def Holds (vw : ν → V) (proj : View → V) (t : Table ν) (m : Bytes → Option View) : Prop :=
  ∀ id, (t.lookup id).map vw = (m id).map proj

/-- The log that a snapshot amounts to. -/
def puts (nodes : List NodeInfo) : List (Bytes × Change View) := nodes.map fun node => (node.id, .put (view node))

structure Follows (sdk : Library ε ν) (vw : ν → V) (proj : View → V) : Prop where
  event : ∀ node : NodeInfo, ∃ e, sdk.decode node.toJson = some e ∧
    ∀ t m, Holds vw proj t m → Holds vw proj (sdk.applyNodeEvent t e) (applyAt graced m (change node))
  load : ∀ (nodes : List NodeInfo) t m, Holds vw proj t m →
    Holds vw proj (sdk.loadSnapshot t (nodes.map NodeInfo.toJson)) (replay graced (puts nodes) m)

theorem Holds.insert {t : Table ν} {m : Bytes → Option View} {id : Bytes} {n : ν} {v : View}
    (h : Holds vw proj t m) (hn : vw n = proj v) :
    Holds vw proj (t.insert id n) (Function.update m id (some v)) := by
  intro k
  rw [congrFun (Table.lookup_map_insert vw t id n) k, hn]
  by_cases hk : k = id
  · subst hk
    rw [Function.update_self, Function.update_self, Option.map_some]
  · rw [Function.update_of_ne hk, Function.update_of_ne hk]
    exact h k

theorem Holds.erase {t : Table ν} {m : Bytes → Option View} {id : Bytes} (h : Holds vw proj t m) :
    Holds vw proj (t.erase id) (Function.update m id none) := by
  intro k
  rw [congrFun (Table.lookup_map_erase vw t id) k]
  by_cases hk : k = id
  · subst hk
    rw [Function.update_self, Function.update_self, Option.map_none]
  · rw [Function.update_of_ne hk, Function.update_of_ne hk]
    exact h k

/-- Queued messages are only collected; applying them later has the effect of the log. -/
private theorem handle_queued (hf : Follows sdk vw proj) (nodes : List NodeInfo) :
    ∃ es : List ε, (∀ c : Client ε ν, c.reconciled = false →
        (nodes.map NodeInfo.toJson).foldl (handleMessage sdk) c = { c with syncQueue := c.syncQueue ++ es }) ∧
      ∀ t m, Holds vw proj t m →
        Holds vw proj (es.foldl sdk.applyNodeEvent t) (replay graced (nodes.map change) m) := by
  induction nodes with
  | nil => exact ⟨[], fun c _ => by simp, fun t m h => h⟩
  | cons node nodes ih =>
    obtain ⟨e, he, happly⟩ := hf.event node
    obtain ⟨es, hes, hrest⟩ := ih
    refine ⟨e :: es, fun c hc => ?_, fun t m h => hrest _ _ (happly t m h)⟩
    have h1 : handleMessage sdk c node.toJson = { c with syncQueue := c.syncQueue ++ [e] } := by
      simp [handleMessage, he, hc]
    rw [List.map_cons, List.foldl_cons, h1, hes { c with syncQueue := c.syncQueue ++ [e] } hc]
    simp

private theorem handle_live (hf : Follows sdk vw proj) (nodes : List NodeInfo) {c : Client ε ν}
    {m : Bytes → Option View}
    (hc : c.reconciled = true) (h : Holds vw proj c.localNodes m) :
    Holds vw proj ((nodes.map NodeInfo.toJson).foldl (handleMessage sdk) c).localNodes
      (replay graced (nodes.map change) m) := by
  induction nodes generalizing c m with
  | nil => exact h
  | cons node nodes ih =>
    obtain ⟨e, he, happly⟩ := hf.event node
    have h1 : handleMessage sdk c node.toJson = { c with localNodes := sdk.applyNodeEvent c.localNodes e } := by
      simp [handleMessage, he, hc]
    rw [List.map_cons, List.foldl_cons, h1]
    exact ih hc (happly _ _ h)

/-- A bootstrapped client shows the event log replayed over the snapshot. -/
theorem bootstrap_holds (hf : Follows sdk vw proj) (queued nodes live : List NodeInfo) :
    Holds vw proj
      (bootstrap sdk (queued.map NodeInfo.toJson) (nodes.map NodeInfo.toJson)
        (live.map NodeInfo.toJson)).localNodes
      (replay graced ((queued ++ live).map change) (replay graced (puts nodes) fun _ => none)) := by
  obtain ⟨es, hes, hrest⟩ := handle_queued hf queued
  have h0 : Holds vw proj (∅ : Table ν) fun _ => none := fun id => by simp
  have h1 := hrest _ _ (hf.load nodes _ _ h0)
  rw [List.map_append, replay_append, bootstrap, hes _ rfl]
  exact handle_live hf live rfl h1

end

/-! Both libraries follow it. -/

/-- A view as the C++ library reads it. -/
def asRead (v : View) : View := { v with extra := NodeInfo.asObject v.extra }

theorem asRead_object {v : View} (h : v.extra.isObject = true) : asRead v = v := by
  rw [asRead, NodeInfo.asObject_object h]

theorem cpp_follows : Follows Cpp.library view asRead where
  event node := by
    refine ⟨_, NodeInfo.fromJson_toJson_asObject node, fun t m h => ?_⟩
    simp only [Cpp.library, Cpp.applyNodeEvent, applyAt, change]
    cases hs : node.status with
    | ok => exact h.insert (congrArg (fun status => asRead { view node with status }) hs.symm)
    | erased => exact h.erase
    | grace =>
      have hid := h node.id
      cases ht : t.lookup node.id with
      | none =>
        rw [ht, Option.map_none] at hid
        have hnone : m node.id = none := Option.map_eq_none_iff.mp hid.symm
        rw [Change.apply, hnone, Option.map_none, Function.update_eq_self_iff.mpr hnone.symm]
        exact h
      | some existing =>
        rw [ht, Option.map_some] at hid
        obtain ⟨v, hv, he⟩ := Option.map_eq_some_iff.mp hid.symm
        rw [Change.apply, hv, Option.map_some]
        exact h.insert (congrArg graced he.symm)
  load nodes t m h := by
    induction nodes generalizing t m with
    | nil => exact h
    | cons node nodes ih =>
      have hloads : Cpp.library.loadSnapshot = Cpp.loadSnapshot := rfl
      rw [List.map_cons, hloads, Cpp.loadSnapshot, NodeInfo.fromJson_toJson_asObject]
      exact ih _ _ (h.insert rfl)

/-- The members compared, of a node with this view. -/
def jsonOf (v : View) : List (Option Json) :=
  [some (.str v.role), some (.arr (v.workers.map .str)),
    some ((v.endpoint.map EndpointInfo.toJson).getD .null), some (.str v.status.toString), some v.extra]

theorem jsonView_toJson (node : NodeInfo) : jsonView node.toJson = jsonOf (view node) := by
  have field {k : Bytes} {v : Json} (h : (k, v) ∈ node.jsonMembers) := NodeInfo.field_toJson h
  simp only [jsonView, List.map_cons, List.map_nil, jsonOf, view]
  rw [field (v := .str node.role) (by simp [NodeInfo.jsonMembers]),
    field (v := .arr (node.workers.map .str)) (by simp [NodeInfo.jsonMembers]),
    field (v := (node.endpoint.map EndpointInfo.toJson).getD .null) (by simp [NodeInfo.jsonMembers]),
    field (v := .str node.status.toString) (by simp [NodeInfo.jsonMembers]),
    field (v := node.extra) (by simp [NodeInfo.jsonMembers])]

/-- They are read with their numbers rounded. -/
def jsonRead (round : Json → Json) (v : View) : List (Option Json) := (jsonOf v).map (Option.map (rounded round))

theorem jsonView_rounded (round : Json → Json) (node : NodeInfo) :
    jsonView (rounded round node.toJson) = jsonRead round (view node) := by
  rw [jsonRead, ← jsonView_toJson, jsonView, jsonView, List.map_map]
  apply List.map_congr_left
  intro k _
  rw [NodeInfo.toJson, Json.mkObj, rounded]
  exact lookup_roundedFields round _ k

/-- Only the extra can come out otherwise than it was printed. -/
theorem jsonRead_eq (reader : NumberReader) (v : View) : jsonRead reader.round v =
    [some (.str v.role), some (.arr (v.workers.map .str)), some ((v.endpoint.map EndpointInfo.toJson).getD .null),
      some (.str v.status.toString), some (rounded reader.round v.extra)] := by
  have hworkers : Exact reader.round (.arr (v.workers.map .str)) := by
    refine exact_arr fun j hj => ?_
    obtain ⟨w, -, rfl⟩ := List.mem_map.mp hj
    rfl
  have hendpoint : Exact reader.round ((v.endpoint.map EndpointInfo.toJson).getD .null) := by
    cases v.endpoint with
    | none => rfl
    | some ep => exact exact_endpoint reader ep
  rw [jsonRead, jsonOf]
  simp only [List.map_cons, List.map_nil, Option.map_some]
  rw [hworkers, hendpoint, rounded, rounded]

theorem jsonRead_exact {reader : NumberReader} {v : View} (h : Exact reader.round v.extra) :
    jsonRead reader.round v = jsonOf v := by
  rw [jsonRead_eq, h, jsonOf]

/-- An id is a string, and stays what it is. -/
theorem idOf_rounded (round : Json → Json) (node : NodeInfo) : Js.idOf (rounded round node.toJson) = node.id := by
  have hid : node.toJson.field? (ascii "id") = some (.str node.id) :=
    NodeInfo.field_toJson (by simp [NodeInfo.jsonMembers])
  rw [Js.idOf, NodeInfo.stringFromJson, field_rounded round hid, rounded]
  rfl

/-- Overwriting status and countdown changes the status alone of what is compared. -/
theorem jsonView_graced {round : Json → Json} {j w : Json} {v : View} (h : jsonView j = jsonRead round v) :
    jsonView ((j.set (ascii "status") (.str (ascii "GRACE"))).set (ascii "expires_in") w) =
      jsonRead round (graced v) := by
  cases j with
  | obj fields =>
    simp only [jsonView, List.map_cons, List.map_nil, jsonRead, jsonOf, List.cons.injEq, and_true] at h
    obtain ⟨h1, h2, h3, -, h5⟩ := h
    simp only [Json.set, jsonView, List.map_cons, List.map_nil, Json.field?, Json.lookup_insertField]
    simp only [Json.field?] at h1 h2 h3 h5
    simp only [show ascii "role" ≠ ascii "expires_in" by decide, show ascii "role" ≠ ascii "status" by decide,
      show ascii "workers" ≠ ascii "expires_in" by decide, show ascii "workers" ≠ ascii "status" by decide,
      show ascii "endpoint" ≠ ascii "expires_in" by decide, show ascii "endpoint" ≠ ascii "status" by decide,
      show ascii "status" ≠ ascii "expires_in" by decide, show ascii "extra" ≠ ascii "expires_in" by decide,
      show ascii "extra" ≠ ascii "status" by decide, if_false, if_true, h1, h2, h3, h5]
    rfl
  | _ => simp [jsonView, jsonRead, jsonOf, Json.field?] at h

theorem js_follows (round : Json → Json) : Follows (Js.library round) jsonView (jsonRead round) where
  event node := by
    refine ⟨rounded round node.toJson, rfl, fun t m h => ?_⟩
    have hst : NodeInfo.stringFromJson (rounded round node.toJson) (ascii "status") = some node.status.toString := by
      have hfield : node.toJson.field? (ascii "status") = some (.str node.status.toString) :=
        NodeInfo.field_toJson (by simp [NodeInfo.jsonMembers])
      rw [NodeInfo.stringFromJson, field_rounded round hfield, rounded]
    simp only [Js.library, Js.applyNodeEvent, applyAt, change, hst, idOf_rounded]
    cases hs : node.status with
    | ok =>
      rw [if_pos (by decide)]
      exact h.insert (jsonView_rounded round node)
    | erased =>
      rw [if_neg (by decide), if_neg (by decide), if_pos (by decide)]
      exact h.erase
    | grace =>
      rw [if_neg (by decide), if_pos (by decide)]
      have hid := h node.id
      cases ht : t.lookup (Js.idOf (rounded round node.toJson)) with
      | none =>
        rw [idOf_rounded] at ht
        rw [ht, Option.map_none] at hid
        have hm : m node.id = none := Option.map_eq_none_iff.mp hid.symm
        rw [Change.apply, hm, Option.map_none, Function.update_eq_self_iff.mpr hm.symm]
        exact h
      | some existing =>
        rw [idOf_rounded] at ht
        rw [ht, Option.map_some] at hid
        obtain ⟨v, hv, he⟩ := Option.map_eq_some_iff.mp hid.symm
        rw [Change.apply, hv, Option.map_some]
        exact h.insert (jsonView_graced he.symm)
  load nodes t m h := by
    change Holds jsonView (jsonRead round) (Js.loadSnapshot t ((nodes.map NodeInfo.toJson).map (rounded round))) _
    induction nodes generalizing t m with
    | nil => exact h
    | cons node nodes ih =>
      refine ih _ _ ?_
      change Holds jsonView (jsonRead round)
        (t.insert (Js.idOf (rounded round node.toJson)) (rounded round node.toJson))
        (Function.update m node.id (some (view node)))
      rw [idOf_rounded]
      exact h.insert (jsonView_rounded round node)

/-! The snapshot shows the registry it was taken from. -/

theorem replay_puts {nodes : List NodeInfo} (hn : (nodes.map NodeInfo.id).Nodup)
    (m : Bytes → Option View) (id : Bytes) :
    (∀ node ∈ nodes, node.id = id → replay graced (puts nodes) m id = some (view node)) ∧
      (id ∉ nodes.map NodeInfo.id → replay graced (puts nodes) m id = m id) := by
  induction nodes generalizing m with
  | nil => exact ⟨by simp, fun _ => rfl⟩
  | cons node nodes ih =>
    rw [List.map_cons, List.nodup_cons] at hn
    have hstep : replay graced (puts (node :: nodes)) m =
        replay graced (puts nodes) (Function.update m node.id (some (view node))) := rfl
    obtain ⟨h1, h2⟩ := ih hn.2 (Function.update m node.id (some (view node)))
    rw [hstep]
    refine ⟨fun n hmem hid => ?_, fun hid => ?_⟩
    · rcases List.mem_cons.mp hmem with rfl | hmem
      · subst hid
        rw [h2 hn.1, Function.update_self]
      · exact h1 n hmem hid
    · rw [List.map_cons, List.mem_cons, not_or] at hid
      rw [h2 hid.2, Function.update_of_ne hid.1]

/-- A node as a snapshot lists it, with its countdown. -/
def counted (now : Int) (node : NodeInfo) : NodeInfo :=
  if node.status = .grace then { node with expiresIn := some (Registry.graceRemaining now node) } else node

theorem counted_same (now : Int) (node : NodeInfo) :
    (counted now node).id = node.id ∧ (counted now node).extra = node.extra ∧
      view (counted now node) = view node := by
  unfold counted
  split <;> exact ⟨rfl, rfl, rfl⟩

theorem matched_all (order : MapOrder) (now : Int) {cfg : RegistryConfig} {r : Registry} (hr : r.Sound cfg) :
    r.matched order now [] [] = ((r.nodes.iterate order).map Prod.snd).map (counted now) := by
  rw [Registry.matched, List.filter_eq_self.mpr]
  · rfl
  · intro node hnode
    obtain ⟨e, he, rfl⟩ := List.mem_map.mp hnode
    have := (hr _ _ (Table.mem_iterate.mp he)).status
    simp [Registry.matchesFilter, this]

theorem snapshot_shown (order : MapOrder) (now : Int) {cfg : RegistryConfig} {r : Registry} (hr : r.Sound cfg) :
    replay graced (puts (r.matched order now [] [])) (fun _ => none) = shown r := by
  have hm := matched_all order now hr
  have hids : (r.matched order now [] []).map NodeInfo.id = (r.nodes.iterate order).map Prod.fst := by
    rw [hm, List.map_map, List.map_map]
    exact List.map_congr_left fun e he =>
      (counted_same now e.2).1.trans (hr _ _ (Table.mem_iterate.mp he)).id
  have hnodup : ((r.matched order now [] []).map NodeInfo.id).Nodup := by
    rw [hids]
    exact Table.iterate_keys_nodup order r.nodes
  funext id
  obtain ⟨hput, hother⟩ := replay_puts hnodup (fun _ => none) id
  cases hl : r.nodes.lookup id with
  | none =>
    rw [hother, shown, hl]
    · rfl
    · rw [hids]
      intro hmem
      obtain ⟨⟨k, node⟩, he, rfl⟩ := List.mem_map.mp hmem
      exact nomatch (Table.mem_iterate.mp he).symm.trans hl
  | some node =>
    have he : (id, node) ∈ r.nodes.iterate order := Table.mem_iterate.mpr hl
    have hmem : counted now node ∈ r.matched order now [] [] := by
      rw [hm]
      exact List.mem_map_of_mem (List.mem_map.mpr ⟨_, he, rfl⟩)
    rw [hput _ hmem ((counted_same now node).1.trans (hr _ _ hl).id), shown, hl, (counted_same now node).2.2]
    rfl

/-- Over a steady run, what follows the abstract replica shows the registry at its end. -/
theorem bootstrap_shown {ε ν V : Type} {vw : ν → V} {proj : View → V} {sdk : Library ε ν} {cfg : RegistryConfig}
    {start : Registry} (hf : Follows sdk vw proj) (hstart : start.Sound cfg) {before later : List Op} (now : Int)
    {queued live : List NodeInfo} (hs : SteadyFrom cfg start (before ++ later))
    (he : (history cfg start (before ++ later)).2 = queued ++ live) :
    Holds vw proj (bootstrap sdk (queued.map NodeInfo.toJson)
      (snapshot cfg.order now (history cfg start before).1) (live.map NodeInfo.toJson)).localNodes
      (shown (history cfg start (before ++ later)).1) := by
  have hbefore : (history cfg start before).1.Sound cfg := sound_history hstart before
  have hlog : replay graced ((queued ++ live).map change)
      (replay graced (puts ((history cfg start before).1.matched cfg.order now [] [])) fun _ => none) =
        shown (history cfg start (before ++ later)).1 := by
    have hsplit : (history cfg start (before ++ later)).2 =
        (history cfg start before).2 ++ (history cfg (history cfg start before).1 later).2 :=
      congrArg Prod.snd (history_append start before later)
    rw [snapshot_shown cfg.order now hbefore, shown_history hstart hs.left, ← he, hsplit, List.map_append,
      replay_snapshot graced_idem, ← List.map_append, ← hsplit, shown_history hstart hs]
  rw [← hlog]
  exact bootstrap_holds hf queued _ live

/-- **In a run whose steps are all steady, every replica that loads a snapshot taken at
any point of the run and applies all events of the run, queued or live, holds the
registry's ids, each with the registry's data: the C++ replica where braces copy, the others
where the data that was stored holds no number that they round.** -/
theorem replicas_converge (cfg : RegistryConfig) (reader : NumberReader) (pre before later : List Op) (now : Int)
    (queued live : List NodeInfo)
    (hs : SteadyFrom cfg (history cfg .empty pre).1 (before ++ later))
    (he : (history cfg (history cfg .empty pre).1 (before ++ later)).2 = queued ++ live) :
    let start := (history cfg .empty pre).1
    let nodes := snapshot cfg.order now (history cfg start before).1
    let final := (history cfg start (before ++ later)).1
    (cfg.json.bracesWrap = false →
      Cpp.Agrees (bootstrap Cpp.library (queued.map NodeInfo.toJson) nodes (live.map NodeInfo.toJson)) final) ∧
    (StoresExactFrom cfg reader.round .empty (pre ++ (before ++ later)) →
      Js.Agrees (bootstrap (Js.library reader.round) (queued.map NodeInfo.toJson) nodes (live.map NodeInfo.toJson))
        final) := by
  intro start nodes final
  have hstart : start.Sound cfg := sound_history (Registry.sound_empty cfg) pre
  have hfinal : final.Sound cfg := sound_history hstart _
  refine ⟨fun hcopies id => ?_, fun hexact id => ?_⟩
  · refine (bootstrap_shown cpp_follows hstart now hs he id).trans ?_
    rw [shown]
    cases hl : final.nodes.lookup id with
    | none => rw [Option.map_none, Option.map_none]
    | some node =>
      rw [Option.map_some, Option.map_some]
      exact congrArg some (asRead_object ((hfinal id node hl).formed.copies hcopies))
  · refine (bootstrap_shown (js_follows reader.round) hstart now hs he id).trans ?_
    rw [shown, Option.map_map]
    cases hl : final.nodes.lookup id with
    | none => rw [Option.map_none, Option.map_none]
    | some node =>
      have hentries : Registry.Stored (ExactEntries reader.round) final := by
        have hall := exactEntries_history (Registry.stored_empty _) hexact
        rwa [history_append] at hall
      have hextra := exact_extra (hfinal id node hl).formed (hentries id node hl)
      rw [Option.map_some, Option.map_some, jsonView_toJson]
      exact congrArg some (jsonRead_exact hextra)

/-- A worker registers and loses its connection; the snapshot is taken in between. -/
theorem replicas_converge_grace :
    let registration := Op.registerOrUpdateNode 100 (ascii "job") [ascii "t"] none (ascii "10.0.0.7") [] (.obj [])
    let loss := Op.markNodeGrace 130 (ascii "node-100-1")
    let run := history (.ofDocuments []) .empty [registration, loss]
    let nodes := snapshot .written 120 (history (.ofDocuments []) .empty [registration]).1
    Cpp.Agrees (bootstrap Cpp.library (run.2.map NodeInfo.toJson) nodes []) run.1 ∧
      Js.Agrees (bootstrap (Js.library NumberReader.exact.round) (run.2.map NodeInfo.toJson) nodes []) run.1 := by
  intro registration loss run nodes
  have hnone : ∀ f ∈ (Json.obj []).members, f.1 ∈ [ascii "t"] → f.2.utf8 = true := nofun
  have hexact : ∀ f ∈ (Json.obj []).members, f.1 ∈ [ascii "t"] → Exact NumberReader.exact.round f.2 := nofun
  obtain ⟨hcpp, hjs⟩ := replicas_converge (.ofDocuments []) .exact [] [registration] [loss] 120 _ []
    ⟨⟨.inl rfl, hnone⟩, trivial, trivial⟩ (List.append_nil _).symm
  exact ⟨hcpp rfl, hjs ⟨hexact, trivial, trivial⟩⟩

/-- An extra update that reaches the node during its grace period is lost on every replica. -/
theorem extra_in_grace_lost :
    let registration := Op.registerOrUpdateNode 100 (ascii "job") [ascii "t"] none (ascii "10.0.0.7") [] (.obj [])
    let loss := Op.markNodeGrace 130 (ascii "node-100-1")
    let update := Op.updateNodeExtra 131 (ascii "node-100-1") (ascii "t") (.obj [(ascii "load", .int 1)])
    let run := history (.ofDocuments []) .empty [registration, loss, update]
    let nodes := snapshot .written 120 (history (.ofDocuments []) .empty [registration]).1
    ¬ Cpp.Agrees (bootstrap Cpp.library [] nodes (run.2.map NodeInfo.toJson)) run.1 ∧
      ¬ Js.Agrees (bootstrap (Js.library NumberReader.exact.round) [] nodes (run.2.map NodeInfo.toJson)) run.1 := by
  refine ⟨fun h => ?_, fun h => ?_⟩
  · have h := congrArg (Option.map fun v => (v.extra.field? (ascii "t")).isSome) (h (ascii "node-100-1"))
    revert h
    decide +kernel
  · have h := congrArg (Option.map fun v => ((v.getD 4 none).bind (Json.field? (ascii "t"))).isSome)
      (h (ascii "node-100-1"))
    revert h
    decide +kernel

end LightApr.Sdk.Replica
