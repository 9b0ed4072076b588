import LightApr.Core.Node
import LightApr.Core.Table

/-! The node registry. A mutation commits under the lock and hands the record it
snapshot to the event callbacks afterwards; here it returns that record as its
outcome, and the server delivers it. -/
namespace LightApr.Core

/-- What the registry is built with or relies on from outside. -/
structure RegistryConfig where
  json : JsonLib
  order : MapOrder
  maxNodeExtraBytes : Nat
  /-- `sizeof(node_info)` -/
  nodeInfoSize : Nat

/-- The default limit, with a JSON library that reads the texts of `docs`. -/
def RegistryConfig.ofDocuments (docs : List Json) : RegistryConfig := ⟨.ofDocuments docs, .written, 8192, 200⟩

/-- The same, built by a compiler for which braces make an array. -/
def RegistryConfig.wrapping (cfg : RegistryConfig) : RegistryConfig := { cfg with json := cfg.json.wrapping }

structure Registry where
  nodes : Table NodeInfo
  rrIndices : Table Nat
  /-- token and observer -/
  eventCbs : List (Nat × Nat)
  eventCbIdCounter : Nat
  idCounter : Nat
  /-- the two live gauges of the memory tracker that the registry keeps -/
  registryBytes : Int
  extraBytes : Int

/-- How a mutation ends: `false` returned, an exception, or the record to announce. -/
inductive Outcome where
  | refused
  | threw
  | event (node : NodeInfo)

namespace Registry

def empty : Registry := ⟨∅, ∅, [], 1, 1, 0, 0⟩

def addEventCallback (observer : Nat) (r : Registry) : Registry :=
  { r with
    eventCbs := r.eventCbs ++ [(r.eventCbIdCounter, observer)]
    eventCbIdCounter := r.eventCbIdCounter + 1 }

def removeEventCallback (token : Nat) (r : Registry) : Registry :=
  { r with eventCbs := r.eventCbs.filter fun entry => entry.1 ≠ token }

section
variable (cfg : RegistryConfig)

def dumpSize (j : Json) : Option Nat := (cfg.json.dump j).map List.length

inductive SetExtra where
  | rejected
  | threw
  | stored (node : NodeInfo) (delta : Int)

def trySetExtraLocked (node : NodeInfo) (worker : Bytes) (value : Json) : SetExtra :=
  if worker ∉ node.workers then .rejected
  else
    match dumpSize cfg value with
    | none => .threw
    | some size =>
      if size > cfg.maxNodeExtraBytes then .rejected
      else
        match node.extra.field? worker with
        | none =>
          if node.extra.assignable then .stored { node with extra := node.extra.set worker value } size else .threw
        | some old =>
          match dumpSize cfg old with
          | none => .threw
          | some oldSize => .stored { node with extra := node.extra.set worker value } (size - oldSize)

/-- The initial extra of a registration, member by member. The flag is set when an
exception ended the loop; what was stored before it stays. -/
def announceExtra (node : NodeInfo) (gauge : Int) : List (Bytes × Json) → NodeInfo × Int × Bool
  | [] => (node, gauge, false)
  | (worker, value) :: rest =>
    match trySetExtraLocked cfg node worker value with
    | .rejected => announceExtra node gauge rest
    | .threw => (node, gauge, true)
    | .stored node' delta => announceExtra node' (gauge + delta) rest

/-- Erases the members `keys` of the node's extra and releases their bytes. -/
def pruneKeys (node : NodeInfo) (gauge : Int) : List Bytes → NodeInfo × Int × Bool
  | [] => (node, gauge, false)
  | key :: rest =>
    match node.extra.field? key with
    | none => pruneKeys node gauge rest
    | some old =>
      match dumpSize cfg old with
      | none => (node, gauge, true)
      | some size => pruneKeys { node with extra := node.extra.erase key } (gauge - size) rest

def pruneStaleExtraLocked (node : NodeInfo) (gauge : Int) : NodeInfo × Int × Bool :=
  match node.extra.keys? with
  | none => (node, gauge, true)
  | some keys => pruneKeys cfg node gauge (keys.filter fun key => key ∉ node.workers)

def generateNodeId (now : Int) (counter : Nat) : Bytes :=
  ascii "node-" ++ decimalInt now ++ ascii "-" ++ decimal counter

/-- The key a registration writes. -/
def targetId (now : Int) (existingId : Bytes) (r : Registry) : Bytes :=
  if existingId = [] then generateNodeId now r.idCounter else existingId

/-- The fields a registration sets, on the stored record or on a new one. -/
def announced (now : Int) (role : Bytes) (workers : List Bytes) (ep : Option EndpointInfo)
    (node : NodeInfo) : NodeInfo :=
  { node with role, workers, endpoint := ep, status := .ok, activeAt := now, expiresIn := none }

def newNode (now : Int) (id role : Bytes) (workers : List Bytes) (ep : Option EndpointInfo) : NodeInfo :=
  { id, role, workers, endpoint := ep, status := .ok, addedAt := now, activeAt := now,
    expiresIn := none, extra := cfg.json.braced (.obj []) }

/-- The record under `nodeId` after the first half of a registration: the stored one
updated and pruned, or a new one. -/
def upsert (now : Int) (role : Bytes) (workers : List Bytes) (ep : Option EndpointInfo)
    (nodeId : Bytes) (r : Registry) : NodeInfo × Registry × Bool :=
  match r.nodes.lookup nodeId with
  | some old =>
    let (node, gauge, threw) := pruneStaleExtraLocked cfg (announced now role workers ep old) r.extraBytes
    (node, { r with nodes := r.nodes.insert nodeId node, extraBytes := gauge }, threw)
  | none =>
    let node := newNode cfg now nodeId role workers ep
    (node, { r with
      nodes := r.nodes.insert nodeId node
      registryBytes := r.registryBytes + (cfg.nodeInfoSize + role.length + nodeId.length : Nat) }, false)

def registerOrUpdateNode (now : Int) (role : Bytes) (workers : List Bytes) (ep : Option EndpointInfo)
    (peerIp existingId : Bytes) (extra : Json) (r : Registry) : Registry × Outcome :=
  let nodeId := if existingId = [] then generateNodeId now r.idCounter else existingId
  let r := if existingId = [] then { r with idCounter := (r.idCounter + 1) % sizeMax } else r
  let finalEp := ep.map fun e => if e.addr = [] then { e with addr := peerIp } else e
  let (node, r, threw) := upsert cfg now role workers finalEp nodeId r
  if threw then (r, .threw)
  else
    let (node, gauge, threw) := announceExtra cfg node r.extraBytes extra.members
    let r := { r with nodes := r.nodes.insert nodeId node, extraBytes := gauge }
    (r, if threw then .threw else .event node)

/-- `find`, change the record in place, snapshot it. -/
def modifyNode (nodeId : Bytes) (f : NodeInfo → NodeInfo) (r : Registry) : Registry × Outcome :=
  match r.nodes.lookup nodeId with
  | none => (r, .refused)
  | some node => ({ r with nodes := r.nodes.insert nodeId (f node) }, .event (f node))

def markNodeGrace (now : Int) (nodeId : Bytes) (r : Registry) : Registry × Outcome :=
  modifyNode nodeId (fun node => { node with status := .grace, activeAt := now, expiresIn := some 180 }) r

def restoreNodeActive (now : Int) (nodeId : Bytes) (r : Registry) : Registry × Outcome :=
  modifyNode nodeId (fun node => { node with status := .ok, activeAt := now, expiresIn := none }) r

def updateNodeExtra (now : Int) (nodeId worker : Bytes) (extra : Json) (r : Registry) : Registry × Outcome :=
  match r.nodes.lookup nodeId with
  | none => (r, .refused)
  | some node =>
    match trySetExtraLocked cfg node worker extra with
    | .rejected => (r, .refused)
    | .threw => (r, .threw)
    | .stored node' delta =>
      let node' := { node' with activeAt := now }
      ({ r with nodes := r.nodes.insert nodeId node', extraBytes := r.extraBytes + delta }, .event node')

/-- The bytes of all elements of an extra; the flag is set when one cannot be printed. -/
def releaseExtra (gauge : Int) : List Json → Int × Bool
  | [] => (gauge, false)
  | value :: rest =>
    match dumpSize cfg value with
    | none => (gauge, true)
    | some size => releaseExtra (gauge - size) rest

def removeNodePermanently (nodeId : Bytes) (r : Registry) : Registry × Outcome :=
  match r.nodes.lookup nodeId with
  | none => (r, .refused)
  | some node =>
    let erased := { node with status := .erased, expiresIn := some 0 }
    let (gauge, threw) := releaseExtra cfg r.extraBytes erased.extra.elements
    ({ r with
      nodes := r.nodes.erase nodeId
      registryBytes := r.registryBytes - (cfg.nodeInfoSize + erased.role.length + erased.id.length : Nat)
      extraBytes := gauge }, if threw then .threw else .event erased)

end

/-! Read paths. -/

/-- Seconds left of the grace period. -/
def graceRemaining (now : Int) (node : NodeInfo) : Int :=
  let remaining := 180 - (now - node.activeAt)
  if remaining > 0 then remaining else 0

def getNode (now : Int) (nodeId : Bytes) (r : Registry) : Option NodeInfo :=
  (r.nodes.lookup nodeId).map fun node =>
    if node.status = .grace ∧ node.expiresIn.isSome then
      { node with expiresIn := some (graceRemaining now node) }
    else node

structure RegistryStats where
  totalNodes : Nat
  aliveNodes : Nat
  graceNodes : Nat
  roles : Table Nat
  workers : Table Nat

/-- `counts[key]++` -/
def increment (key : Bytes) (counts : Table Nat) : Table Nat :=
  counts.insert key ((counts.lookup key).getD 0 + 1)

def countNode (stats : RegistryStats) (node : NodeInfo) : RegistryStats :=
  { totalNodes := stats.totalNodes
    aliveNodes := stats.aliveNodes + (if node.status = .ok then 1 else 0)
    graceNodes := stats.graceNodes + (if node.status = .grace then 1 else 0)
    roles := increment node.role stats.roles
    workers := node.workers.foldl (fun counts w => increment w counts) stats.workers }

def getStats (order : MapOrder) (r : Registry) : RegistryStats :=
  (r.nodes.iterate order).foldl (fun stats e => countNode stats e.2)
    ⟨r.nodes.entries.length, 0, 0, ∅, ∅⟩

def matchesFilter (roleFilter workerFilter : Bytes) (node : NodeInfo) : Bool :=
  decide (node.status ≠ .erased) && (decide (roleFilter = []) || decide (node.role = roleFilter)) &&
    (decide (workerFilter = []) || node.workers.any (· = workerFilter))

/-- The matched nodes in iteration order, each with its countdown. -/
def matched (order : MapOrder) (now : Int) (roleFilter workerFilter : Bytes) (r : Registry) : List NodeInfo :=
  (((r.nodes.iterate order).map Prod.snd).filter (matchesFilter roleFilter workerFilter)).map fun node =>
    if node.status = .grace then { node with expiresIn := some (graceRemaining now node) } else node

/-- First and last position of a page, in 64-bit arithmetic; none: the page lies past
the end. -/
def pageRange (page count total : Nat) : Option (Nat × Nat) :=
  let page := if page < 1 then 1 else page
  let startIdx := (page - 1) * count % sizeMax
  if total ≤ startIdx then none
  else some (startIdx, min ((startIdx + count) % sizeMax) total)

/-- none: the vector constructor is given a range that ends before it starts, and
throws. -/
def queryRegistry (order : MapOrder) (now : Int) (page count : Nat) (roleFilter workerFilter : Bytes)
    (r : Registry) : Option (Nat × List NodeInfo) :=
  let nodes := matched order now roleFilter workerFilter r
  match pageRange page count nodes.length with
  | none => some (nodes.length, [])
  | some (startIdx, endIdx) =>
    if endIdx < startIdx then none
    else some (nodes.length, (nodes.take endIdx).drop startIdx)

def candidates (order : MapOrder) (role worker : Bytes) (r : Registry) : List NodeInfo :=
  ((r.nodes.iterate order).map Prod.snd).filter fun node =>
    decide (node.status = .ok) && decide (node.role = role) &&
      (decide (worker = []) || node.workers.any (· = worker))

def resolveNode (order : MapOrder) (role worker : Bytes) (r : Registry) : Option NodeInfo × Registry :=
  let nodes := candidates order role worker r
  if nodes = [] then (none, r)
  else
    let key := role ++ ascii ":" ++ worker
    let idx := (r.rrIndices.lookup key).getD 0 % nodes.length
    (nodes[idx]?, { r with rrIndices := r.rrIndices.insert key ((idx + 1) % nodes.length) })

/-- The collecting phase of a sweep. -/
def expiredNodes (order : MapOrder) (now : Int) (r : Registry) : List Bytes :=
  ((r.nodes.iterate order).filter fun e =>
    decide (e.2.status = .grace) && decide (now - e.2.activeAt ≥ 180)).map Prod.fst

end Registry
end LightApr.Core
