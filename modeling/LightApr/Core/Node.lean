import LightApr.Core.Json

/-! The node record, its endpoint, and their JSON form. -/
namespace LightApr.Core
open Lib

inductive NodeStatus where
  | ok
  | grace
  | erased
  deriving DecidableEq, Repr

def NodeStatus.toString : NodeStatus → Bytes
  | ok => ascii "OK"
  | grace => ascii "GRACE"
  | erased => ascii "ERASED"

/-- `node_status_from_string`: any other text reads as OK. -/
def NodeStatus.fromString (str : Bytes) : NodeStatus :=
  if str = ascii "GRACE" then grace
  else if str = ascii "ERASED" then erased
  else ok

structure EndpointInfo where
  addr : Bytes
  port : UInt16
  scheme : Bytes
  deriving DecidableEq, Repr

namespace EndpointInfo

def toJson (ep : EndpointInfo) : Json :=
  .mkObj [(ascii "addr", .str ep.addr), (ascii "port", .int ep.port.toNat), (ascii "scheme", .str ep.scheme)]

/-- The port member. A number is cut to 16 bits, and so is what `stoul` reads from a
string; none: `stoul` throws. A member of another type leaves the default. -/
def portFromJson (j : Json) : Option UInt16 :=
  match j.field? (ascii "port") with
  | some (.int n) => some (UInt16.ofNat (n % 65536).toNat)
  | some (.float whole _) => some (UInt16.ofNat (whole % 65536).toNat)
  | some (.str s) => (stoul s).map UInt16.ofNat
  | _ => some 80

/-- none: an exception is thrown. -/
def fromJson (j : Json) : Option EndpointInfo := do
  let addr := match j.field? (ascii "addr") with
    | some (.str s) => s
    | _ => []
  let port ← portFromJson j
  let scheme := match j.field? (ascii "scheme") with
    | some (.str s) => s
    | _ => ascii "http"
  some { addr, port, scheme }

/-- Both strings are valid UTF-8. -/
def Utf8 (ep : EndpointInfo) : Prop := Utf8.Valid ep.addr ∧ Utf8.Valid ep.scheme

theorem utf8_toJson (ep : EndpointInfo) : ep.toJson.utf8 = true ↔ ep.Utf8 := by
  have h1 : Utf8.Valid (ascii "addr") := by decide
  have h2 : Utf8.Valid (ascii "port") := by decide
  have h3 : Utf8.Valid (ascii "scheme") := by decide
  have hk : [ascii "addr", ascii "port", ascii "scheme"].Nodup := by decide
  rw [toJson, Json.utf8_mkObj (by exact hk)]
  simp [h1, h2, h3, EndpointInfo.Utf8]

theorem utf8_of_fromJson {j : Json} {ep : EndpointInfo} (hj : j.utf8 = true)
    (h : fromJson j = some ep) : ep.Utf8 := by
  obtain ⟨port, -, h⟩ := Option.bind_eq_some_iff.mp h
  obtain rfl := Option.some.inj h
  refine ⟨?_, ?_⟩
  · dsimp only
    split
    · rename_i s hs
      simpa using Json.utf8_field hj hs
    · exact Utf8.valid_nil
  · dsimp only
    split
    · rename_i s hs
      simpa using Json.utf8_field hj hs
    · decide

private theorem keys_nodup : [ascii "addr", ascii "port", ascii "scheme"].Nodup := by decide

/-- An endpoint survives its trip through JSON. -/
theorem fromJson_toJson (ep : EndpointInfo) : fromJson ep.toJson = some ep := by
  have h1 : ep.toJson.field? (ascii "addr") = some (.str ep.addr) := by
    exact Json.field_mkObj (by exact keys_nodup) (by simp)
  have h2 : ep.toJson.field? (ascii "port") = some (.int ep.port.toNat) := by
    exact Json.field_mkObj (by exact keys_nodup) (by simp)
  have h3 : ep.toJson.field? (ascii "scheme") = some (.str ep.scheme) := by
    exact Json.field_mkObj (by exact keys_nodup) (by simp)
  have hp : ((ep.port.toNat : Int) % 65536).toNat = ep.port.toNat := by
    have := ep.port.toNat_lt
    omega
  simp [fromJson, portFromJson, h1, h2, h3, hp]

end EndpointInfo

structure NodeInfo where
  id : Bytes
  role : Bytes
  workers : List Bytes
  endpoint : Option EndpointInfo
  status : NodeStatus
  addedAt : Int
  activeAt : Int
  expiresIn : Option Int
  extra : Json
  deriving Repr

namespace NodeInfo

def jsonMembers (node : NodeInfo) : List (Bytes × Json) :=
  [(ascii "id", .str node.id), (ascii "role", .str node.role),
    (ascii "workers", .arr (node.workers.map .str)),
    (ascii "endpoint", (node.endpoint.map EndpointInfo.toJson).getD .null),
    (ascii "status", .str node.status.toString), (ascii "added_at", .int node.addedAt),
    (ascii "active_at", .int node.activeAt), (ascii "extra", node.extra),
    (ascii "expires_in", (node.expiresIn.map Json.int).getD .null)]

def toJson (node : NodeInfo) : Json := .mkObj node.jsonMembers

private theorem keys_nodup : [ascii "id", ascii "role", ascii "workers", ascii "endpoint", ascii "status",
    ascii "added_at", ascii "active_at", ascii "extra", ascii "expires_in"].Nodup := by decide

theorem field_toJson {node : NodeInfo} {k : Bytes} {v : Json} (h : (k, v) ∈ node.jsonMembers) :
    node.toJson.field? k = some v :=
  Json.field_mkObj (by exact keys_nodup) h

/-- `get<std::int64_t>()` on a number; another member leaves the default. -/
def intFromJson (j : Json) (key : Bytes) : Option Int :=
  match j.field? key with
  | some (.int n) => some n
  | some (.float whole _) => some whole
  | _ => none

def stringFromJson (j : Json) (key : Bytes) : Option Bytes :=
  match j.field? key with
  | some (.str s) => some s
  | _ => none

/-- The worker list; none: `get` throws on an item that is not a string. -/
def workersFromJson (j : Json) : Option (List Bytes) :=
  match j.field? (ascii "workers") with
  | some (.arr items) => (Json.arr items).getStrings?
  | _ => some []

def endpointFromJson (j : Json) : Option (Option EndpointInfo) :=
  match j.field? (ascii "endpoint") with
  | none | some .null => some none
  | some e => (EndpointInfo.fromJson e).map some

/-- none: an exception is thrown. -/
def fromJson (j : Json) : Option NodeInfo := do
  let workers ← workersFromJson j
  let endpoint ← endpointFromJson j
  some {
    id := (stringFromJson j (ascii "id")).getD []
    role := (stringFromJson j (ascii "role")).getD []
    workers, endpoint
    status := ((stringFromJson j (ascii "status")).map NodeStatus.fromString).getD .ok
    addedAt := (intFromJson j (ascii "added_at")).getD 0
    activeAt := (intFromJson j (ascii "active_at")).getD 0
    expiresIn := intFromJson j (ascii "expires_in")
    extra := match j.field? (ascii "extra") with
      | some (.obj fields) => .obj fields
      | _ => .obj [] }

/-- Every string of the node but its role is valid UTF-8. -/
structure Utf8ButRole (node : NodeInfo) : Prop where
  id : Utf8.Valid node.id
  workers : ∀ w ∈ node.workers, Utf8.Valid w
  endpoint : ∀ ep ∈ node.endpoint, ep.Utf8
  extra : node.extra.utf8 = true

theorem utf8_toJson {node : NodeInfo} (h : node.Utf8ButRole) :
    node.toJson.utf8 = true ↔ Utf8.Valid node.role := by
  have hkeys : ∀ k ∈ [ascii "id", ascii "role", ascii "workers", ascii "endpoint", ascii "status",
      ascii "added_at", ascii "active_at", ascii "extra", ascii "expires_in"], Utf8.Valid k := by decide
  have hs : Utf8.Valid node.status.toString := by cases node.status <;> decide
  have hep : ((node.endpoint.map EndpointInfo.toJson).getD .null).utf8 = true := by
    cases he : node.endpoint with
    | none => rfl
    | some ep => exact (EndpointInfo.utf8_toJson ep).mpr (h.endpoint ep he)
  have hex : ((node.expiresIn.map Json.int).getD .null).utf8 = true := by
    cases node.expiresIn <;> rfl
  rw [toJson, Json.utf8_mkObj (by exact keys_nodup), jsonMembers]
  simp only [List.mem_cons, List.not_mem_nil, or_false, forall_eq_or_imp, forall_eq] at hkeys ⊢
  simp only [hkeys, hs, hep, hex, h.id, h.extra, Json.utf8_str, Json.utf8_int, true_and, and_true,
    Json.utf8_arr, List.mem_map, forall_exists_index, and_imp, forall_apply_eq_imp_iff₂]
  exact ⟨fun hr => hr.1, fun hr => ⟨hr, h.workers⟩⟩

/-- A countdown makes no difference to what can be printed. -/
theorem utf8_toJson_expiresIn (node : NodeInfo) (expiresIn : Option Int) :
    ({ node with expiresIn } : NodeInfo).toJson.utf8 = true ↔ node.toJson.utf8 = true := by
  have hex (e : Option Int) : ((e.map Json.int).getD .null).utf8 = true := by
    cases e <;> rfl
  rw [toJson, toJson, Json.utf8_mkObj (by exact keys_nodup), Json.utf8_mkObj (by exact keys_nodup), jsonMembers,
    jsonMembers]
  simp only [List.mem_cons, List.not_mem_nil, or_false, forall_eq_or_imp, forall_eq, hex]

private theorem getStrings_str (ss : List Bytes) : (Json.arr (ss.map .str)).getStrings? = some ss := by
  induction ss with
  | nil => rfl
  | cons s ss ih =>
    have ih : (ss.map Json.str).mapM Json.getString? = some ss := ih
    simp [Json.getStrings?, List.mapM_cons, Json.getString?, ih]

private theorem fromString_toString (status : NodeStatus) : NodeStatus.fromString status.toString = status := by
  cases status <;> decide

/-- What `from_json` takes an extra for. -/
def asObject : Json → Json
  | .obj fields => .obj fields
  | _ => .obj []

theorem isObject_asObject (extra : Json) : (asObject extra).isObject = true := by
  cases extra <;> rfl

theorem asObject_object {extra : Json} (h : extra.isObject = true) : asObject extra = extra := by
  cases extra with
  | obj fields => rfl
  | _ => exact nomatch h

/-- A node record survives its trip through JSON, but for an extra that is no object. -/
theorem fromJson_toJson_asObject (node : NodeInfo) :
    fromJson node.toJson = some { node with extra := asObject node.extra } := by
  have string {k s : Bytes} (h : (k, .str s) ∈ node.jsonMembers) : stringFromJson node.toJson k = some s := by
    rw [stringFromJson, field_toJson h]
  have int {k : Bytes} {n : Int} (h : (k, .int n) ∈ node.jsonMembers) : intFromJson node.toJson k = some n := by
    rw [intFromJson, field_toJson h]
  have hworkers : workersFromJson node.toJson = some node.workers := by
    rw [workersFromJson, field_toJson (v := .arr (node.workers.map .str)) (by simp [jsonMembers])]
    exact getStrings_str node.workers
  have hendpoint : endpointFromJson node.toJson = some node.endpoint := by
    rw [endpointFromJson,
      field_toJson (v := (node.endpoint.map EndpointInfo.toJson).getD .null) (by simp [jsonMembers])]
    cases node.endpoint with
    | none => rfl
    | some ep => exact congrArg (Option.map some) (EndpointInfo.fromJson_toJson ep)
  have hexpires : intFromJson node.toJson (ascii "expires_in") = node.expiresIn := by
    rw [intFromJson, field_toJson (v := (node.expiresIn.map Json.int).getD .null) (by simp [jsonMembers])]
    cases node.expiresIn <;> rfl
  have hextra : node.toJson.field? (ascii "extra") = some node.extra := field_toJson (by simp [jsonMembers])
  rw [fromJson, hworkers, hendpoint, string (s := node.id) (by simp [jsonMembers]),
    string (s := node.role) (by simp [jsonMembers]),
    string (s := node.status.toString) (by simp [jsonMembers]),
    int (n := node.addedAt) (by simp [jsonMembers]), int (n := node.activeAt) (by simp [jsonMembers]),
    hexpires, hextra]
  simp only [Option.bind_eq_bind, Option.bind_some, Option.getD_some, Option.map_some, fromString_toString]
  cases node.extra <;> rfl

theorem fromJson_toJson {node : NodeInfo} (h : node.extra.isObject = true) : fromJson node.toJson = some node := by
  rw [fromJson_toJson_asObject, asObject_object h]

end NodeInfo
end LightApr.Core
