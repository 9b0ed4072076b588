import LightApr.Core.Registry
import LightApr.Http.Parsing

/-! The routes of the HTTP listener. -/
namespace LightApr.Http
open LightApr.Core

structure HttpConfig where
  registry : RegistryConfig
  cellId : Bytes
  monitorEnabled : Bool
  testerEnabled : Bool
  /-- the two pages generated at build time -/
  monitorHtml : Bytes
  testerHtml : Bytes

/-- No pages, and a JSON library that reads the texts of `docs`. -/
def HttpConfig.ofDocuments (docs : List Json) : HttpConfig := ⟨.ofDocuments docs, ascii "cell-1", false, false, [], []⟩

/-- What a request reads from outside the registry: the clocks, the process size and the
traffic counters in kilobytes, and the open connections. -/
structure Readings where
  now : Int
  uptime : Nat
  totalKb : Nat
  mqttRxKb : Nat
  mqttTxKb : Nat
  httpRxKb : Nat
  httpTxKb : Nat
  otherKb : Nat
  connections : Nat

def Readings.zero : Readings := ⟨0, 0, 0, 0, 0, 0, 0, 0, 0⟩

def ok (contentType body : Bytes) : HttpResponse := ⟨200, ascii "OK", contentType, body⟩

/-- A JSON body; none: `dump` throws. -/
def respond (lib : JsonLib) (statusCode : Nat) (statusText : Bytes) (j : Json) : Option HttpResponse :=
  (lib.dump j).map fun body => ⟨statusCode, statusText, ascii "application/json", body⟩

def respondError (lib : JsonLib) (statusCode : Nat) (statusText message : Bytes) : Option HttpResponse :=
  respond lib statusCode statusText (.mkObj [(ascii "error", .str message)])

def healthJson (cellId : Bytes) (uptime : Nat) : Json :=
  .mkObj [(ascii "status", .str (ascii "UP")), (ascii "cell_id", .str cellId), (ascii "uptime", .int uptime)]

/-- A map of counters as an object. -/
def countersJson (counters : Table Nat) : Json :=
  .mkObj (counters.pairs.map fun e => (e.1, .int e.2))

/-- A live gauge in kilobytes, never below zero. -/
def gaugeKb (bytes : Int) : Nat := (bytes.tdiv 1024).toNat

def memoryJson (env : Readings) (r : Registry) : Json :=
  .mkObj [(ascii "total", .int env.totalKb), (ascii "registry", .int (gaugeKb r.registryBytes)),
    (ascii "mqtt_rx", .int env.mqttRxKb), (ascii "mqtt_tx", .int env.mqttTxKb),
    (ascii "http_rx", .int env.httpRxKb), (ascii "http_tx", .int env.httpTxKb),
    (ascii "other", .int env.otherKb), (ascii "extra", .int (gaugeKb r.extraBytes))]

def statusJson (order : MapOrder) (env : Readings) (r : Registry) : Json :=
  let stats := r.getStats order
  .mkObj [
    (ascii "nodes", .mkObj [(ascii "total", .int stats.totalNodes), (ascii "alive", .int stats.aliveNodes),
      (ascii "grace", .int stats.graceNodes)]),
    (ascii "memory", memoryJson env r),
    (ascii "connections", .mkObj [(ascii "total", .int env.connections)]),
    (ascii "roles", countersJson stats.roles),
    (ascii "workers", countersJson stats.workers)]

def registryJson (total : Nat) (nodes : List NodeInfo) : Json :=
  .mkObj [(ascii "total", .int total), (ascii "nodes", .arr (nodes.map NodeInfo.toJson))]

/-- A numeric query parameter; none: `stoul` throws. -/
def numberParam (params : Table Bytes) (key : Bytes) (fallback : Nat) : Option Nat :=
  match params.lookup key with
  | none => some fallback
  | some text => stoul text

def textParam (params : Table Bytes) (key : Bytes) : Bytes := (params.lookup key).getD []

def registryRoute (cfg : HttpConfig) (env : Readings) (params : Table Bytes) (r : Registry) :
    Option HttpResponse := do
  let page ← numberParam params (ascii "page") 1
  let count ← numberParam params (ascii "count") 50
  let (total, nodes) ← r.queryRegistry cfg.registry.order env.now page count
    (textParam params (ascii "role")) (textParam params (ascii "worker"))
  respond cfg.registry.json 200 (ascii "OK") (registryJson total nodes)

/-- The answer to a resolved request; the extra of the worker asked for, when it has one. -/
def resolvedJson (worker : Bytes) (n : NodeInfo) : Json :=
  let j := Json.mkObj [(ascii "id", .str n.id),
    (ascii "endpoint", (n.endpoint.map EndpointInfo.toJson).getD .null)]
  if worker = [] then j
  else
    match n.extra.field? worker with
    | none => j
    | some extra => j.set (ascii "extra") extra

def resolveRoute (cfg : HttpConfig) (params : Table Bytes) (r : Registry) : Option HttpResponse × Registry :=
  let role := textParam params (ascii "role")
  let worker := textParam params (ascii "worker")
  let lib := cfg.registry.json
  if role = [] then
    (respondError lib 400 (ascii "Bad Request") (ascii "Missing required query parameter: role"), r)
  else
    match r.resolveNode cfg.registry.order role worker with
    | (none, r) => (respondError lib 404 (ascii "Not Found") (ascii "No available node found"), r)
    | (some n, r) => (respond lib 200 (ascii "OK") (resolvedJson worker n), r)

def nodeRoute (cfg : HttpConfig) (env : Readings) (id : Bytes) (r : Registry) : Option HttpResponse :=
  match r.getNode env.now id with
  | some node => respond cfg.registry.json 200 (ascii "OK") node.toJson
  | none => respondError cfg.registry.json 404 (ascii "Not Found") (ascii "Node not found")

def kRegistryPath : Bytes := ascii "/registry/"

/-- none: an exception leaves the function. Only `/resolve` writes to the registry. -/
def routeRequest (cfg : HttpConfig) (env : Readings) (req : HttpRequest) (r : Registry) :
    Option HttpResponse × Registry :=
  let lib := cfg.registry.json
  if cfg.monitorEnabled ∧ (req.path = ascii "/monitor" ∨ req.path = ascii "/") then
    (some (ok (ascii "text/html") cfg.monitorHtml), r)
  else if cfg.testerEnabled ∧ req.path = ascii "/tester" then
    (some (ok (ascii "text/html") cfg.testerHtml), r)
  else if req.path = ascii "/healthz" then
    (respond lib 200 (ascii "OK") (healthJson cfg.cellId env.uptime), r)
  else if req.path = ascii "/status" then
    (respond lib 200 (ascii "OK") (statusJson cfg.registry.order env r), r)
  else if req.path = ascii "/registry" then
    (registryRoute cfg env req.queryParams r, r)
  else if kRegistryPath.isPrefixOf req.path then
    (nodeRoute cfg env (req.path.drop kRegistryPath.length) r, r)
  else if req.path = ascii "/resolve" then
    resolveRoute cfg req.queryParams r
  else
    (respondError lib 404 (ascii "Not Found") (ascii "Route not found"), r)

end LightApr.Http
