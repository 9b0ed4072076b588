import LightApr.Core.RegistryIntegrity
import LightApr.Http.Route

/-! When a request is answered and when an exception leaves the router. -/
namespace LightApr.Http
open LightApr.Core Lib Registry

/-! What a request does to the registry. -/

/-- Nothing, or one move of the round robin. -/
def Resolves (cfg : RegistryConfig) (r r' : Registry) : Prop :=
  r' = r ∨ ∃ role worker, r' = (r.resolveNode cfg.order role worker).2

theorem Resolves.nodes {cfg : RegistryConfig} {r r' : Registry} (h : Resolves cfg r r') : r'.nodes = r.nodes := by
  rcases h with rfl | ⟨role, worker, rfl⟩
  · rfl
  · exact nodes_resolveNode _ _ _ _

theorem resolves_routeRequest (cfg : HttpConfig) (env : Readings) (req : HttpRequest) (r : Registry) :
    Resolves cfg.registry r (routeRequest cfg env req r).2 := by
  have hresolve : Resolves cfg.registry r (resolveRoute cfg req.queryParams r).2 := by
    have h : Resolves cfg.registry r (r.resolveNode cfg.registry.order (textParam req.queryParams (ascii "role"))
      (textParam req.queryParams (ascii "worker"))).2 := .inr ⟨_, _, rfl⟩
    unfold resolveRoute
    dsimp only
    split
    · exact .inl rfl
    · split <;> · rename_i he; rwa [he] at h
  unfold routeRequest
  dsimp only
  split
  · exact .inl rfl
  split
  · exact .inl rfl
  split
  · exact .inl rfl
  split
  · exact .inl rfl
  split
  · exact .inl rfl
  split
  · exact .inl rfl
  split
  · exact hresolve
  · exact .inl rfl

/-! The bodies. -/

section
variable {cfg : HttpConfig} {rcfg : RegistryConfig} {env : Readings} {r : Registry} {params : Table Bytes}

theorem respond_isSome (lib : JsonLib) (statusCode : Nat) (statusText : Bytes) (j : Json) :
    (respond lib statusCode statusText j).isSome = j.utf8 := by
  rw [respond, Option.isSome_map, lib.dump_isSome]

theorem respondError_isSome (lib : JsonLib) (statusCode : Nat) (statusText : Bytes) {message : Bytes}
    (h : Utf8.Valid message) : (respondError lib statusCode statusText message).isSome = true := by
  have hk : Utf8.Valid (ascii "error") := by decide
  rw [respondError, respond_isSome, Json.utf8_mkObj (by simp)]
  simp [hk, h]

theorem utf8_healthJson (cellId : Bytes) (uptime : Nat) :
    (healthJson cellId uptime).utf8 = true ↔ Utf8.Valid cellId := by
  have hn : [ascii "status", ascii "cell_id", ascii "uptime"].Nodup := by decide
  have h1 : Utf8.Valid (ascii "status") := by decide
  have h2 : Utf8.Valid (ascii "cell_id") := by decide
  have h3 : Utf8.Valid (ascii "uptime") := by decide
  have h4 : Utf8.Valid (ascii "UP") := by decide
  rw [healthJson, Json.utf8_mkObj (by exact hn)]
  simp [h1, h2, h3, h4]

theorem utf8_countersJson (counters : Table Nat) :
    (countersJson counters).utf8 = true ↔ ∀ k n, counters.lookup k = some n → Utf8.Valid k := by
  have hn : ((counters.pairs.map fun e => (e.1, Json.int e.2)).map Prod.fst).Nodup := by
    rw [List.map_map]
    exact counters.pairs_keys_nodup
  rw [countersJson, Json.utf8_mkObj hn]
  constructor
  · intro h k n hk
    exact (h (k, .int n) (List.mem_map.mpr ⟨(k, n), Table.mem_pairs.mpr hk, rfl⟩)).1
  · intro h m hm
    obtain ⟨⟨k, n⟩, he, rfl⟩ := List.mem_map.mp hm
    exact ⟨h k n (Table.mem_pairs.mp he), rfl⟩

theorem utf8_memoryJson (env : Readings) (r : Registry) : (memoryJson env r).utf8 = true := by
  have hn : [ascii "total", ascii "registry", ascii "mqtt_rx", ascii "mqtt_tx", ascii "http_rx",
    ascii "http_tx", ascii "other", ascii "extra"].Nodup := by decide
  have hk : ∀ k ∈ [ascii "total", ascii "registry", ascii "mqtt_rx", ascii "mqtt_tx", ascii "http_rx",
    ascii "http_tx", ascii "other", ascii "extra"], Utf8.Valid k := by decide
  rw [memoryJson, Json.utf8_mkObj (by exact hn)]
  simp only [List.mem_cons, List.not_mem_nil, or_false, forall_eq_or_imp, forall_eq] at hk ⊢
  simp only [hk, Json.utf8_int, and_self]

/-! The statistics name exactly the stored roles, and only stored workers. -/

private theorem lookup_increment (key k : Bytes) (counts : Table Nat) :
    ((increment key counts).lookup k).isSome ↔ k = key ∨ (counts.lookup k).isSome := by
  by_cases hk : k = key
  · subst hk
    simp [increment, AList.lookup_insert]
  · simp [increment, AList.lookup_insert_ne hk, hk]

private theorem lookup_increments (keys : List Bytes) (k : Bytes) (counts : Table Nat) :
    ((keys.foldl (fun counts w => increment w counts) counts).lookup k).isSome ↔
      k ∈ keys ∨ (counts.lookup k).isSome := by
  induction keys generalizing counts with
  | nil => simp
  | cons key keys ih => rw [List.foldl_cons, ih, lookup_increment, List.mem_cons, ← or_assoc, or_comm (a := k ∈ keys)]

private theorem lookup_stats (entries : List (Bytes × NodeInfo)) (k : Bytes) (stats : RegistryStats) :
    (((entries.foldl (fun s e => countNode s e.2) stats).roles.lookup k).isSome ↔
        (∃ e ∈ entries, k = e.2.role) ∨ (stats.roles.lookup k).isSome) ∧
      (((entries.foldl (fun s e => countNode s e.2) stats).workers.lookup k).isSome ↔
        (∃ e ∈ entries, k ∈ e.2.workers) ∨ (stats.workers.lookup k).isSome) := by
  induction entries generalizing stats with
  | nil => simp
  | cons e entries ih =>
    obtain ⟨hr, hw⟩ := ih (countNode stats e.2)
    rw [List.foldl_cons, hr, hw]
    simp only [countNode, lookup_increment, lookup_increments, List.mem_cons, exists_eq_or_imp]
    constructor <;> · rw [← or_assoc, or_comm (a := ∃ e ∈ entries, _)]

theorem utf8_statusJson (hr : Intact rcfg r) (order : MapOrder) (env : Readings) :
    (statusJson order env r).utf8 = true ↔ ∀ k node, r.nodes.lookup k = some node → Utf8.Valid node.role := by
  have h1 : [ascii "nodes", ascii "memory", ascii "connections", ascii "roles", ascii "workers"].Nodup := by decide
  have h2 : ∀ k ∈ [ascii "nodes", ascii "memory", ascii "connections", ascii "roles", ascii "workers"],
    Utf8.Valid k := by decide
  have h3 : [ascii "total", ascii "alive", ascii "grace"].Nodup := by decide
  have h4 : ∀ k ∈ [ascii "total", ascii "alive", ascii "grace"], Utf8.Valid k := by decide
  have hcounts (a b c : Nat) : (Json.mkObj [(ascii "total", .int a), (ascii "alive", .int b),
      (ascii "grace", .int c)]).utf8 = true := by
    rw [Json.utf8_mkObj (by exact h3)]
    simp only [List.mem_cons, List.not_mem_nil, or_false, forall_eq_or_imp, forall_eq] at h4 ⊢
    simp only [h4, Json.utf8_int, and_self]
  have hconn (a : Nat) : (Json.mkObj [(ascii "total", .int a)]).utf8 = true := by
    rw [Json.utf8_mkObj (by simp)]
    simpa using h4 (ascii "total") (by simp)
  have hstats (k : Bytes) := lookup_stats (r.nodes.iterate order) k ⟨r.nodes.entries.length, 0, 0, ∅, ∅⟩
  have hroles : (countersJson (r.getStats order).roles).utf8 = true ↔
      ∀ k node, r.nodes.lookup k = some node → Utf8.Valid node.role := by
    rw [utf8_countersJson]
    constructor
    · intro h k node hk
      obtain ⟨n, hn⟩ := Option.isSome_iff_exists.mp
        ((hstats node.role).1.mpr (.inl ⟨(k, node), Table.mem_iterate.mpr hk, rfl⟩))
      exact h _ n hn
    · intro h k n hk
      rcases (hstats k).1.mp (Option.isSome_iff_exists.mpr ⟨n, hk⟩) with ⟨⟨key, node⟩, he, rfl⟩ | he
      · exact h key node (Table.mem_iterate.mp he)
      · exact nomatch he
  have hworkers : (countersJson (r.getStats order).workers).utf8 = true := by
    rw [utf8_countersJson]
    intro k n hk
    rcases (hstats k).2.mp (Option.isSome_iff_exists.mpr ⟨n, hk⟩) with ⟨⟨key, node⟩, he, hm⟩ | he
    · exact (hr key node (Table.mem_iterate.mp he)).utf8.workers k hm
    · exact nomatch he
  rw [statusJson, Json.utf8_mkObj (by exact h1)]
  simp only [List.mem_cons, List.not_mem_nil, or_false, forall_eq_or_imp, forall_eq] at h2 ⊢
  simp only [h2, hcounts, hconn, hworkers, utf8_memoryJson, hroles, and_self, true_and, and_true]

/-! The pages. -/

/-- A matched node is a stored one, up to its countdown. -/
theorem matched_stored {order : MapOrder} {now : Int} {roleFilter workerFilter : Bytes} {n : NodeInfo}
    (h : n ∈ matched order now roleFilter workerFilter r) :
    ∃ k node expiresIn, r.nodes.lookup k = some node ∧ n = { node with expiresIn } := by
  obtain ⟨node, hm, rfl⟩ := List.mem_map.mp h
  obtain ⟨⟨k, node⟩, he, rfl⟩ := List.mem_map.mp (List.mem_filter.mp hm).1
  refine ⟨k, node, ?_⟩
  dsimp only
  split
  · exact ⟨_, Table.mem_iterate.mp he, rfl⟩
  · exact ⟨_, Table.mem_iterate.mp he, rfl⟩

theorem utf8_matched (hr : Intact rcfg r) {order : MapOrder} {now : Int} {roleFilter workerFilter : Bytes}
    {n : NodeInfo} (h : n ∈ matched order now roleFilter workerFilter r) :
    n.toJson.utf8 = true ↔ Utf8.Valid n.role := by
  obtain ⟨k, node, expiresIn, hk, rfl⟩ := matched_stored h
  have hu := (hr k node hk).utf8
  exact NodeInfo.utf8_toJson ⟨hu.id, hu.workers, hu.endpoint, hu.extra⟩

theorem utf8_registryJson (total : Nat) (nodes : List NodeInfo) :
    (registryJson total nodes).utf8 = true ↔ ∀ n ∈ nodes, n.toJson.utf8 = true := by
  have hn : [ascii "total", ascii "nodes"].Nodup := by decide
  have h1 : Utf8.Valid (ascii "total") := by decide
  have h2 : Utf8.Valid (ascii "nodes") := by decide
  rw [registryJson, Json.utf8_mkObj (by exact hn)]
  simp [h1, h2]

/-- Where a page starts. -/
def pageStart (page count : Nat) : Nat := ((if page < 1 then 1 else page) - 1) * count % sizeMax

/-- The page is within the 64-bit range unless it lies past the end, and every node on
it has a role that is text. -/
def PageAnswerable (order : MapOrder) (now : Int) (roleFilter workerFilter : Bytes) (page count : Nat)
    (r : Registry) : Prop :=
  let nodes := matched order now roleFilter workerFilter r
  (pageStart page count < nodes.length → pageStart page count + count < sizeMax) ∧
    ∀ n ∈ (nodes.drop (pageStart page count)).take count, Utf8.Valid n.role

private theorem stoul_lt {text : Bytes} {n : Nat} (h : stoul text = some n) : n < sizeMax := by
  unfold stoul at h
  dsimp only at h
  generalize List.takeWhile isDigit _ = ds at h
  split at h
  · exact nomatch h
  · split at h
    · exact nomatch h
    · obtain rfl := Option.some.inj h
      split
      · exact Nat.mod_lt _ (by decide)
      · omega

private theorem numberParam_lt {key : Bytes} {fallback n : Nat} (hf : fallback < sizeMax)
    (h : numberParam params key fallback = some n) : n < sizeMax := by
  unfold numberParam at h
  split at h
  · obtain rfl := Option.some.inj h
    exact hf
  · exact stoul_lt h

/-- `query_registry` and the body made of its page. -/
private theorem query_isSome (hr : Intact rcfg r) (lib : JsonLib) (order : MapOrder) (now : Int)
    (roleFilter workerFilter : Bytes) (page : Nat) {count : Nat} (hcount : count < sizeMax) :
    ((r.queryRegistry order now page count roleFilter workerFilter).bind fun x =>
        respond lib 200 (ascii "OK") (registryJson x.1 x.2)).isSome = true ↔
      PageAnswerable order now roleFilter workerFilter page count r := by
  have hstart : pageStart page count < sizeMax := Nat.mod_lt _ (by decide)
  have htext (nodes : List NodeInfo) (hsub : ∀ n ∈ nodes, n ∈ matched order now roleFilter workerFilter r)
      (total : Nat) : (respond lib 200 (ascii "OK") (registryJson total nodes)).isSome = true ↔
        ∀ n ∈ nodes, Utf8.Valid n.role := by
    rw [respond_isSome, utf8_registryJson]
    exact forall₂_congr fun n hn => utf8_matched hr (hsub n hn)
  unfold queryRegistry PageAnswerable pageRange
  dsimp only
  rw [← pageStart]
  generalize matched order now roleFilter workerFilter r = nodes at htext ⊢
  generalize pageStart page count = start at hstart ⊢
  by_cases hpast : nodes.length ≤ start
  · -- past the end: an empty page
    rw [if_pos hpast, List.drop_eq_nil_of_le hpast, List.take_nil]
    dsimp only [Option.bind_some]
    rw [htext [] (by simp)]
    simp only [List.not_mem_nil, false_implies, implies_true, and_true, true_iff]
    omega
  · rw [if_neg hpast]
    dsimp only
    by_cases hfit : start + count < sizeMax
    · rw [Nat.mod_eq_of_lt hfit, if_neg (by omega), ← List.take_take, List.take_length]
      dsimp only [Option.bind_some]
      rw [htext _ fun n hn => List.mem_of_mem_take (List.mem_of_mem_drop hn), List.drop_take,
        Nat.add_sub_cancel_left]
      exact ⟨fun h => ⟨fun _ => hfit, h⟩, fun h => h.2⟩
    · -- the end wraps round to before the start
      have hwrap : (start + count) % sizeMax = start + count - sizeMax := by
        rw [Nat.mod_eq_sub_mod (by omega), Nat.mod_eq_of_lt (by omega)]
      rw [hwrap, if_pos (by omega)]
      simp only [Option.bind_none, Option.isSome_none, Bool.false_eq_true, false_iff]
      exact fun h => hfit (h.1 (by omega))

/-- The condition under which `/registry` answers. -/
def RegistryAnswerable (cfg : HttpConfig) (env : Readings) (params : Table Bytes) (r : Registry) : Prop :=
  ∃ page count, numberParam params (ascii "page") 1 = some page ∧
    numberParam params (ascii "count") 50 = some count ∧
    PageAnswerable cfg.registry.order env.now (textParam params (ascii "role"))
      (textParam params (ascii "worker")) page count r

theorem registryRoute_isSome (hr : Intact rcfg r) :
    (registryRoute cfg env params r).isSome = true ↔ RegistryAnswerable cfg env params r := by
  unfold registryRoute RegistryAnswerable
  cases hp : numberParam params (ascii "page") 1 with
  | none => simp
  | some page =>
    cases hc : numberParam params (ascii "count") 50 with
    | none => simp
    | some count =>
      have h := query_isSome hr cfg.registry.json cfg.registry.order env.now (textParam params (ascii "role"))
        (textParam params (ascii "worker")) page (numberParam_lt (by decide) hc)
      simpa using h

/-! The other routes. -/

theorem nodeRoute_isSome (hr : Intact rcfg r) (id : Bytes) :
    (nodeRoute cfg env id r).isSome = true ↔
      ∀ node, r.nodes.lookup id = some node → Utf8.Valid node.role := by
  unfold nodeRoute getNode
  cases hl : r.nodes.lookup id with
  | none =>
    rw [Option.map_none]
    have hmessage : Utf8.Valid (ascii "Node not found") := by decide
    simp only [respondError_isSome cfg.registry.json 404 (ascii "Not Found") hmessage, reduceCtorEq, false_implies,
      implies_true]
  | some node =>
    rw [Option.map_some]
    dsimp only
    rw [respond_isSome]
    have hu := (hr id node hl).utf8
    have key : ∀ n : NodeInfo, (∃ expiresIn, n = { node with expiresIn }) →
        (n.toJson.utf8 = true ↔ Utf8.Valid node.role) := by
      rintro n ⟨expiresIn, rfl⟩
      exact NodeInfo.utf8_toJson ⟨hu.id, hu.workers, hu.endpoint, hu.extra⟩
    rw [key _ (by split <;> exact ⟨_, rfl⟩)]
    exact ⟨fun h n hn => Option.some.inj hn ▸ h, fun h => h node rfl⟩

private theorem utf8_resolvedJson {node : NodeInfo} (hu : node.Utf8ButRole) (worker : Bytes)
    (hw : ∀ v, node.extra.field? worker = some v → v.utf8 = true) :
    (resolvedJson worker node).utf8 = true := by
  have hn : [ascii "id", ascii "endpoint"].Nodup := by decide
  have h1 : Utf8.Valid (ascii "id") := by decide
  have h2 : Utf8.Valid (ascii "endpoint") := by decide
  have hep : ((node.endpoint.map EndpointInfo.toJson).getD .null).utf8 = true := by
    cases he : node.endpoint with
    | none => rfl
    | some ep => exact (EndpointInfo.utf8_toJson ep).mpr (hu.endpoint ep he)
  have hbase : (Json.mkObj [(ascii "id", .str node.id),
      (ascii "endpoint", (node.endpoint.map EndpointInfo.toJson).getD .null)]).utf8 = true := by
    rw [Json.utf8_mkObj (by exact hn)]
    simp [h1, h2, hu.id, hep]
  unfold resolvedJson
  dsimp only
  split
  · exact hbase
  · split
    · exact hbase
    · rename_i extra he
      exact Json.utf8_set (by decide) (hw extra he) hbase

theorem resolveRoute_isSome (hr : Intact rcfg r) : (resolveRoute cfg params r).1.isSome = true := by
  unfold resolveRoute
  dsimp only
  split
  · exact respondError_isSome _ _ _ (by decide)
  · split
    · exact respondError_isSome _ _ _ (by decide)
    · rename_i node r' he
      dsimp only
      rw [respond_isSome]
      have hm : ∃ k, r.nodes.lookup k = some node := by
        unfold resolveNode at he
        dsimp only at he
        split at he
        · exact nomatch he
        · have hg := List.mem_of_getElem? (Prod.mk.inj he).1
          obtain ⟨⟨k, n⟩, hk, rfl⟩ := List.mem_map.mp (List.mem_filter.mp hg).1
          exact ⟨k, Table.mem_iterate.mp hk⟩
      obtain ⟨k, hk⟩ := hm
      have hu := (hr k node hk).utf8
      exact utf8_resolvedJson hu _ fun v hv => Json.utf8_field hu.extra hv

/-- The condition under which a request is answered, route by route. -/
def Answerable (cfg : HttpConfig) (env : Readings) (req : HttpRequest) (r : Registry) : Prop :=
  if cfg.monitorEnabled ∧ (req.path = ascii "/monitor" ∨ req.path = ascii "/") then True
  else if cfg.testerEnabled ∧ req.path = ascii "/tester" then True
  else if req.path = ascii "/healthz" then Utf8.Valid cfg.cellId
  else if req.path = ascii "/status" then
    ∀ k node, r.nodes.lookup k = some node → Utf8.Valid node.role
  else if req.path = ascii "/registry" then RegistryAnswerable cfg env req.queryParams r
  else if kRegistryPath.isPrefixOf req.path then
    ∀ node, r.nodes.lookup (req.path.drop kRegistryPath.length) = some node → Utf8.Valid node.role
  else True

theorem routeRequest_isSome (hr : Intact rcfg r) (req : HttpRequest) :
    (routeRequest cfg env req r).1.isSome = true ↔ Answerable cfg env req r := by
  unfold routeRequest Answerable
  dsimp only
  split
  · exact iff_of_true rfl trivial
  split
  · exact iff_of_true rfl trivial
  split
  · rw [respond_isSome]
    exact utf8_healthJson _ _
  split
  · rw [respond_isSome]
    exact utf8_statusJson hr _ _
  split
  · exact registryRoute_isSome hr
  split
  · exact nodeRoute_isSome hr _
  split
  · exact iff_of_true (resolveRoute_isSome hr) trivial
  · exact iff_of_true (respondError_isSome _ _ _ (by decide)) trivial

end
end LightApr.Http
