import LightApr.Sdk.Bootstrap
import LightApr.Server.Effect

/-! A node record on its way through JSON: printed by the broker, read by the C++ client library. -/
namespace LightApr.Sdk.NodeReading
open LightApr.Core LightApr.Http LightApr.Sdk.Replica LightApr.Sdk.Bootstrap

/-- `handle_publish`. The callbacks of an application topic leave the nodes alone. -/
def handlePublish (parse : Bytes → Option Json) (c : Client NodeInfo NodeInfo) (topic payload : Bytes) :
    Client NodeInfo NodeInfo :=
  if (ascii "apr/").isPrefixOf topic then
    match parse payload with
    | none => c
    | some j => handleMessage Replica.Cpp.library c j
  else c

/-- What a client does with a record that it has read. -/
def takes (c : Client NodeInfo NodeInfo) (node : NodeInfo) : Client NodeInfo NodeInfo :=
  if c.reconciled then { c with localNodes := Replica.Cpp.applyNodeEvent c.localNodes node }
  else { c with syncQueue := c.syncQueue ++ [node] }

variable {node : NodeInfo} {parse : Bytes → Option Json}

theorem handlePublish_apr {topic payload : Bytes} (htopic : ascii "apr/" <+: topic)
    (hparse : parse payload = some node.toJson) (ho : node.extra.isObject = true) (c : Client NodeInfo NodeInfo) :
    handlePublish parse c topic payload = takes c node := by
  rw [handlePublish, if_pos (List.isPrefixOf_iff_prefix.mpr htopic), hparse]
  dsimp only
  have hread : Replica.Cpp.library.decode node.toJson = some node := NodeInfo.fromJson_toJson ho
  rw [handleMessage, hread]
  rfl

theorem mem_nodeMessages {cfg : Server.ServerConfig} {observers : List (Nat × Nat)} {server : Nat}
    {topic payload : Bytes}
    (h : (server, topic, payload) ∈ Server.World.nodeMessages cfg node observers) :
    topic = ascii "apr/" ++ node.role ∧ cfg.registry.json.dump node.toJson = some payload := by
  unfold Server.World.nodeMessages at h
  split at h
  · rename_i text hdump
    obtain ⟨observer, -, he⟩ := List.mem_map.mp h
    obtain ⟨-, he⟩ := Prod.mk.inj he
    obtain ⟨rfl, rfl⟩ := Prod.mk.inj he
    exact ⟨rfl, hdump⟩
  · exact absurd h List.not_mem_nil

theorem nodesOf_registryJson (total : Nat) (nodes : List NodeInfo) :
    nodesOf? (registryJson total nodes) = some (nodes.map NodeInfo.toJson) := by
  have hkeys : [ascii "total", ascii "nodes"].Nodup := by decide
  have hfield : (registryJson total nodes).field? (ascii "nodes") = some (.arr (nodes.map NodeInfo.toJson)) := by
    exact Json.field_mkObj (by exact hkeys) (List.mem_cons_of_mem _ (List.mem_singleton.mpr rfl))
  rw [nodesOf?, hfield]

theorem fetchSnapshot_registryJson {total : Nat} {nodes : List NodeInfo} (ho : ∀ n ∈ nodes, n.extra.isObject = true)
    {lib : JsonLib} {text : Bytes} (hdump : lib.dump (registryJson total nodes) = some text)
    (hparse : parse text = some (registryJson total nodes)) (keepAlive : Bool) (localNodes : Table NodeInfo) :
    Cpp.fetchSnapshot parse (received (respond lib 200 (ascii "OK") (registryJson total nodes)) keepAlive) localNodes =
      nodes.foldl (fun t n => t.insert n.id n) localNodes := by
  obtain ⟨n, hfind, hbody⟩ := find_renderResponse keepAlive text
  rw [respond, hdump, Option.map_some, received, Cpp.fetchSnapshot, hfind]
  dsimp only
  rw [hbody, hparse, Option.bind_some, nodesOf_registryJson]
  refine (Cpp.loadSnapshot_toJson nodes localNodes).trans (List.foldl_ext _ _ _ fun t n hn => ?_)
  rw [NodeInfo.asObject_object (ho n hn)]

/-- **A node record with an object as its extra data survives the trip through JSON in all its fields. Where parsing
reads back what was printed, the client library takes from every broadcast the record that the broker announced,
and from an answer to `/registry` the records of its page.** -/
theorem node_read_back {node : NodeInfo} (ho : node.extra.isObject = true) :
    NodeInfo.fromJson node.toJson = some node ∧
      (∀ (cfg : Server.ServerConfig) (observers : List (Nat × Nat)) (parse : Bytes → Option Json)
        (server : Nat) (topic payload : Bytes),
        (∀ text, cfg.registry.json.dump node.toJson = some text → parse text = some node.toJson) →
        (server, topic, payload) ∈ Server.World.nodeMessages cfg node observers →
        ∀ c, handlePublish parse c topic payload = takes c node) ∧
      ∀ (lib : JsonLib) (parse : Bytes → Option Json) (total : Nat) (before after : List NodeInfo) (text : Bytes),
        (∀ n ∈ before ++ after, n.extra.isObject = true) →
        lib.dump (registryJson total (before ++ node :: after)) = some text →
        parse text = some (registryJson total (before ++ node :: after)) → ∀ keepAlive localNodes,
        Cpp.fetchSnapshot parse
            (received (respond lib 200 (ascii "OK") (registryJson total (before ++ node :: after))) keepAlive)
            localNodes =
          (before ++ node :: after).foldl (fun t n => t.insert n.id n) localNodes := by
  refine ⟨NodeInfo.fromJson_toJson ho, ?_, ?_⟩
  · intro cfg observers parse server topic payload hround hmem c
    obtain ⟨rfl, hdump⟩ := mem_nodeMessages hmem
    exact handlePublish_apr (List.prefix_append _ _) (hround payload hdump) ho c
  · intro lib parse total before after text hothers hdump hparse keepAlive localNodes
    refine fetchSnapshot_registryJson (fun n hn => ?_) hdump hparse keepAlive localNodes
    rcases List.mem_append.mp hn with hn | hn
    · exact hothers n (List.mem_append_left _ hn)
    · rcases List.mem_cons.mp hn with rfl | hn
      · exact ho
      · exact hothers n (List.mem_append_right _ hn)

private def worker : NodeInfo where
  id := ascii "node-1"
  role := ascii "render"
  workers := [ascii "gpu", ascii "cpu"]
  endpoint := some ⟨ascii "10.0.0.7", 8090, ascii "https"⟩
  status := .grace
  addedAt := 1700000000
  activeAt := -5
  expiresIn := some 0
  extra := .obj [(ascii "gpu", .arr [.null, .obj [(ascii "vram", .int 24)]])]

private theorem utf8_worker : worker.toJson.utf8 = true := by decide +kernel

private theorem dump_document {j : Json} (h : j.utf8 = true) : (JsonLib.ofDocuments [j]).dump j = some j.render := by
  show (if j.utf8 then some j.render else none) = some j.render
  rw [if_pos h]

private theorem parse_document {j : Json} (h : j.utf8 = true) : (JsonLib.ofDocuments [j]).parse j.render = some j := by
  show [j].find? (fun d => d.utf8 && decide (d.render = j.render)) = some j
  refine List.find?_cons_of_pos ?_
  rw [h, decide_eq_true rfl, Bool.and_self]

/-- A node in its grace period, with data of one worker, as the broadcast carries it. -/
theorem worker_read_back : NodeInfo.fromJson worker.toJson = some worker ∧
    ∀ c, handlePublish (JsonLib.ofDocuments [worker.toJson]).parse c (ascii "apr/" ++ worker.role)
      worker.toJson.render = takes c worker := by
  obtain ⟨hrestored, hbroadcast, -⟩ := node_read_back (rfl : worker.extra.isObject = true)
  refine ⟨hrestored, hbroadcast (.ofDocuments [worker.toJson] 1) [(1, 0)] _ 0 _ _ ?_ ?_⟩
  · intro text htext
    obtain rfl := Option.some.inj ((dump_document utf8_worker).symm.trans htext)
    exact parse_document utf8_worker
  · have hdump : (Server.ServerConfig.ofDocuments [worker.toJson] 1).registry.json.dump worker.toJson =
        some worker.toJson.render := dump_document utf8_worker
    rw [Server.World.nodeMessages, hdump]
    exact List.mem_singleton.mpr rfl

end LightApr.Sdk.NodeReading
