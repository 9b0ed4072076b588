import LightApr.Core.RegistryIds
import LightApr.Http.Session
import LightApr.Sdk.CSharp

/-! The snapshot a client library loads when it starts: one request for `/registry`, the
answer of the server, and the loop that stores its nodes. -/
namespace LightApr.Sdk.Bootstrap
open LightApr.Core LightApr.Http LightApr.Sdk.Replica Lib Rounding

/-- Every library asks for one page of 1000 nodes. -/
def requestLine : Bytes := ascii "GET /registry?count=1000 HTTP/1.1\r\n"

/-- The answer to the request line with the header lines of the library behind it; none: an
exception leaves the router, and there is no answer. -/
def answer (cfg : HttpConfig) (env : Readings) (headers : Bytes) (r : Registry) : Option HttpResponse :=
  (routeRequest cfg env (parseRawHttp cfg.registry.order (requestLine ++ headers)) r).1

/-- `j.nodes`, when it is an array. -/
def nodesOf? (j : Json) : Option (List Json) :=
  match j.field? (ascii "nodes") with
  | some (.arr nodes) => some nodes
  | _ => none

/-- The C++ library looks for the body in the bytes that it has read. -/
def Cpp.fetchSnapshot (parse : Bytes → Option Json) (resp : Bytes) (localNodes : Table NodeInfo) :
    Table NodeInfo :=
  match find crlfcrlf resp with
  | none => localNodes
  | some bodyPos =>
    match (parse (resp.drop (bodyPos + 4))).bind nodesOf? with
    | none => localNodes
    | some nodes => Replica.Cpp.loadSnapshot localNodes nodes

/-- The other libraries are given the response, or an exception, by their HTTP client. -/
def fetchSnapshot {ν : Type} (parse : Bytes → Option Json) (load : Table ν → List Json → Table ν)
    (res : Option HttpResponse) (localNodes : Table ν) : Table ν :=
  match res with
  | none => localNodes
  | some res =>
    if 200 ≤ res.statusCode ∧ res.statusCode < 300 then
      match (parse res.body).bind nodesOf? with
      | none => localNodes
      | some nodes => load localNodes nodes
    else localNodes

def Js.fetchSnapshot (parse : Bytes → Option Json) : Option HttpResponse → Table Json → Table Json :=
  Bootstrap.fetchSnapshot parse Replica.Js.loadSnapshot

def CSharp.fetchSnapshot (parse : Bytes → Option Json) (ser : CSharp.Serializer) :
    Option HttpResponse → Table CSharp.Node → Table CSharp.Node :=
  Bootstrap.fetchSnapshot parse (CSharp.loadSnapshot ser)

/-! The request. -/

section
variable {cfg : HttpConfig} {env : Readings} {r : Registry}

/-- What the request line says, whatever the header lines. -/
private theorem requestLine_parsed :
    let req := parseRequestLine (stripCr (ascii "GET /registry?count=1000 HTTP/1.1\r")) defaultRequest
    req.path = ascii "/registry" ∧ numberParam req.queryParams (ascii "page") 1 = some 1 ∧
      numberParam req.queryParams (ascii "count") 50 = some 1000 ∧
      textParam req.queryParams (ascii "role") = [] ∧ textParam req.queryParams (ascii "worker") = [] := by
  decide +kernel

/-- The first page of 1000 is as much of the list. -/
theorem queryRegistry_first (order : MapOrder) (now : Int) (r : Registry) :
    r.queryRegistry order now 1 1000 [] [] =
      some ((r.matched order now [] []).length, (r.matched order now [] []).take 1000) := by
  unfold Registry.queryRegistry Registry.pageRange
  dsimp only
  rw [if_neg (Nat.lt_irrefl 1), Nat.sub_self, Nat.zero_mul, Nat.zero_mod, Nat.zero_add]
  by_cases h0 : (r.matched order now [] []).length ≤ 0
  · rw [if_pos h0, List.eq_nil_of_length_eq_zero (Nat.le_zero.mp h0)]
    rfl
  · have hmod : 1000 % sizeMax = 1000 := by decide
    rw [if_neg h0, hmod]
    dsimp only
    rw [if_neg (Nat.not_lt_zero _), List.drop_zero, ← List.take_eq_take_min]

/-- The nodes of the answer. -/
def page (cfg : HttpConfig) (env : Readings) (r : Registry) : List NodeInfo :=
  (r.matched cfg.registry.order env.now [] []).take 1000

def answerJson (cfg : HttpConfig) (env : Readings) (r : Registry) : Json :=
  registryJson (r.matched cfg.registry.order env.now [] []).length (page cfg env r)

private theorem answerKeys_nodup : [ascii "total", ascii "nodes"].Nodup := by decide

theorem answer_eq (headers : Bytes) :
    answer cfg env headers r = respond cfg.registry.json 200 (ascii "OK") (answerJson cfg env r) := by
  obtain ⟨hpath, hpage, hcount, hrole, hworker⟩ := requestLine_parsed
  have hone : lf ∉ ascii "GET /registry?count=1000 HTTP/1.1\r" := by decide
  obtain ⟨hp, hq⟩ := parseRawHttp_line cfg.registry.order _ headers hone
  have hline : requestLine ++ headers = ascii "GET /registry?count=1000 HTTP/1.1\r" ++ lf :: headers := by
    have hsplit : requestLine = ascii "GET /registry?count=1000 HTTP/1.1\r" ++ [lf] := by decide
    rw [hsplit, List.append_assoc, List.singleton_append]
  have hroute : (routeRequest cfg env (parseRawHttp cfg.registry.order (requestLine ++ headers)) r).1 =
      registryRoute cfg env (parseRawHttp cfg.registry.order (requestLine ++ headers)).queryParams r := by
    unfold routeRequest
    rw [hline, hp, hpath, if_neg fun h => h.2.elim (by decide) (by decide), if_neg fun h => absurd h.2 (by decide),
      if_neg (by decide), if_neg (by decide), if_pos rfl]
  rw [answer, hroute, hline, hq, registryRoute, hpage, hcount, hrole, hworker]
  simp only [Option.bind_eq_bind, Option.bind_some, queryRegistry_first]
  rfl

end

/-! The response. -/

theorem find_skip {a : Bytes} (h : cr ∉ a) (s : Bytes) :
    find crlfcrlf (a ++ s) = (find crlfcrlf s).map (· + a.length) := by
  induction a with
  | nil => simp
  | cons b a ih =>
    have hb : cr ≠ b := fun he => h (he ▸ List.mem_cons_self)
    have ha : cr ∉ a := fun hm => h (List.mem_cons_of_mem _ hm)
    have hno : ¬ crlfcrlf.isPrefixOf (b :: (a ++ s)) = true := by
      rw [List.isPrefixOf_iff_prefix, crlfcrlf, List.cons_prefix_cons]
      exact fun hp => hb hp.1
    rw [List.cons_append, find, if_neg hno, ih ha, Option.map_map]
    rfl

/-- A line break with something behind it does not end the header. -/
theorem find_line {b : UInt8} (hb : b ≠ cr) (s : Bytes) :
    find crlfcrlf (cr :: lf :: b :: s) = (find crlfcrlf (b :: s)).map (· + 2) := by
  have h1 : ¬ crlfcrlf.isPrefixOf (cr :: lf :: b :: s) = true := by
    rw [List.isPrefixOf_iff_prefix, crlfcrlf, List.cons_prefix_cons, List.cons_prefix_cons, List.cons_prefix_cons]
    exact fun hp => hb hp.2.2.1.symm
  have h2 : ¬ crlfcrlf.isPrefixOf (lf :: b :: s) = true := by
    rw [List.isPrefixOf_iff_prefix, crlfcrlf, List.cons_prefix_cons]
    exact fun hp => absurd hp.1 (by decide)
  rw [find, if_neg h1, find, if_neg h2, Option.map_map]
  rfl

/-- The lines of a header behind its first one. -/
def headerLines (lines : List Bytes) : Bytes := lines.flatMap fun line => cr :: lf :: line

/-- A header ends behind the last of its lines, none of which is empty or broken. -/
theorem find_headerEnd {first : Bytes} {lines : List Bytes} (hfirst : cr ∉ first)
    (h : ∀ line ∈ lines, line ≠ [] ∧ cr ∉ line) (body : Bytes) :
    find crlfcrlf (first ++ (headerLines lines ++ (crlfcrlf ++ body))) =
      some (first.length + (headerLines lines).length) := by
  induction lines generalizing first with
  | nil =>
    have hend : find crlfcrlf (crlfcrlf ++ body) = some 0 := find_zero_iff.mpr (List.prefix_append _ _)
    rw [find_skip hfirst, headerLines, List.flatMap_nil, List.nil_append, hend, Option.map_some, Nat.zero_add]
    rfl
  | cons line lines ih =>
    obtain ⟨⟨hne, hcr⟩, hlines⟩ := List.forall_mem_cons.mp h
    have hrest := ih hcr hlines
    obtain ⟨b, line', rfl⟩ := List.exists_cons_of_ne_nil hne
    have hb : b ≠ cr := fun he => hcr (he ▸ List.mem_cons_self)
    have hblock : headerLines ((b :: line') :: lines) = cr :: lf :: b :: (line' ++ headerLines lines) := rfl
    rw [find_skip hfirst, hblock]
    simp only [List.cons_append, List.append_assoc] at hrest ⊢
    rw [find_line hb, hrest, Option.map_some, Option.map_some]
    simp only [List.length_cons, List.length_append]
    congr 1
    omega

/-- The body of a response to the request begins behind the end of its header. -/
theorem find_renderResponse (keepAlive : Bool) (body : Bytes) :
    let bytes := HttpSession.renderResponse ⟨200, ascii "OK", ascii "application/json", body⟩ keepAlive
    ∃ n, find crlfcrlf bytes = some n ∧ bytes.drop (n + 4) = body := by
  intro bytes
  let connection := ascii (if keepAlive then "Connection: keep-alive" else "Connection: close")
  let lines := [ascii "Content-Type: application/json", ascii "Content-Length: " ++ decimal body.length, connection]
  have hsplit : bytes = ascii "HTTP/1.1 200 OK" ++ (headerLines lines ++ (crlfcrlf ++ body)) := by
    have h1 : ascii "HTTP/1.1 " ++ decimal 200 ++ ascii " " ++ ascii "OK" = ascii "HTTP/1.1 200 OK" := by decide
    have h2 : ascii "\r\nContent-Type: " ++ ascii "application/json" =
        cr :: lf :: ascii "Content-Type: application/json" := by decide
    have h3 : ascii "\r\nContent-Length: " = cr :: lf :: ascii "Content-Length: " := by decide
    have h4 : (if keepAlive then ascii "\r\nConnection: keep-alive\r\n\r\n"
        else ascii "\r\nConnection: close\r\n\r\n") = cr :: lf :: (connection ++ crlfcrlf) := by
      cases keepAlive <;> decide
    dsimp only [bytes, HttpSession.renderResponse]
    rw [h1, h3, h4, List.append_assoc (ascii "HTTP/1.1 200 OK"), h2]
    simp [headerLines, lines]
  have hlines : ∀ line ∈ lines, line ≠ [] ∧ cr ∉ line := by
    have hdigits : cr ∉ decimal body.length := not_mem_decimal (by decide) _
    have hfront : cr ∉ ascii "Content-Length: " := by decide
    have htype : ascii "Content-Type: application/json" ≠ [] ∧ cr ∉ ascii "Content-Type: application/json" := by
      decide
    rw [List.forall_mem_cons, List.forall_mem_cons, List.forall_mem_singleton]
    refine ⟨htype, ⟨?_, ?_⟩, ?_⟩
    · exact List.append_ne_nil_of_left_ne_nil (by decide) _
    · rw [List.mem_append, not_or]
      exact ⟨hfront, hdigits⟩
    · cases keepAlive <;> decide
  refine ⟨_, hsplit ▸ find_headerEnd (by decide) hlines body, ?_⟩
  rw [hsplit]
  simp only [← List.append_assoc]
  apply List.drop_left'
  simp [crlfcrlf, Nat.add_assoc]

/-! What the libraries read from the body. -/

/-- What the libraries rely on of their JSON parsers: the text of the answer is read back,
by `JSON.parse` up to rounding. -/
structure Readers (lib : JsonLib) (j : Json) where
  cpp : Bytes → Option Json
  js : Bytes → Option Json
  csharp : Bytes → Option Json
  round : Json → Json
  cpp_dump : ∀ {text}, lib.dump j = some text → cpp text = some j
  js_dump : ∀ {text}, lib.dump j = some text → js text = some (rounded round j)
  csharp_dump : ∀ {text}, lib.dump j = some text → csharp text = some j

/-- They read nothing else, and round nothing. -/
def Readers.exact (lib : JsonLib) (j : Json) : Readers lib j where
  cpp text := if lib.dump j = some text then some j else none
  js text := if lib.dump j = some text then some (rounded (fun n => n) j) else none
  csharp text := if lib.dump j = some text then some j else none
  round n := n
  cpp_dump h := if_pos h
  js_dump h := if_pos h
  csharp_dump h := if_pos h

/-- The bytes on the connection until the server closes it. -/
def received (res : Option HttpResponse) (keepAlive : Bool) : Bytes :=
  match res with
  | none => []
  | some res => HttpSession.renderResponse res keepAlive

/-! What is loaded. -/

/-- Every node of the registry is in the local map, with the data of its record. -/
def Contains {ν β : Type} (shown : ν → β) (record : NodeInfo → β) (localNodes : Table ν) (r : Registry) : Prop :=
  ∀ id node, r.nodes.lookup id = some node → (localNodes.lookup id).map shown = some (record node)

section
variable {cfg : HttpConfig} {env : Readings} {r : Registry} {ν β : Type} {shown : ν → β} {record : NodeInfo → β}

theorem contains_empty_iff : Contains shown record ∅ r ↔ ∀ id, r.nodes.lookup id = none := by
  constructor
  · intro h id
    cases hl : r.nodes.lookup id with
    | none => rfl
    | some node => cases h id node hl
  · intro h id node hl
    cases (h id).symm.trans hl

theorem keys_page (hr : r.Sound cfg.registry) :
    (page cfg env r).map NodeInfo.id = ((r.nodes.iterate cfg.registry.order).map Prod.fst).take 1000 := by
  rw [page, matched_all cfg.registry.order env.now hr, List.map_take, List.map_map, List.map_map]
  refine congrArg (List.take 1000) (List.map_congr_left fun e he => ?_)
  exact (counted_same env.now e.2).1.trans (hr _ _ (Table.mem_iterate.mp he)).id

theorem mem_page (hr : r.Sound cfg.registry) {n : NodeInfo} (h : n ∈ page cfg env r) :
    ∃ id node, r.nodes.lookup id = some node ∧ n = counted env.now node := by
  rw [page, matched_all cfg.registry.order env.now hr] at h
  obtain ⟨node, hnode, rfl⟩ := List.mem_map.mp (List.mem_of_mem_take h)
  obtain ⟨e, he, rfl⟩ := List.mem_map.mp hnode
  exact ⟨e.1, e.2, Table.mem_iterate.mp he, rfl⟩

/-- With at most 1000 nodes the page holds them all. -/
theorem page_eq_matched (hr : r.Sound cfg.registry) (hlen : r.nodes.entries.length ≤ 1000) :
    page cfg env r = r.matched cfg.registry.order env.now [] [] := by
  apply List.take_of_length_le
  rwa [matched_all cfg.registry.order env.now hr, List.length_map, List.length_map, Table.length_iterate]

theorem counted_mem_page (hr : r.Sound cfg.registry) (hlen : r.nodes.entries.length ≤ 1000) {id : Bytes}
    {node : NodeInfo}
    (h : r.nodes.lookup id = some node) : counted env.now node ∈ page cfg env r := by
  rw [page_eq_matched hr hlen, matched_all cfg.registry.order env.now hr]
  apply List.mem_map_of_mem
  exact List.mem_map.mpr ⟨(id, node), Table.mem_iterate.mpr h, rfl⟩

/-- A loop over the page stores all nodes if and only if the page holds them all. -/
theorem contains_page_iff (hr : r.Sound cfg.registry) {f : NodeInfo → ν}
    (hf : ∀ node, shown (f (counted env.now node)) = record node) :
    Contains shown record ((page cfg env r).foldl (fun t n => t.insert n.id (f n)) ∅) r ↔
      r.nodes.entries.length ≤ 1000 := by
  let items := (page cfg env r).map fun n => (n.id, f n)
  have hpage : (page cfg env r).map NodeInfo.id = ((r.nodes.iterate cfg.registry.order).map Prod.fst).take 1000 :=
    keys_page hr
  have hkeys : items.map Prod.fst = ((r.nodes.iterate cfg.registry.order).map Prod.fst).take 1000 := by
    rw [← hpage, List.map_map]
    rfl
  have hfold : (page cfg env r).foldl (fun t n => t.insert n.id (f n)) ∅ =
      items.foldl (fun t x => t.insert x.1 x.2) (∅ : Table ν) := by
    rw [List.foldl_map]
  have hnodup := Table.iterate_keys_nodup cfg.registry.order r.nodes
  have hitems : (items.map Prod.fst).Nodup := hkeys ▸ hnodup.sublist (List.take_sublist _ _)
  rw [hfold]
  constructor
  · intro h
    have hsub : (r.nodes.iterate cfg.registry.order).map Prod.fst ⊆ items.map Prod.fst := by
      intro id hid
      obtain ⟨e, he, rfl⟩ := List.mem_map.mp hid
      by_contra hno
      have hload := h e.1 e.2 (Table.mem_iterate.mp he)
      rw [(Table.lookup_foldl_insert hitems ∅ e.1).1 hno, AList.lookup_empty] at hload
      cases hload
    have hle := List.Nodup.length_le_of_subset hnodup hsub
    rw [hkeys, List.length_take, List.length_map, Table.length_iterate] at hle
    omega
  · intro hlen id node hnode
    have hmem : (id, f (counted env.now node)) ∈ items := by
      have hid : (counted env.now node).id = id := (counted_same env.now node).1.trans (hr _ _ hnode).id
      exact List.mem_map.mpr ⟨_, counted_mem_page hr hlen hnode, by rw [hid]⟩
    rw [(Table.lookup_foldl_insert hitems ∅ id).2 _ hmem, Option.map_some, hf]

/-- The answer is there unless a node of the page cannot be printed. -/
theorem utf8_answerJson : (answerJson cfg env r).utf8 = true ↔ ∀ n ∈ page cfg env r, n.toJson.utf8 = true := by
  have htotal : Utf8.Valid (ascii "total") := by decide
  have hnodes : Utf8.Valid (ascii "nodes") := by decide
  rw [answerJson, registryJson, Json.utf8_mkObj (by exact answerKeys_nodup)]
  simp [htotal, hnodes]

theorem utf8_counted (now : Int) (node : NodeInfo) :
    (counted now node).toJson.utf8 = true ↔ node.toJson.utf8 = true := by
  unfold counted
  split
  · exact NodeInfo.utf8_toJson_expiresIn node _
  · rfl

/-- Every stored record can be printed. -/
def Printed (r : Registry) : Prop := ∀ id node, r.nodes.lookup id = some node → node.toJson.utf8 = true

/-- A loader that stores the page when there is an answer. -/
theorem contains_loaded_iff (cfg : HttpConfig) (env : Readings) (hr : r.Sound cfg.registry) {t : Table ν}
    (hnone : cfg.registry.json.dump (answerJson cfg env r) = none → t = ∅)
    (hsome : ∀ text, cfg.registry.json.dump (answerJson cfg env r) = some text →
      (Contains shown record t r ↔ r.nodes.entries.length ≤ 1000)) :
    Contains shown record t r ↔ r.nodes.entries.length ≤ 1000 ∧ Printed r := by
  cases hd : cfg.registry.json.dump (answerJson cfg env r) with
  | some text =>
    rw [hsome text hd]
    refine ⟨fun hlen => ⟨hlen, fun id node hnode => ?_⟩, fun h => h.1⟩
    have hall := utf8_answerJson.mp (cfg.registry.json.utf8_of_dump hd)
    exact (utf8_counted env.now node).mp (hall _ (counted_mem_page hr hlen hnode))
  | none =>
    obtain ⟨n, hn, hu⟩ : ∃ n ∈ page cfg env r, ¬ n.toJson.utf8 = true := by
      by_contra hall
      have hu : (answerJson cfg env r).utf8 = true :=
        utf8_answerJson.mpr fun n hn => not_not.mp fun hno => hall ⟨n, hn, hno⟩
      rw [← cfg.registry.json.dump_isSome, hd] at hu
      cases hu
    obtain ⟨id, node, hnode, rfl⟩ := mem_page hr hn
    rw [hnone hd, contains_empty_iff]
    constructor
    · intro h
      cases (h id).symm.trans hnode
    · intro h
      exact absurd ((utf8_counted env.now node).mpr (h.2 id node hnode)) hu

end

/-! The libraries. -/

section
variable {cfg : HttpConfig} {env : Readings} {r : Registry}
  (readers : Readers cfg.registry.json (answerJson cfg env r)) (headers : Bytes)

theorem answer_none (hd : cfg.registry.json.dump (answerJson cfg env r) = none) :
    answer cfg env headers r = none := by
  rw [answer_eq, respond, hd, Option.map_none]

theorem answer_some {body : Bytes} (hd : cfg.registry.json.dump (answerJson cfg env r) = some body) :
    answer cfg env headers r = some ⟨200, ascii "OK", ascii "application/json", body⟩ := by
  rw [answer_eq, respond, hd, Option.map_some]

theorem field_answerJson :
    (answerJson cfg env r).field? (ascii "nodes") = some (.arr ((page cfg env r).map NodeInfo.toJson)) := by
  exact Json.field_mkObj (by exact answerKeys_nodup) (List.mem_cons_of_mem _ (List.mem_singleton.mpr rfl))

theorem nodesOf_answerJson : nodesOf? (answerJson cfg env r) = some ((page cfg env r).map NodeInfo.toJson) := by
  rw [nodesOf?, field_answerJson]

theorem nodesOf_rounded (round : Json → Json) :
    nodesOf? (rounded round (answerJson cfg env r)) =
      some ((page cfg env r).map fun n => rounded round n.toJson) := by
  rw [nodesOf?, field_rounded round field_answerJson, rounded, roundedItems_eq_map, List.map_map]
  rfl

theorem Cpp.loadSnapshot_toJson (nodes : List NodeInfo) (t : Table NodeInfo) :
    Replica.Cpp.loadSnapshot t (nodes.map NodeInfo.toJson) =
      nodes.foldl (fun t n => t.insert n.id { n with extra := NodeInfo.asObject n.extra }) t := by
  induction nodes generalizing t with
  | nil => rfl
  | cons n nodes ih =>
    rw [List.map_cons, Replica.Cpp.loadSnapshot, NodeInfo.fromJson_toJson_asObject, List.foldl_cons]
    exact ih _

theorem Js.loadSnapshot_rounded (round : Json → Json) (nodes : List NodeInfo) (t : Table Json) :
    Replica.Js.loadSnapshot t (nodes.map fun n => rounded round n.toJson) =
      nodes.foldl (fun t n => t.insert n.id (rounded round n.toJson)) t := by
  rw [Replica.Js.loadSnapshot, List.foldl_map]
  simp only [idOf_rounded]

theorem Cpp.contains_iff (hr : r.Sound cfg.registry) (keepAlive : Bool) :
    Contains view (fun node => asRead (view node))
        (Cpp.fetchSnapshot readers.cpp (received (answer cfg env headers r) keepAlive) ∅) r ↔
      r.nodes.entries.length ≤ 1000 ∧ Printed r := by
  refine contains_loaded_iff cfg env hr (fun hd => ?_) fun text hd => ?_
  · rw [answer_none headers hd]
    rfl
  · obtain ⟨n, hfind, hbody⟩ := find_renderResponse keepAlive text
    rw [answer_some headers hd, received, Cpp.fetchSnapshot, hfind]
    dsimp only
    rw [hbody, readers.cpp_dump hd, Option.bind_some, nodesOf_answerJson]
    dsimp only
    rw [Cpp.loadSnapshot_toJson]
    refine contains_page_iff hr fun node => ?_
    exact congrArg asRead (counted_same env.now node).2.2

theorem Js.contains_iff (hr : r.Sound cfg.registry) :
    Contains jsonView (fun node => jsonView (rounded readers.round node.toJson))
        (Js.fetchSnapshot readers.js (answer cfg env headers r) ∅) r ↔
      r.nodes.entries.length ≤ 1000 ∧ Printed r := by
  refine contains_loaded_iff cfg env hr (fun hd => ?_) fun text hd => ?_
  · rw [answer_none headers hd]
    rfl
  · rw [answer_some headers hd, Js.fetchSnapshot, Bootstrap.fetchSnapshot]
    dsimp only
    rw [if_pos (by decide), readers.js_dump hd, Option.bind_some, nodesOf_rounded]
    dsimp only
    rw [Js.loadSnapshot_rounded]
    refine contains_page_iff hr fun node => ?_
    rw [jsonView_rounded, jsonView_rounded, (counted_same env.now node).2.2]

theorem CSharp.view_counted (now : Int) (node : NodeInfo) :
    CSharp.view (.ofRecord (counted now node)) = CSharp.view (.ofRecord node) := by
  unfold counted
  split <;> rfl

/-- Nothing is loaded when the serializer refuses the nodes. -/
theorem CSharp.contains_iff (hr : r.Sound cfg.registry) (ser : CSharp.Serializer) :
    Contains CSharp.view (fun node => CSharp.view (.ofRecord node))
        (CSharp.fetchSnapshot readers.csharp ser (answer cfg env headers r) ∅) r ↔
      (r.nodes.entries.length ≤ 1000 ∧ Printed r) ∧
        (r.nodes.entries ≠ [] → (ser.deserializeSnapshot (snapshot cfg.registry.order env.now r)).isSome = true) := by
  have hpage (hlen : r.nodes.entries.length ≤ 1000) :
      snapshot cfg.registry.order env.now r = (page cfg env r).map NodeInfo.toJson := by
    rw [page_eq_matched hr hlen, snapshot]
  have hloaded : CSharp.fetchSnapshot readers.csharp ser (answer cfg env headers r) ∅ =
      if (cfg.registry.json.dump (answerJson cfg env r)).isSome then
        CSharp.loadSnapshot ser ∅ ((page cfg env r).map NodeInfo.toJson)
      else ∅ := by
    cases hd : cfg.registry.json.dump (answerJson cfg env r) with
    | none =>
      rw [answer_none headers hd]
      rfl
    | some text =>
      rw [answer_some headers hd, CSharp.fetchSnapshot, Bootstrap.fetchSnapshot]
      dsimp only
      rw [if_pos (by decide), readers.csharp_dump hd, Option.bind_some, nodesOf_answerJson]
      rfl
  rw [hloaded]
  cases hs : ser.deserializeSnapshot ((page cfg env r).map NodeInfo.toJson) with
  | some ns =>
    obtain ⟨-, rfl⟩ := ser.snapshot_toJson hs
    have hstored : CSharp.loadSnapshot ser ∅ ((page cfg env r).map NodeInfo.toJson) =
        (page cfg env r).foldl (fun t n => t.insert n.id (CSharp.Node.ofRecord n)) ∅ := by
      rw [CSharp.loadSnapshot, hs]
      dsimp only
      rw [List.foldl_map]
      rfl
    rw [hstored]
    refine (contains_loaded_iff cfg env hr (fun hd => ?_) fun text hd => ?_).trans ?_
    · rw [hd]
      rfl
    · rw [hd, if_pos (by rfl)]
      exact contains_page_iff hr (CSharp.view_counted env.now)
    · refine iff_self_and.mpr fun h _ => ?_
      rw [hpage h.1, hs]
      rfl
  | none =>
    have hstored : CSharp.loadSnapshot ser ∅ ((page cfg env r).map NodeInfo.toJson) = ∅ := by
      rw [CSharp.loadSnapshot, hs]
    rw [hstored, ite_self, contains_empty_iff]
    constructor
    · intro h
      have hnil : r.nodes.entries = [] := by
        apply List.eq_nil_iff_forall_not_mem.mpr
        rintro ⟨id, node⟩ hm
        cases (h id).symm.trans (AList.mem_lookup_iff.mpr hm)
      refine ⟨⟨?_, fun id node hnode => ?_⟩, fun hne => absurd hnil hne⟩
      · rw [hnil]
        exact Nat.zero_le _
      · cases (h id).symm.trans hnode
    · rintro ⟨⟨hlen, -⟩, haccepted⟩ id
      by_cases hnil : r.nodes.entries = []
      · rw [AList.lookup, hnil, List.dlookup_nil]
      · have hsome := haccepted hnil
        rw [hpage hlen, hs] at hsome
        cases hsome

end

/-- **Every library holds all nodes of the registry after its bootstrap if and only if the
registry has at most 1000 nodes whose records can be printed; the C# library also needs its
serializer to accept them.** -/
theorem snapshot_complete_iff (cfg : HttpConfig) (ops : List Op) (env : Readings) (headers : Bytes) (keepAlive : Bool)
    (ser : CSharp.Serializer) :
    let r := (history cfg.registry .empty ops).1
    let complete := r.nodes.entries.length ≤ 1000 ∧ Printed r
    let answered := answer cfg env headers r
    ∀ readers : Readers cfg.registry.json (answerJson cfg env r),
      (Contains view (fun node => asRead (view node))
          (Cpp.fetchSnapshot readers.cpp (received answered keepAlive) ∅) r ↔ complete) ∧
        (Contains jsonView (fun node => jsonView (rounded readers.round node.toJson))
          (Js.fetchSnapshot readers.js answered ∅) r ↔ complete) ∧
        (Contains CSharp.view (fun node => CSharp.view (.ofRecord node))
            (CSharp.fetchSnapshot readers.csharp ser answered ∅) r ↔
          complete ∧ (r.nodes.entries ≠ [] →
            (ser.deserializeSnapshot (snapshot cfg.registry.order env.now r)).isSome = true)) := by
  intro r complete answered readers
  have hr : r.Sound cfg.registry := sound_history (Registry.sound_empty cfg.registry) ops
  exact ⟨Cpp.contains_iff readers headers hr keepAlive, Js.contains_iff readers headers hr,
    CSharp.contains_iff readers headers hr ser⟩

/-- A worker registers. -/
def registration : Op := .registerOrUpdateNode 100 (ascii "job") [] none (ascii "10.0.0.7") [] (.obj [])

/-- Every registration without an id adds a node. -/
theorem replicate_registration (cfg : RegistryConfig) {n : Nat} (hn : n + 1 < sizeMax) :
    let r := (history cfg .empty (List.replicate n registration)).1
    r.nodes.entries.length = n ∧ r.idCounter = n + 1 ∧
      ∀ id ∈ r.nodes, ∃ c ≤ n, id = Registry.generateNodeId 100 c := by
  induction n with
  | zero => exact ⟨rfl, rfl, nofun⟩
  | succ n ih =>
    obtain ⟨hlen, hcounter, hids⟩ := ih (Nat.lt_of_succ_lt hn)
    rw [List.replicate_succ', history_append]
    generalize (history cfg .empty (List.replicate n registration)).1 = r at hlen hcounter hids ⊢
    obtain ⟨⟨r', out⟩, hrun⟩ : ∃ x, r.registerOrUpdateNode cfg 100 (ascii "job") [] none (ascii "10.0.0.7") []
      (.obj []) = x := ⟨_, rfl⟩
    have hlast : (history cfg r [registration]).1 = r' := congrArg Prod.fst hrun
    obtain ⟨node, hnodes, -⟩ := Registry.registerOrUpdateNode_effect hrun
    have hnext := Registry.idCounter_registerOrUpdateNode hrun
    have htarget : Registry.targetId 100 [] r = Registry.generateNodeId 100 (n + 1) := by
      rw [Registry.targetId, if_pos rfl, hcounter]
    have hfresh : Registry.generateNodeId 100 (n + 1) ∉ r.nodes := by
      intro hm
      obtain ⟨c, hc, he⟩ := hids _ hm
      exact absurd (Registry.generateNodeId_inj he) (by omega)
    rw [htarget] at hnodes
    rw [hlast]
    dsimp only
    rw [hnodes]
    refine ⟨?_, ?_, fun id hid => ?_⟩
    · rw [AList.entries_insert_of_notMem hfresh, List.length_cons, hlen]
    · rw [hnext, if_pos rfl, hcounter, Nat.mod_eq_of_lt hn]
    · rcases AList.mem_insert r.nodes |>.mp hid with rfl | hid
      · exact ⟨n + 1, Nat.le_refl _, rfl⟩
      · obtain ⟨c, hc, he⟩ := hids id hid
        exact ⟨c, Nat.le_succ_of_le hc, he⟩

private theorem too_many :
    ¬ (history (RegistryConfig.ofDocuments []) .empty
      (List.replicate 1001 registration)).1.nodes.entries.length ≤ 1000 := by
  have hfits : 1001 + 1 < sizeMax := by decide
  obtain ⟨hlen, -⟩ := replicate_registration (RegistryConfig.ofDocuments []) hfits
  rw [hlen]
  decide

/-- After the bootstrap every library misses a node of the registry. -/
def Missed (ops : List Op) : Prop :=
  let r := (history (RegistryConfig.ofDocuments []) .empty ops).1
  let readers := Readers.exact (RegistryConfig.ofDocuments []).json (answerJson (.ofDocuments []) .zero r)
  let answered := answer (.ofDocuments []) .zero [] r
  ¬ Contains view (fun node => asRead (view node)) (Cpp.fetchSnapshot readers.cpp (received answered false) ∅) r ∧
    ¬ Contains jsonView (fun node => jsonView (rounded readers.round node.toJson))
        (Js.fetchSnapshot readers.js answered ∅) r ∧
    ¬ Contains CSharp.view (fun node => CSharp.view (.ofRecord node))
        (CSharp.fetchSnapshot readers.csharp .ofRecords answered ∅) r

private theorem missed_of_many {ops : List Op}
    (h : ¬ (history (RegistryConfig.ofDocuments []) .empty ops).1.nodes.entries.length ≤ 1000) : Missed ops := by
  have hr : (history (RegistryConfig.ofDocuments []) .empty ops).1.Sound (RegistryConfig.ofDocuments []) :=
    sound_history (Registry.sound_empty (RegistryConfig.ofDocuments [])) ops
  refine ⟨fun hc => h ?_, fun hc => h ?_, fun hc => h ?_⟩
  · exact ((Cpp.contains_iff _ [] hr false).mp hc).1
  · exact ((Js.contains_iff _ [] hr).mp hc).1
  · exact ((CSharp.contains_iff _ [] hr .ofRecords).mp hc).1.1

/-- With 1001 nodes every library misses one. -/
theorem last_node_missed : Missed (List.replicate 1001 registration) := missed_of_many too_many

end LightApr.Sdk.Bootstrap
