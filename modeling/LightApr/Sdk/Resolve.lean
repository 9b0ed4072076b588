import LightApr.Core.RoundRobin
import LightApr.Http.Route

/-! `resolveNodeRemote`: a request for `/resolve` whose parameters are percent-encoded, by the encoder and where the
URL is parsed, and the server's router, which takes them as they stand. -/
namespace LightApr.Sdk.Resolve
open LightApr.Core LightApr.Http

/-- The unreserved characters of RFC 3986. -/
def isUnreserved (b : UInt8) : Bool :=
  isDigit b || (65 ≤ b && b ≤ 90) || (97 ≤ b && b ≤ 122) || b = 45 || b = 46 || b = 95 || b = 126

/-- The characters ! * ' ( ) are the only others that an encoder may leave. -/
def isMark (b : UInt8) : Bool := b = 33 || b = 42 || b = 39 || b = 40 || b = 41

/-- A percent-encoder, by the bytes that it leaves. -/
structure Encoder where
  keeps : UInt8 → Bool
  unreserved : ∀ b, isUnreserved b = true → keeps b = true
  only : ∀ b, keeps b = true → isUnreserved b = true ∨ isMark b = true

def encodeURIComponent : Encoder :=
  ⟨fun b => isUnreserved b || isMark b, fun b h => by rw [h, Bool.true_or], fun b h => by rwa [Bool.or_eq_true] at h⟩

/-- `Uri.EscapeDataString` -/
def escapeDataString : Encoder := ⟨isUnreserved, fun _ h => h, fun _ h => .inl h⟩

def hexDigit (n : UInt8) : UInt8 := if n < 10 then 48 + n else 55 + n

/-- '%' and two digits. -/
def percentEncoded (b : UInt8) : Bytes := [37, hexDigit (b / 16), hexDigit (b % 16)]

/-- A byte of the encoded text. -/
def Encoder.encodeByte (enc : Encoder) (b : UInt8) : Bytes := if enc.keeps b then [b] else percentEncoded b

def Encoder.encode (enc : Encoder) (s : Bytes) : Bytes := s.flatMap enc.encodeByte

/-- The query string; a worker that is not given is empty here, and left out. -/
def query (enc : Encoder) (role worker : Bytes) : Bytes :=
  ascii "role=" ++ enc.encode role ++
    if worker = [] then [] else ascii "&worker=" ++ enc.encode worker

/-- What an HTTP library percent-encodes when it parses the query of a URL. -/
structure UrlParser where
  encodes : UInt8 → Bool
  unreserved : ∀ b, isUnreserved b = true → encodes b = false
  /-- the bytes % & = -/
  delimiters : encodes 37 = false ∧ encodes 38 = false ∧ encodes 61 = false

def UrlParser.parseByte (url : UrlParser) (b : UInt8) : Bytes := if url.encodes b then percentEncoded b else [b]

def UrlParser.parse (url : UrlParser) (s : Bytes) : Bytes := s.flatMap url.parseByte

/-- What the URL standard percent-encodes in the query of an http URL: the query set, and the apostrophe. -/
def isSpecialQuery (b : UInt8) : Bool := b < 33 || 126 < b || b = 34 || b = 35 || b = 39 || b = 60 || b = 62

def fetch : UrlParser where
  encodes := isSpecialQuery
  unreserved b h := by
    have hall : ∀ n : Fin 256, isUnreserved (.ofFin n) = true → isSpecialQuery (.ofFin n) = false := by
      decide +kernel
    exact hall b.toFin h
  delimiters := by decide

/-- `HttpClient`: `Uri` keeps the unreserved and the reserved characters and '%'. -/
def httpClient : UrlParser where
  encodes b := !(isUnreserved b || isMark b || (ascii "%:/?#[]@$&+,;=").contains b)
  unreserved b h := by rw [h, Bool.true_or, Bool.true_or, Bool.not_true]
  delimiters := by decide

/-- How a client library sends a query. -/
structure Library where
  encoder : Encoder
  url : UrlParser

/-- The libraries for TypeScript and Node. -/
def ts : Library := ⟨encodeURIComponent, fetch⟩

def csharp : Library := ⟨escapeDataString, httpClient⟩

/-- The byte comes through as it is. -/
def Library.leaves (lib : Library) (b : UInt8) : Bool := lib.encoder.keeps b && !lib.url.encodes b

/-- The request, with the header lines of the library behind its first line. -/
def request (lib : Library) (role worker headers : Bytes) : Bytes :=
  ascii "GET /resolve?" ++ lib.url.parse (query lib.encoder role worker) ++ ascii " HTTP/1.1\r\n" ++ headers

/-- What the router makes of `resolve_node(role, worker)`. -/
def resolveAnswer (cfg : HttpConfig) (role worker : Bytes) (r : Registry) : Option HttpResponse × Registry :=
  match r.resolveNode cfg.registry.order role worker with
  | (none, r) => (respondError cfg.registry.json 404 (ascii "Not Found") (ascii "No available node found"), r)
  | (some n, r) => (respond cfg.registry.json 200 (ascii "OK") (resolvedJson worker n), r)

/-- Whatever the registry, and whatever header lines are sent, the server calls `resolve_node` with this role
and this worker. -/
def Arrives (lib : Library) (role worker : Bytes) : Prop :=
  ∀ (cfg : HttpConfig) (env : Readings) (headers : Bytes) (r : Registry),
    routeRequest cfg env (parseRawHttp cfg.registry.order (request lib role worker headers)) r =
      resolveAnswer cfg role worker r

/-! The encoders. -/

section
variable {enc : Encoder}

/-- What separates the parts of a request line and of a query. -/
def Separates (b : UInt8) : Prop := b = space ∨ b = lf ∨ b = 38

theorem hexDigit_unreserved {n : UInt8} (h : n < 16) : isUnreserved (hexDigit n) = true := by
  have hall : ∀ n : Fin 256, (.ofFin n : UInt8) < 16 → isUnreserved (hexDigit (.ofFin n)) = true := by
    decide +kernel
  exact hall n.toFin h

/-- Of the three bytes only '%' is reserved. -/
theorem mem_percentEncoded {b e : UInt8} (h : e ∈ percentEncoded b) : e = 37 ∨ isUnreserved e = true := by
  have hb := b.toNat_lt
  simp only [percentEncoded, List.mem_cons, List.not_mem_nil, or_false] at h
  obtain rfl | rfl | rfl := h
  · exact .inl rfl
  · exact .inr (hexDigit_unreserved (by rw [UInt8.lt_iff_toNat_lt, UInt8.toNat_div]; show b.toNat / 16 < 16; omega))
  · exact .inr (hexDigit_unreserved
      (by rw [UInt8.lt_iff_toNat_lt, UInt8.toNat_mod]; exact Nat.mod_lt _ (by decide)))

theorem encodeByte_plain {b e : UInt8} (h : e ∈ enc.encodeByte b) : ¬ Separates e := by
  unfold Encoder.encodeByte at h
  split at h
  · rename_i hkeeps
    obtain rfl := List.mem_singleton.mp h
    rintro (rfl | rfl | rfl) <;> exact absurd (enc.only _ hkeeps) (by decide)
  · obtain rfl | hplain := mem_percentEncoded h
    · unfold Separates
      decide
    · rintro (rfl | rfl | rfl) <;> exact absurd hplain (by decide)

theorem encode_plain {s : Bytes} {e : UInt8} (h : e ∈ enc.encode s) : ¬ Separates e := by
  obtain ⟨b, -, he⟩ := List.mem_flatMap.mp h
  exact encodeByte_plain he

theorem encode_eq_nil {s : Bytes} : enc.encode s = [] ↔ s = [] := by
  constructor
  · intro h
    cases s with
    | nil => rfl
    | cons b s =>
      rw [Encoder.encode, List.flatMap_cons, List.append_eq_nil_iff, Encoder.encodeByte, percentEncoded] at h
      split at h
      · exact absurd h.1 (List.cons_ne_nil _ _)
      · exact absurd h.1 (List.cons_ne_nil _ _)
  · rintro rfl
    rfl

theorem length_le_encode (s : Bytes) : s.length ≤ (enc.encode s).length := by
  induction s with
  | nil => exact Nat.le_refl 0
  | cons b s ih =>
    rw [Encoder.encode, List.flatMap_cons, List.length_append, List.length_cons, Encoder.encodeByte, percentEncoded]
    change s.length ≤ (s.flatMap enc.encodeByte).length at ih
    split
    · rw [List.length_singleton]
      omega
    · rw [List.length_cons]
      omega

/-- The encoder leaves a text as it is exactly where it keeps every byte. -/
theorem encode_eq_self {s : Bytes} : enc.encode s = s ↔ ∀ b ∈ s, enc.keeps b = true := by
  induction s with
  | nil => simp [Encoder.encode]
  | cons b s ih =>
    rw [List.forall_mem_cons, ← ih, Encoder.encode, List.flatMap_cons, Encoder.encodeByte]
    by_cases h : enc.keeps b = true
    · rw [if_pos h, and_iff_right h, List.singleton_append, List.cons_inj_right]
      rfl
    · refine iff_of_false (fun heq => ?_) fun hall => h hall.1
      rw [if_neg h, percentEncoded] at heq
      have hlen := congrArg List.length heq
      have hle : s.length ≤ (enc.encode s).length := length_le_encode s
      rw [Encoder.encode] at hle
      rw [List.length_append, List.length_cons, List.length_cons, List.length_singleton, List.length_cons] at hlen
      omega

end

/-! The URL parser. -/

theorem parse_eq_self {url : UrlParser} {s : Bytes} (h : ∀ b ∈ s, url.encodes b = false) : url.parse s = s := by
  induction s with
  | nil => rfl
  | cons b s ih =>
    rw [List.forall_mem_cons] at h
    rw [UrlParser.parse, List.flatMap_cons, UrlParser.parseByte, h.1, ← UrlParser.parse, ih h.2]
    rfl

/-- What comes of both encodings. -/
def Library.encoded (lib : Library) : Encoder where
  keeps := lib.leaves
  unreserved b h := by rw [Library.leaves, lib.encoder.unreserved b h, lib.url.unreserved b h]; rfl
  only b h := lib.encoder.only b (Bool.and_eq_true_iff.mp h).1

/-- What the encoder has percent-encoded is not encoded again. -/
theorem parse_encodeByte (lib : Library) (b : UInt8) :
    lib.url.parse (lib.encoder.encodeByte b) = lib.encoded.encodeByte b := by
  rw [Encoder.encodeByte, Encoder.encodeByte, show lib.encoded.keeps b = lib.leaves b from rfl, Library.leaves]
  cases lib.encoder.keeps b with
  | true =>
    rw [if_pos rfl, UrlParser.parse, List.flatMap_singleton, UrlParser.parseByte]
    cases lib.url.encodes b <;> rfl
  | false =>
    rw [if_neg (by decide), Bool.false_and, if_neg (by decide)]
    refine parse_eq_self fun e he => ?_
    obtain rfl | hplain := mem_percentEncoded he
    · exact lib.url.delimiters.1
    · exact lib.url.unreserved e hplain

theorem parse_encode (lib : Library) (s : Bytes) : lib.url.parse (lib.encoder.encode s) = lib.encoded.encode s := by
  rw [Encoder.encode, Encoder.encode, UrlParser.parse, List.flatMap_assoc]
  exact congrArg (s.flatMap ·) (funext (parse_encodeByte lib))

theorem parse_query (lib : Library) (role worker : Bytes) :
    lib.url.parse (query lib.encoder role worker) = query lib.encoded role worker := by
  have hplain : ∀ b ∈ ascii "role=" ++ ascii "&worker=", isUnreserved b = true ∨ b = 38 ∨ b = 61 := by
    decide +kernel
  have hsame {s : Bytes} (hs : s ⊆ ascii "role=" ++ ascii "&worker=") : lib.url.parse s = s := by
    refine parse_eq_self fun b hb => ?_
    obtain h | rfl | rfl := hplain b (hs hb)
    · exact lib.url.unreserved b h
    · exact lib.url.delimiters.2.1
    · exact lib.url.delimiters.2.2
  have happend (s t : Bytes) : lib.url.parse (s ++ t) = lib.url.parse s ++ lib.url.parse t := List.flatMap_append
  unfold query
  rw [happend, happend, parse_encode, hsame (List.subset_append_left _ _)]
  split
  · rfl
  · rw [happend, parse_encode, hsame (List.subset_append_right _ _)]

/-! The server. -/

section
variable {enc : Encoder} {cfg : HttpConfig} {role worker : Bytes}

theorem query_plain {b : UInt8} (h : b ∈ query enc role worker) : b ≠ space ∧ b ≠ lf := by
  have hplain {e : UInt8} {s : Bytes} (he : e ∈ enc.encode s) : e ≠ space ∧ e ≠ lf :=
    ⟨fun hs => encode_plain he (.inl hs), fun hl => encode_plain he (.inr (.inl hl))⟩
  have hname : ∀ b ∈ ascii "role=" ++ ascii "&worker=", b ≠ space ∧ b ≠ lf := by decide +kernel
  rw [query, List.mem_append, List.mem_append] at h
  obtain (h | h) | h := h
  · exact hname b (List.mem_append_left _ h)
  · exact hplain h
  · split at h
    · exact absurd h List.not_mem_nil
    · obtain h | h := List.mem_append.mp h
      · exact hname b (List.mem_append_right _ h)
      · exact hplain h

/-- The parameters as the server has them: the encoded texts. -/
theorem parseQuery_query (enc : Encoder) (role worker : Bytes) :
    textParam (parseQuery (query enc role worker)) (ascii "role") = enc.encode role ∧
      textParam (parseQuery (query enc role worker)) (ascii "worker") = enc.encode worker := by
  have hrole : (38 : UInt8) ∉ ascii "role=" ++ enc.encode role := by
    rw [List.mem_append, not_or]
    exact ⟨by decide, fun h => encode_plain h (.inr (.inr rfl))⟩
  have hitem (name value : Bytes) (result : Table Bytes) (h : 61 ∉ name) :
      addQueryItem result (name ++ 61 :: value) = result.insert name value := by
    rw [addQueryItem, findByte_append_cons value h]
    dsimp only
    rw [List.take_left, ← List.drop_drop, List.drop_left]
    rfl
  have hfirst (result : Table Bytes) : addQueryItem result (ascii "role=" ++ enc.encode role) =
      result.insert (ascii "role") (enc.encode role) := by
    have hsplit : ascii "role=" = ascii "role" ++ [61] := by decide
    rw [hsplit, List.append_assoc, List.singleton_append, hitem _ _ _ (by decide)]
  have hne : ascii "role" ≠ ascii "worker" := by decide
  unfold query textParam
  by_cases hw : worker = []
  · rw [if_pos hw, List.append_nil, parseQuery, List.splitOn_eq_singleton hrole, List.foldl_cons, List.foldl_nil,
      hfirst, AList.lookup_insert, AList.lookup_insert_ne hne.symm, AList.lookup_empty, hw]
    exact ⟨rfl, rfl⟩
  · have hworker : (38 : UInt8) ∉ ascii "worker=" ++ enc.encode worker := by
      rw [List.mem_append, not_or]
      exact ⟨by decide, fun h => encode_plain h (.inr (.inr rfl))⟩
    have hsecond (result : Table Bytes) : addQueryItem result (ascii "worker=" ++ enc.encode worker) =
        result.insert (ascii "worker") (enc.encode worker) := by
      have hsplit : ascii "worker=" = ascii "worker" ++ [61] := by decide
      rw [hsplit, List.append_assoc, List.singleton_append, hitem _ _ _ (by decide)]
    have hsplit : ascii "&worker=" = 38 :: ascii "worker=" := by decide
    rw [if_neg hw, hsplit, List.cons_append, parseQuery, List.splitOn_append_cons_self_of_not_mem hrole,
      List.splitOn_eq_singleton hworker, List.foldl_cons, List.foldl_cons, List.foldl_nil, hfirst, hsecond,
      AList.lookup_insert, AList.lookup_insert_ne hne, AList.lookup_insert]
    exact ⟨rfl, rfl⟩

theorem parsed_request (lib : Library) (role worker : Bytes) (order : MapOrder) (headers : Bytes) :
    let req := parseRawHttp order (request lib role worker headers)
    req.path = ascii "/resolve" ∧ req.queryParams = parseQuery (query lib.encoded role worker) := by
  have hsplit : ascii " HTTP/1.1\r\n" = ascii " HTTP/1.1\r" ++ [lf] := by decide
  have hline : request lib role worker headers =
      (ascii "GET /resolve?" ++ query lib.encoded role worker ++ ascii " HTTP/1.1\r") ++ lf :: headers := by
    rw [request, parse_query, hsplit, ← List.append_assoc, List.append_assoc, List.singleton_append]
  have hnolf : lf ∉ ascii "GET /resolve?" ++ query lib.encoded role worker ++ ascii " HTTP/1.1\r" := by
    rw [List.mem_append, List.mem_append]
    rintro ((h | h) | h)
    · exact absurd h (by decide)
    · exact (query_plain h).2 rfl
    · exact absurd h (by decide)
  have hparts : ascii "GET /resolve?" ++ query lib.encoded role worker ++ ascii " HTTP/1.1\r" =
      ascii "GET" ++
        space :: (ascii "/resolve" ++ 63 :: query lib.encoded role worker ++ space :: ascii "HTTP/1.1") ++ [cr] := by
    have hstart : ascii "GET /resolve?" = ascii "GET" ++ space :: ascii "/resolve" ++ [63] := by decide
    have hend : ascii " HTTP/1.1\r" = space :: ascii "HTTP/1.1" ++ [cr] := by decide
    rw [hstart, hend]
    simp
  obtain ⟨hpath, hparams⟩ := parseRawHttp_line order _ headers hnolf
  dsimp only
  rw [hline, hpath, hparams, hparts, stripCr, if_pos List.getLast?_concat, List.dropLast_concat]
  exact parseRequestLine_query _ _ (by decide) (by decide) fun h => (query_plain h).1 rfl

/-- The server calls `resolve_node` with the encoded texts. -/
theorem routeRequest_request (lib : Library) (env : Readings) (headers : Bytes) (r : Registry) (h : role ≠ []) :
    routeRequest cfg env (parseRawHttp cfg.registry.order (request lib role worker headers)) r =
      resolveAnswer cfg (lib.encoded.encode role) (lib.encoded.encode worker) r := by
  obtain ⟨hpath, hparams⟩ := parsed_request lib role worker cfg.registry.order headers
  obtain ⟨hrole, hworker⟩ := parseQuery_query lib.encoded role worker
  have hroute : routeRequest cfg env (parseRawHttp cfg.registry.order (request lib role worker headers)) r =
      resolveRoute cfg (parseRawHttp cfg.registry.order (request lib role worker headers)).queryParams r := by
    unfold routeRequest
    rw [hpath, if_neg fun h => h.2.elim (by decide) (by decide), if_neg fun h => absurd h.2 (by decide),
      if_neg (by decide), if_neg (by decide), if_neg (by decide), if_neg (by decide), if_pos rfl]
  rw [hroute, hparams, resolveRoute]
  rw [hrole, hworker, if_neg fun he => h (encode_eq_nil.mp he)]
  rfl

theorem resolveAnswer_registry (r : Registry) :
    (resolveAnswer cfg role worker r).2 = r.resolved cfg.registry.order ⟨role, worker⟩ := by
  unfold resolveAnswer Registry.resolved
  dsimp only
  split <;> (rename_i h; rw [h])

end

/-- A node with one worker, alone in a registry. -/
private def lone (role worker : Bytes) : NodeInfo := ⟨[], role, [worker], none, .ok, 0, 0, none, .null⟩

private def registryOf (node : NodeInfo) : Registry :=
  { Registry.empty with nodes := (∅ : Table NodeInfo).insert [] node }

private theorem mem_registryOf {order : MapOrder} {node node' : NodeInfo} {F : Registry.Filter} :
    node' ∈ (registryOf node).eligible order F ↔ node' = node ∧ F.Eligible node' := by
  rw [Registry.mem_eligible]
  refine and_congr_left' ⟨?_, ?_⟩
  · rintro ⟨id, hid⟩
    obtain ⟨-, rfl⟩ | ⟨-, hid⟩ := Table.lookup_insert_eq_some.mp hid
    · rfl
    · cases (AList.lookup_empty id).symm.trans hid
  · rintro rfl
    exact ⟨[], AList.lookup_insert _⟩

/-- The server calls `resolve_node` with the role and the worker that the client asked for exactly where neither the
encoder nor the URL parser encodes a byte of them. -/
theorem arrives_iff (lib : Library) (role worker : Bytes) (h : role ≠ []) :
    Arrives lib role worker ↔ ∀ b ∈ role ++ worker, lib.leaves b = true := by
  have hkeeps : (∀ b ∈ role ++ worker, lib.leaves b = true) ↔
      lib.encoded.encode role = role ∧ lib.encoded.encode worker = worker := by
    rw [List.forall_mem_append, encode_eq_self, encode_eq_self]
    rfl
  rw [hkeeps]
  constructor
  · intro harrives
    -- the one node there is what the encoded texts ask for, so that the call finds it and moves its entry
    have hcalled := congrArg Prod.snd
      (harrives (.ofDocuments []) .zero [] (registryOf (lone (lib.encoded.encode role) (lib.encoded.encode worker))))
    rw [routeRequest_request _ _ _ _ h, resolveAnswer_registry, resolveAnswer_registry] at hcalled
    have hfound : (registryOf (lone (lib.encoded.encode role) (lib.encoded.encode worker))).eligible
        (HttpConfig.ofDocuments []).registry.order ⟨lib.encoded.encode role, lib.encoded.encode worker⟩ ≠ [] :=
      List.ne_nil_of_mem (mem_registryOf.mpr ⟨rfl, rfl, rfl, .inr (List.mem_singleton_self _)⟩)
    have hasked : (registryOf (lone (lib.encoded.encode role) (lib.encoded.encode worker))).eligible
        (HttpConfig.ofDocuments []).registry.order ⟨role, worker⟩ ≠ [] := by
      intro hnone
      rw [Registry.resolved_eq_self hnone] at hcalled
      have hentry := congrArg Registry.rrIndices hcalled
      rw [Registry.rrIndices_resolved hfound] at hentry
      have hlookup := congrArg
        (AList.lookup (Registry.Filter.key ⟨lib.encoded.encode role, lib.encoded.encode worker⟩)) hentry
      rw [AList.lookup_insert] at hlookup
      exact Option.some_ne_none _ hlookup
    obtain ⟨node, hnode⟩ := List.exists_mem_of_ne_nil _ hasked
    obtain ⟨rfl, -, hrole, hworker⟩ := mem_registryOf.mp hnode
    refine ⟨hrole, ?_⟩
    obtain hworker | hworker := hworker
    · rw [show worker = [] from hworker]
      rfl
    · exact (List.mem_singleton.mp hworker).symm
  · rintro ⟨hrole, hworker⟩ cfg env headers r
    rw [routeRequest_request _ _ _ _ h, hrole, hworker]

theorem plain_arrives : Arrives ts (ascii "api") (ascii "auth_v1.2") :=
  (arrives_iff _ _ _ (by decide)).mpr (by decide +kernel)

/-- An apostrophe is left by the encoder, and encoded where the URL is parsed. -/
example : (39 : UInt8) ∈ ascii "it's" ∧ encodeURIComponent.keeps 39 = true ∧ ts.leaves 39 = false := by decide

/-- The role "a/b" is asked for as "a%2Fb": there is a node with this role, and the server has none. -/
theorem encoded_slash_missed :
    (routeRequest (.ofDocuments []) .zero (parseRawHttp .written (request csharp (ascii "a/b") [] (ascii "\r\n")))
        (registryOf (lone (ascii "a/b") []))).1.map HttpResponse.statusCode = some 404 ∧
      ¬ Arrives csharp (ascii "a/b") [] := by
  have hfacts :
      (routeRequest (.ofDocuments []) .zero (parseRawHttp .written (request csharp (ascii "a/b") [] (ascii "\r\n")))
        (registryOf (lone (ascii "a/b") []))).1.map HttpResponse.statusCode = some 404 ∧
      (resolveAnswer (.ofDocuments []) (ascii "a/b") []
        (registryOf (lone (ascii "a/b") []))).1.map HttpResponse.statusCode =
        some 200 := by
    decide +kernel
  refine ⟨hfacts.1, fun harrives => ?_⟩
  have hmissed := hfacts.1
  rw [show MapOrder.written = (HttpConfig.ofDocuments []).registry.order from rfl, harrives, hfacts.2] at hmissed
  exact absurd hmissed (by decide)

end LightApr.Sdk.Resolve
