import LightApr.Core.Table
import LightApr.Lib.Framing

/-! Request parsing: the request boundary in a stream, the request itself, and the
query string. -/
namespace LightApr.Http
open LightApr.Core Lib.Framing

structure HttpRequest where
  method : Bytes
  path : Bytes
  httpVersion : Bytes
  queryParams : Table Bytes
  headers : Table Bytes
  body : Bytes
  keepAlive : Bool

structure HttpResponse where
  statusCode : Nat
  statusText : Bytes
  contentType : Bytes
  body : Bytes
  deriving DecidableEq, Repr

def iequalsAscii (a b : Bytes) : Bool := a.map toLower = b.map toLower

/-- A line without the '\r' that may end it. -/
def stripCr (line : Bytes) : Bytes := if line.getLast? = some cr then line.dropLast else line

def space : UInt8 := 32
def colon : UInt8 := 58

/-- One item of the query string. -/
def addQueryItem (result : Table Bytes) (item : Bytes) : Table Bytes :=
  match findByte 61 item with
  | some eqPos => result.insert (item.take eqPos) (item.drop (eqPos + 1))
  | none => if item = [] then result else result.insert item []

def parseQuery (queryStr : Bytes) : Table Bytes := (queryStr.splitOn 38).foldl addQueryItem ∅

/-- The request line: method, path, query and version, with what a missing part leaves. -/
def parseRequestLine (line : Bytes) (req : HttpRequest) : HttpRequest :=
  match findByte space line with
  | none => req
  | some sp1 =>
    let rest := (line.drop sp1).dropWhile (· = space)
    let fullPath := match findByte space rest with
      | none => rest
      | some sp2 => rest.take sp2
    let version := match findByte space rest with
      | none => []
      | some sp2 => (rest.drop sp2).dropWhile (· = space)
    let req := { req with
      method := line.take sp1
      httpVersion := if version = [] then req.httpVersion else version }
    match findByte 63 fullPath with
    | some qPos =>
      { req with path := fullPath.take qPos, queryParams := parseQuery (fullPath.drop (qPos + 1)) }
    | none => { req with path := fullPath }

def addHeader (headers : Table Bytes) (line : Bytes) : Table Bytes :=
  match findByte colon line with
  | none => headers
  | some pos => headers.insert (line.take pos) ((line.drop (pos + 1)).dropWhile (· = space))

def defaultRequest : HttpRequest := ⟨[], [], ascii "HTTP/1.1", ∅, ∅, [], true⟩

/-- The lines up to the first empty one are headers; the first of the `Connection`
headers met in the enumeration of the map decides. -/
def parseRawHttp (order : MapOrder) (raw : Bytes) : HttpRequest :=
  let lines := (raw.splitOn lf).map stripCr
  let req := parseRequestLine (lines.headD []) defaultRequest
  let headers := (lines.tail.takeWhile (· ≠ [])).foldl addHeader ∅
  let connectionValue :=
    (((headers.iterate order).find? fun h => iequalsAscii h.1 (ascii "Connection")).map Prod.snd).getD []
  let connLower := connectionValue.map toLower
  let keepAlive :=
    if connLower = ascii "close" then false
    else if connLower = ascii "keep-alive" then true
    else (find (ascii "1.1") req.httpVersion).isSome
  { req with headers, keepAlive }

/-- The first line of a request ends with its first line feed. -/
theorem parseRawHttp_line (order : MapOrder) (line rest : Bytes) (h : lf ∉ line) :
    (parseRawHttp order (line ++ lf :: rest)).path = (parseRequestLine (stripCr line) defaultRequest).path ∧
      (parseRawHttp order (line ++ lf :: rest)).queryParams =
        (parseRequestLine (stripCr line) defaultRequest).queryParams := by
  have hsplit : (line ++ lf :: rest).splitOn lf = line :: rest.splitOn lf := by
    rw [List.splitOn_append_cons_self, List.splitOn_eq_singleton h]
    rfl
  unfold parseRawHttp
  rw [hsplit]
  exact ⟨rfl, rfl⟩

/-- A request line whose target has a query: the first '?' ends the path. -/
theorem parseRequestLine_query {method path query : Bytes} (version : Bytes) (req : HttpRequest)
    (hmethod : space ∉ method) (hpath : space ∉ path ∧ 63 ∉ path) (hquery : space ∉ query) :
    let line := method ++ space :: (path ++ 63 :: query ++ space :: version)
    (parseRequestLine line req).path = path ∧ (parseRequestLine line req).queryParams = parseQuery query := by
  have htarget : space ∉ path ++ 63 :: query := by
    rw [List.mem_append, List.mem_cons]
    rintro (h | h | h)
    · exact hpath.1 h
    · exact absurd h (by decide)
    · exact hquery h
  have hrest : (space :: (path ++ 63 :: query ++ space :: version)).dropWhile (· = space) =
      path ++ 63 :: query ++ space :: version := by
    rw [List.dropWhile_cons_of_pos (by simp)]
    cases hp : path with
    | nil => rfl
    | cons b path' =>
      have hb : b ≠ space := fun he => hpath.1 (by rw [hp, he]; exact List.mem_cons_self)
      rw [List.cons_append, List.cons_append, List.dropWhile_cons_of_neg (by simpa using hb)]
  dsimp only
  unfold parseRequestLine
  rw [findByte_append_cons _ hmethod]
  dsimp only
  rw [List.drop_left, hrest, findByte_append_cons _ htarget]
  dsimp only
  rw [List.take_left, findByte_append_cons _ hpath.2]
  dsimp only
  rw [List.take_left, ← List.drop_drop, List.drop_left]
  exact ⟨rfl, rfl⟩

/-- The digits a value begins with, modulo 2^64. -/
def parseLength (val : Bytes) : Nat :=
  (val.takeWhile isDigit).foldl (fun n d => (n * 10 + (d.toNat - 48)) % sizeMax) 0

/-- A header line updates the content length; the last such line wins. -/
def readContentLength (contentLength : Nat) (line : Bytes) : Nat :=
  match findByte colon line with
  | none => contentLength
  | some pos =>
    if iequalsAscii (line.take pos) (ascii "Content-Length") then
      parseLength ((line.drop (pos + 1)).dropWhile (· = space))
    else contentLength

def crlfcrlf : Bytes := [cr, lf, cr, lf]

/-- Length of the request at the front of the buffer, header block and body together,
in 64-bit arithmetic; none: more bytes are needed. -/
def findRequestBoundary (buffered : Bytes) : Option Nat :=
  match find crlfcrlf buffered with
  | none => none
  | some headerEnd =>
    let lines := ((buffered.take headerEnd).splitOn lf).map stripCr
    let total := (headerEnd + 4 + lines.foldl readContentLength 0) % sizeMax
    if buffered.length < total then none else some total

theorem findRequestBoundary_within {s : Bytes} {n : Nat} (h : findRequestBoundary s = some n) :
    n ≤ s.length := by
  unfold findRequestBoundary at h
  split at h
  · exact nomatch h
  · dsimp only at h
    split at h
    · exact nomatch h
    · obtain rfl := Option.some.inj h
      omega

/-- A boundary once found does not move when more bytes arrive. -/
theorem findRequestBoundary_append {s : Bytes} {n : Nat} (t : Bytes) (h : findRequestBoundary s = some n) :
    findRequestBoundary (s ++ t) = some n := by
  unfold findRequestBoundary at h ⊢
  cases hf : find crlfcrlf s with
  | none =>
    rw [hf] at h
    exact nomatch h
  | some headerEnd =>
    have hle := (find_spec hf).2
    rw [hf] at h
    rw [find_append t hf]
    dsimp only at h ⊢
    rw [List.take_append_of_le_length (by omega)]
    split at h
    · exact nomatch h
    · rw [if_neg (by rw [List.length_append]; omega)]
      exact h

/-- Successive requests of a stream. -/
def requestFramer : Framer UInt8 := ⟨findRequestBoundary, findRequestBoundary_within, findRequestBoundary_append⟩

end LightApr.Http
