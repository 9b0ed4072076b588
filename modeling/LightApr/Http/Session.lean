import LightApr.Core.StreamAccumulator
import LightApr.Core.TcpSession
import LightApr.Http.Route
import LightApr.Lib.Machine

/-! One HTTP connection: reads accumulate, one request at a time is answered, and the
completion of its write continues with the next. -/
namespace LightApr.Http
open LightApr.Core Lib

structure HttpLimits where
  maxBufferBytes : Nat
  /-- 0 means unlimited -/
  maxRequestsPerConnection : Nat

structure HttpSession where
  tcp : TcpSession
  requestAcc : StreamAccumulator UInt8
  requestCount : Nat
  responseData : Bytes
  /-- the pending writes of `responseData`, each with the `keep_alive` of its handler -/
  writes : List Bool
  /-- history: the bytes read, the raw requests taken off them, the responses written -/
  received : Bytes
  requests : List Bytes
  responses : List Bytes

namespace HttpSession

def new (admitted : Bytes) (remote : Option Bytes) : HttpSession :=
  ⟨.new admitted remote, .empty, 0, [], [], [], [], []⟩

def start (s : HttpSession) : HttpSession := { s with tcp := s.tcp.startReadLoop }

def closeSession (s : HttpSession) (sh : Shared) : HttpSession × Shared :=
  if s.tcp.closed then (s, sh)
  else ({ s with tcp := s.tcp.close }, { sh with guard := sh.guard.release s.tcp.peerIp })

def renderResponse (res : HttpResponse) (keepAlive : Bool) : Bytes :=
  ascii "HTTP/1.1 " ++ decimal res.statusCode ++ ascii " " ++ res.statusText ++ ascii "\r\nContent-Type: " ++
    res.contentType ++ ascii "\r\nContent-Length: " ++ decimal res.body.length ++
    (if keepAlive then ascii "\r\nConnection: keep-alive\r\n\r\n" else ascii "\r\nConnection: close\r\n\r\n") ++
    res.body

/-- Whether the connection stays open after the `count`-th request. -/
def staysOpen (limits : HttpLimits) (req : HttpRequest) (count : Nat) : Bool :=
  if limits.maxRequestsPerConnection > 0 ∧ count ≥ limits.maxRequestsPerConnection then false
  else req.keepAlive

variable (cfg : HttpConfig) (limits : HttpLimits)

def tryProcessNextRequest (env : Readings) (s : HttpSession) (sh : Shared) : HttpSession × Shared × Flow :=
  match findRequestBoundary s.requestAcc.data with
  | none => ({ s with tcp := s.tcp.startReadLoop }, sh, .done)
  | some boundary =>
    let rawRequest := s.requestAcc.data.take boundary
    let s := { s with
      requestAcc := (s.requestAcc.consume boundary).compactIfNeeded 4096
      requests := s.requests ++ [rawRequest] }
    let req := parseRawHttp cfg.registry.order rawRequest
    match routeRequest cfg { env with connections := sh.guard.total } req sh.registry with
    | (none, registry) => (s, { sh with registry }, .threw)
    | (some res, registry) =>
      let keepAlive := staysOpen limits req (s.requestCount + 1)
      let responseData := renderResponse res keepAlive
      ({ s with
          requestCount := s.requestCount + 1
          responseData
          writes := s.writes ++ [keepAlive]
          responses := s.responses ++ [responseData] }, { sh with registry }, .done)

def onBytesRead (env : Readings) (data : Bytes) (s : HttpSession) (sh : Shared) : HttpSession × Shared × Flow :=
  let s := { s with requestAcc := s.requestAcc.append data, received := s.received ++ data }
  if s.requestAcc.totalCapacity > limits.maxBufferBytes then
    let (s, sh) := s.closeSession sh
    (s, sh, .done)
  else s.tryProcessNextRequest cfg limits env sh

/-- The handler of the write. -/
def onWritten (env : Readings) (ok keepAlive : Bool) (s : HttpSession) (sh : Shared) :
    HttpSession × Shared × Flow :=
  if !ok || !keepAlive then
    let (s, sh) := s.closeSession sh
    (s, sh, .done)
  else s.tryProcessNextRequest cfg limits env sh

/-! The completions that can reach a session, in any order the pending operations allow. -/

inductive Event where
  | read (env : Readings) (data : Bytes)
  | readFailed
  | idleExpired
  | waitCanceled
  | written (env : Readings) (ok : Bool)

def close (s : HttpSession) (sh : Shared) : HttpSession × Shared × Flow :=
  let (s, sh) := s.closeSession sh
  (s, sh, .done)

/-- none: the operation is not pending. -/
def handle (s : HttpSession) (sh : Shared) : Event → Option (HttpSession × Shared × Flow)
  | .read env data =>
    if true ∈ s.tcp.reads ∧ data ≠ [] ∧ data.length ≤ 4096 then
      some ({ s with tcp := { s.tcp with reads := s.tcp.reads.erase true } }.onBytesRead cfg limits env data sh)
    else none
  | .readFailed =>
    match s.tcp.reads with
    | [] => none
    | _ :: reads => some ({ s with tcp := { s.tcp with reads } }.close sh)
  | .idleExpired =>
    if s.tcp.waits = 0 then none
    else some ({ s with tcp := { s.tcp with waits := s.tcp.waits - 1 } }.close sh)
  | .waitCanceled =>
    if s.tcp.waits = 0 then none
    else some ({ s with tcp := { s.tcp with waits := s.tcp.waits - 1 } }, sh, .done)
  | .written env ok =>
    match s.writes with
    | [] => none
    | keepAlive :: writes => some ({ s with writes }.onWritten cfg limits env ok keepAlive sh)

end HttpSession
end LightApr.Http
