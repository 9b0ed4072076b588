import LightApr.Core.ConnectionGuard
import LightApr.Core.Registry

/-! What the two kinds of session have in common: the socket, its pending asynchronous
operations, the idle timer, and the place in the connection guard. -/
namespace LightApr.Core

/-- How a handler ends: it returns, or an exception leaves it. -/
inductive Flow where
  | done
  | threw
  deriving DecidableEq, Repr

/-- What all sessions of the process share. -/
structure Shared where
  registry : Registry
  guard : ConnectionGuard

structure TcpSession where
  peerIp : Bytes
  closed : Bool
  /-- the pending reads, each with whether the socket was open when it was started;
  a read started on a closed socket can only fail -/
  reads : List Bool
  /-- the pending waits of the idle timer, canceled ones included -/
  waits : Nat
  /-- history: the address the guard admitted, and the addresses released for it -/
  admitted : Bytes
  released : List Bytes
  /-- the session object has been destroyed -/
  gone : Bool
  deriving DecidableEq, Repr

namespace TcpSession

/-- The session as its constructor leaves it; `remote` is none when the constructor's
own address query fails. -/
def new (admitted : Bytes) (remote : Option Bytes) : TcpSession :=
  { peerIp := remote.getD [], closed := false, reads := [], waits := 0, admitted, released := [], gone := false }

def startReadLoop (t : TcpSession) : TcpSession :=
  { t with reads := t.reads ++ [!t.closed], waits := t.waits + 1 }

/-- The part of `close_session` that both kinds share, the release included. -/
def close (t : TcpSession) : TcpSession := { t with closed := true, released := t.released ++ [t.peerIp] }

/-- The object exists and has not been closed. -/
def live (t : TcpSession) : Bool := !t.closed && !t.gone

end TcpSession
end LightApr.Core
