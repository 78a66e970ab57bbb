import Lmnet.Epoll.EventReactor
import Lmnet.Lib.Machine

/-!
`TcpServerImpl` as the owner of many connections: the two maps keyed by socket
number, the reactor's table, and numbers the kernel hands out again. Sessions
are numbered like the connections they were created for, and so are handlers.
-/

set_option autoImplicit false

namespace Lmnet.Epoll

structure Message where
  session : Nat
  bytes : List UInt8
  deriving DecidableEq, Repr

/-- How far `HandleConnectionClose` has come: `live` connections are in
`sessions_`, then come `RemoveHandler` and `close`. -/
inductive Phase where
  | live | removing | closing | closed
  deriving DecidableEq, Repr

structure Connection where
  fd : Fd
  phase : Phase
  deriving DecidableEq, Repr

def Connection.owns (conn : Connection) (fd : Fd) : Bool := conn.fd = fd ∧ conn.phase ≠ .closed

@[simp] theorem Connection.owns_iff {conn : Connection} {fd : Fd} :
    conn.owns fd = true ↔ conn.fd = fd ∧ conn.phase ≠ .closed := by
  simp [owns]

/-- One call of `TcpSessionImpl::Send`: whether `HandleConnectionClose` had taken
the session's connection out by then, and the handler whose queue the buffer
goes to, `none` when the call returns false. -/
structure SendRecord where
  session : Nat
  closed : Bool
  handler : Option Nat
  deriving DecidableEq, Repr

structure Delivery where
  message : Message
  connection : Nat
  deriving DecidableEq, Repr

/-- `sendQueues` holds the `sendQueue_` of each `TcpConnectionHandler`, `sending`
the `Send` calls that have left `sessionMutex_` and not reached `sendMutex_`, and
`dispatching` the handler of which the reactor thread holds a copy. -/
structure TcpServer where
  conns : List Connection
  sendQueues : List (List Message)
  sessions : FdMap Nat
  connectionHandlers : FdMap Nat
  reactor : EventReactor Nat
  sending : List (Nat × Message)
  dispatching : Option Nat
  sends : List SendRecord
  deliveries : List Delivery

/-- `ctl` is what `epoll_ctl` returns, `alive` whether `server_.lock()` succeeds;
a null buffer is `none`. -/
inductive ServerAct where
  | handleAccept (fd : Fd) (ctl : Option Int)
  | handleConnectionClose (fd : Fd)
  | removeHandler (conn : Nat) (ctl : Option Int)
  | close (conn : Nat)
  | sessionSend (session : Nat) (alive : Bool) (buffer : Option (List UInt8))
  | queueSend (i : Nat)
  | dispatchEvent (fd : Fd)
  | processSend (bytesSent : Nat)
  | returnToLoop
  deriving DecidableEq, Repr

namespace TcpServer

def created : TcpServer where
  conns := []
  sendQueues := []
  sessions := ∅
  connectionHandlers := ∅
  reactor := ⟨true, ∅, ∅⟩
  sending := []
  dispatching := none
  sends := []
  deliveries := []

def owner (s : TcpServer) (fd : Fd) : Option Nat := s.conns.findIdx? (·.owns fd)

def setPhase (s : TcpServer) (c : Nat) (p : Phase) : TcpServer :=
  { s with conns := s.conns.modify c fun conn => { conn with phase := p } }

/-- The kernel accepts under any number that is not in use. When the handler
cannot be registered the new socket is closed at once. -/
def handleAccept (s : TcpServer) (fd : Fd) (ctl : Option Int) : Option TcpServer :=
  if s.dispatching = none ∧ s.owner fd = none then
    let c := s.conns.length
    match s.reactor.registerHandler fd baseEvents c ctl with
    | (_, false) => some s
    | (r, true) =>
      some { s with
        conns := s.conns ++ [⟨fd, .live⟩]
        sendQueues := s.sendQueues ++ [[]]
        reactor := r
        connectionHandlers := s.connectionHandlers.insert fd c
        sessions := if fd ∈ s.sessions then s.sessions else s.sessions.insert fd c }
  else none

def handleConnectionClose (s : TcpServer) (fd : Fd) : TcpServer :=
  match s.sessions.lookup fd with
  | none => s
  | some c =>
    { s.setPhase c .removing with
      sessions := s.sessions.erase fd
      connectionHandlers := s.connectionHandlers.erase fd }

def removeHandler (s : TcpServer) (c : Nat) (ctl : Option Int) : Option TcpServer :=
  match s.conns[c]? with
  | some ⟨fd, .removing⟩ =>
    some { s.setPhase c .closing with reactor := (s.reactor.removeHandler fd ctl).1 }
  | _ => none

def close (s : TcpServer) (c : Nat) : Option TcpServer :=
  match s.conns[c]? with
  | some ⟨fd, .closing⟩ => some { s.setPhase c .closed with reactor := s.reactor.onClose fd }
  | _ => none

def send (s : TcpServer) (fd : Fd) (bytes : List UInt8) : Option Nat :=
  if bytes.length = 0 then none
  else if fd ∈ s.sessions then s.connectionHandlers.lookup fd
  else none

def sendVia (s : TcpServer) (fd : Fd) (alive : Bool) (buffer : Option (List UInt8)) :
    Option Nat :=
  if alive then buffer.bind (s.send fd) else none

def sessionSend (s : TcpServer) (session : Nat) (alive : Bool) (buffer : Option (List UInt8)) :
    Option TcpServer :=
  match s.conns[session]? with
  | none => none
  | some conn =>
    let handler := s.sendVia conn.fd alive buffer
    some { s with
      sends := s.sends ++ [⟨session, conn.phase ≠ .live, handler⟩]
      sending := s.sending ++
        (handler.map fun h => (h, Message.mk session (buffer.getD []))).toList }

/-- The critical section of `QueueSend`. Should `EnableWriteEvents` fail after it,
`HandleConnectionClose` follows as a step of its own. -/
def queueSend (s : TcpServer) (i : Nat) : Option TcpServer :=
  match s.sending[i]? with
  | some (h, m) =>
    some { s with
      sending := s.sending.eraseIdx i
      sendQueues := s.sendQueues.modify h (· ++ [m]) }
  | none => none

def dispatchEvent (s : TcpServer) (fd : Fd) : Option TcpServer :=
  if s.dispatching = none ∧ fd ∈ s.reactor.handlers then
    some { s with dispatching := s.reactor.handlers.lookup fd }
  else none

/-- One round of `ProcessSendQueue` in the handler being dispatched: `send` goes
to whichever connection owns the handler's number. -/
def processSend (s : TcpServer) (bytesSent : Nat) : Option TcpServer :=
  match s.dispatching with
  | none => none
  | some c =>
    match s.conns[c]?, s.sendQueues[c]? with
    | some conn, some (m :: rest) =>
      match s.owner conn.fd with
      | none => some { s.handleConnectionClose conn.fd with dispatching := none }
      | some d =>
        if 0 < bytesSent ∧ bytesSent ≤ m.bytes.length then
          some { s with
            sendQueues := s.sendQueues.set c
              (if bytesSent = m.bytes.length then rest
                else { m with bytes := m.bytes.drop bytesSent } :: rest)
            deliveries := s.deliveries ++ [⟨{ m with bytes := m.bytes.take bytesSent }, d⟩] }
        else none
    | _, _ => none

def step (s : TcpServer) : ServerAct → Option TcpServer
  | .handleAccept fd ctl => s.handleAccept fd ctl
  | .handleConnectionClose fd => some (s.handleConnectionClose fd)
  | .removeHandler c ctl => s.removeHandler c ctl
  | .close c => s.close c
  | .sessionSend session alive buffer => s.sessionSend session alive buffer
  | .queueSend i => s.queueSend i
  | .dispatchEvent fd => s.dispatchEvent fd
  | .processSend n => s.processSend n
  | .returnToLoop => some { s with dispatching := none }

def machine : Machine TcpServer ServerAct where
  init s := s = created
  step := step

end TcpServer

end Lmnet.Epoll
