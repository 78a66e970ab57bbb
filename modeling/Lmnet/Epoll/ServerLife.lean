import Lmnet.Epoll.EventReactor
import Lmnet.Lib.Machine

/-!
The life of the connections of an epoll `TcpServerImpl`: `DispatchEvent` with any mask,
the handler calls it leads to, and the callbacks they queue. A handler call is one step;
the listener is alive and the task queue takes the tasks in order. Sessions and handlers
have the number of the client they were made for.
-/

set_option autoImplicit false

namespace Lmnet.Epoll

def ETIMEDOUT : Int := 110

structure Client where
  fd : Fd
  isOpen : Bool
  recvd : List (List UInt8)
  sendQueue : List (List UInt8)
  writeEventsEnabled : Bool
  deriving DecidableEq, Repr

def Client.receive (data : List UInt8) (cl : Client) : Client :=
  { cl with recvd := cl.recvd ++ [data] }

def Client.close (cl : Client) : Client := { cl with isOpen := false }

inductive Handler where
  | server
  | connection (client : Nat)
  deriving DecidableEq, Repr

/-- Why `HandleConnectionClose` was called with `isError`: "Connection error", `strerror`
of this number, or "Failed to enable write events". -/
inductive Reason where
  | connectionError
  | errno (e : Int)
  | writeEvents
  deriving DecidableEq, Repr

inductive Callback where
  | onAccept
  | onReceive (data : List UInt8)
  | onError (reason : Reason)
  | onClose
  deriving DecidableEq, Repr

/-- A task of the task queue; that of `HandleConnectionClose` calls `OnError`, when there
is a reason, and `OnClose`. -/
inductive Task where
  | accept (session : Nat)
  | receive (session : Nat) (data : List UInt8)
  | close (session : Nat) (error : Option Reason)
  deriving DecidableEq, Repr

def Task.session : Task → Nat
  | .accept c | .receive c _ | .close c _ => c

def Task.callbacks : Task → List Callback
  | .accept _ => [.onAccept]
  | .receive _ data => [.onReceive data]
  | .close _ error => (error.map Callback.onError).toList ++ [.onClose]

inductive HandlerCall where
  | handleRead | handleWrite | handleError | handleClose
  deriving DecidableEq, Repr

def dispatchCalls (events : Nat) : List HandlerCall :=
  (if events &&& EPOLLIN != 0 then [.handleRead] else []) ++
  (if events &&& EPOLLOUT != 0 then [.handleWrite] else []) ++
  (if events &&& EPOLLERR != 0 then [.handleError] else []) ++
  (if events &&& (EPOLLHUP ||| EPOLLRDHUP) != 0 then [.handleClose] else [])

structure Dispatch where
  handler : Handler
  fd : Fd
  calls : List HandlerCall
  deriving DecidableEq, Repr

inductive RecvReturn where
  | bytes (data : List UInt8)
  | disconnect
  | error (errno : Int)
  deriving DecidableEq, Repr

inductive SendReturn where
  | bytes (n : Nat)
  | wouldBlock
  | error (errno : Int)
  deriving DecidableEq, Repr

/-- What the system answers in one handler call: `accept4` with the `epoll_ctl` of
`RegisterHandler`, each `recv`, or each `send` with the `epoll_ctl` of `ModifyHandler`. -/
inductive Answers where
  | accept (clientSocket : Option Fd) (ctl : Option Int)
  | recv (rs : List RecvReturn)
  | send (rs : List SendReturn) (ctl : Option Int)
  | nothing
  deriving DecidableEq, Repr

inductive LifeAct where
  | dispatchEvent (fd : Fd) (events : Nat)
  | handlerCall (answers : Answers)
  | sessionSend (session : Nat) (buffer : List UInt8) (ctl : Option Int)
  deriving DecidableEq, Repr

/-- `closes` has an entry for each `close` of a client's number: the client that had the
number, if there was one. -/
structure ServerLife where
  socket : Fd
  clients : List Client
  sessions : FdMap Nat
  connectionHandlers : FdMap Nat
  reactor : EventReactor Handler
  dispatching : Option Dispatch
  tasks : List Task
  closes : List (Option Nat)

namespace ServerLife

def started (socket : Fd) : ServerLife where
  socket := socket
  clients := []
  sessions := ∅
  connectionHandlers := ∅
  reactor := ⟨true, AList.insert socket .server ∅, AList.insert socket (epollEvents baseEvents) ∅⟩
  dispatching := none
  tasks := []
  closes := []

def owner (s : ServerLife) (fd : Fd) : Option Nat :=
  s.clients.findIdx? fun cl => cl.isOpen && cl.fd == fd

def setClient (s : ServerLife) (c : Nat) (f : Client → Client) : ServerLife :=
  { s with clients := s.clients.modify c f }

def enqueueTask (s : ServerLife) (task : Task) : ServerLife := { s with tasks := s.tasks ++ [task] }

def close (s : ServerLife) (fd : Fd) : ServerLife :=
  { s with
    clients :=
      match s.owner fd with
      | none => s.clients
      | some c => s.clients.modify c Client.close
    reactor := s.reactor.onClose fd
    closes := s.closes ++ [s.owner fd] }

/-- `error` is the reason when `isError`. The `epoll_ctl` of `RemoveHandler` succeeds. -/
def handleConnectionClose (s : ServerLife) (fd : Fd) (error : Option Reason) : ServerLife :=
  match s.sessions.lookup fd with
  | none => s
  | some c =>
      (close { s with
        sessions := s.sessions.erase fd
        connectionHandlers := s.connectionHandlers.erase fd
        reactor := (s.reactor.removeHandler fd none).1 } fd).enqueueTask (.close c error)

/-- The kernel accepts under any number that is not in use. -/
def handleAccept (s : ServerLife) (clientSocket : Option Fd) (ctl : Option Int) :
    Option ServerLife :=
  match clientSocket with
  | none => some s
  | some fd =>
      if fd = s.socket ∨ s.owner fd ≠ none then none
      else
        let c := s.clients.length
        let s : ServerLife := { s with clients := s.clients ++ [⟨fd, true, [], [], false⟩] }
        match s.reactor.registerHandler fd (getEvents false) (.connection c) ctl with
        | (_, false) => some (s.close fd)
        | (r, true) =>
            some (enqueueTask { s with
              reactor := r
              connectionHandlers := s.connectionHandlers.insert fd c
              sessions := if fd ∈ s.sessions then s.sessions else s.sessions.insert fd c }
                (.accept c))

/-- One round of the loop of `HandleReceive` in which `recv` returns data. Only an open
client's number has data to return. -/
def receiveData (s : ServerLife) (fd : Fd) (data : List UInt8) : Option ServerLife :=
  if data = [] then none
  else
    (s.owner fd).map fun c =>
      let s := s.setClient c (Client.receive data)
      match s.sessions.lookup fd with
      | none => s
      | some session => s.enqueueTask (.receive session data)

def handleReceive (s : ServerLife) (fd : Fd) : List RecvReturn → Option ServerLife
  | .bytes data :: rs => (s.receiveData fd data).bind fun s => s.handleReceive fd rs
  | [.disconnect] => some s
  | [.error errno] =>
      if errno = EAGAIN ∨ errno = ETIMEDOUT then some s
      else some (s.handleConnectionClose fd (some (.errno errno)))
  | _ => none

/-- `EnableWriteEvents`, and what `QueueSend` does when it fails. -/
def enableWriteEvents (s : ServerLife) (c : Nat) (cl : Client) (ctl : Option Int) : ServerLife :=
  if cl.writeEventsEnabled then s
  else
    match s.reactor.modifyHandler cl.fd (getEvents true) ctl with
    | (r, true) =>
        { s.setClient c fun cl => { cl with writeEventsEnabled := true } with reactor := r }
    | (_, false) => s.handleConnectionClose cl.fd (some .writeEvents)

def disableWriteEvents (s : ServerLife) (c : Nat) (cl : Client) (ctl : Option Int) : ServerLife :=
  if cl.writeEventsEnabled then
    { s.setClient c fun cl => { cl with writeEventsEnabled := false } with
      reactor := (s.reactor.modifyHandler cl.fd (getEvents false) ctl).1 }
  else s

def queueSend (s : ServerLife) (c : Nat) (buffer : List UInt8) (ctl : Option Int) : ServerLife :=
  match s.clients[c]? with
  | none => s
  | some cl =>
      (s.setClient c fun cl => { cl with sendQueue := cl.sendQueue ++ [buffer] }).enableWriteEvents
        c cl ctl

def sessionSend (s : ServerLife) (session : Nat) (buffer : List UInt8) (ctl : Option Int) :
    Option ServerLife :=
  match s.clients[session]? with
  | none => none
  | some cl =>
      if buffer = [] ∨ cl.fd ∉ s.sessions then some s
      else
        match s.connectionHandlers.lookup cl.fd with
        | none => some s
        | some c => some (s.queueSend c buffer ctl)

def processSendQueue (s : ServerLife) (c : Nat) (ctl : Option Int) :
    List SendReturn → Option ServerLife
  | [] =>
      match s.clients[c]? with
      | none => none
      | some cl => if cl.sendQueue = [] then some (s.disableWriteEvents c cl ctl) else none
  | r :: rs =>
      match s.clients[c]? with
      | none => none
      | some cl =>
          match cl.sendQueue, r with
          | buf :: rest, .bytes n =>
              if n < buf.length then
                (s.setClient c fun cl => { cl with
                  sendQueue := buf.drop n :: rest }).processSendQueue c ctl rs
              else if n = buf.length then
                (s.setClient c fun cl => { cl with sendQueue := rest }).processSendQueue c ctl rs
              else none
          | _ :: _, .wouldBlock => if rs = [] then some s else none
          | _ :: _, .error errno =>
              if rs = [] then some (s.handleConnectionClose cl.fd (some (.errno errno))) else none
          | [], _ => none

def handlerCall (s : ServerLife) (handler : Handler) (fd : Fd) (call : HandlerCall)
    (answers : Answers) : Option ServerLife :=
  match handler, call, answers with
  | .server, .handleRead, .accept clientSocket ctl => s.handleAccept clientSocket ctl
  | .server, .handleWrite, .nothing => some s
  | .server, .handleError, .nothing => some s
  | .server, .handleClose, .nothing => some s
  | .connection _, .handleRead, .recv rs => s.handleReceive fd rs
  | .connection c, .handleWrite, .send rs ctl => s.processSendQueue c ctl rs
  | .connection _, .handleError, .nothing =>
      some (s.handleConnectionClose fd (some .connectionError))
  | .connection _, .handleClose, .nothing => some (s.handleConnectionClose fd none)
  | _, _, _ => none

def step (s : ServerLife) : LifeAct → Option ServerLife
  | .dispatchEvent fd events =>
      if s.dispatching ≠ none then none
      else
        match s.reactor.handlers.lookup fd with
        | none => some s
        | some handler => some { s with dispatching := some ⟨handler, fd, dispatchCalls events⟩ }
  | .handlerCall answers =>
      match s.dispatching with
      | none => none
      | some ⟨_, _, []⟩ =>
          if answers = .nothing then some { s with dispatching := none } else none
      | some ⟨handler, fd, call :: calls⟩ =>
          (s.handlerCall handler fd call answers).map fun s =>
            { s with dispatching := if calls = [] then none else some ⟨handler, fd, calls⟩ }
  | .sessionSend session buffer ctl => s.sessionSend session buffer ctl

def machine : Machine ServerLife LifeAct where
  init s := ∃ socket, s = started socket
  step := step

def callbacks (s : ServerLife) (c : Nat) : List Callback :=
  (s.tasks.filter fun task => task.session = c).flatMap Task.callbacks

end ServerLife

def lifeOf (data : List (List UInt8)) (error : Option Reason) : List Callback :=
  .onAccept :: data.map .onReceive ++ ((error.map Callback.onError).toList ++ [.onClose])

def receivedData (cs : List Callback) : List UInt8 :=
  cs.flatMap fun
    | .onReceive data => data
    | _ => []

namespace ServerLife

/-- The two maps have the numbers of the open clients, and so have the reactor and the
kernel's interest list. -/
def TablesAgree (s : ServerLife) : Prop :=
  ∀ fd, (fd ∈ s.sessions ↔ fd ∈ s.connectionHandlers) ∧
    (fd ∈ s.sessions ↔ ∃ cl ∈ s.clients, cl.fd = fd ∧ cl.isOpen = true) ∧
    (fd ∈ s.sessions ↔ ∃ c, s.reactor.handlers.lookup fd = some (.connection c)) ∧
    (fd ∈ s.sessions ↔ fd ∈ s.reactor.interest ∧ fd ≠ s.socket)

end ServerLife

end Lmnet.Epoll
