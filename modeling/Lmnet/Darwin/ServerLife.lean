import Lmnet.Darwin.CloseOrder
import Lmnet.Reactor.ServerRecord

/-!
The life of the connections of the kqueue `TcpServerImpl` and `UnixServerImpl`: the reactor
thread in `DispatchEvent`, with any filter and flags, and any number of threads in `Send`. A
step is one critical section, or one call of the kernel with the section that follows it.
-/

set_option autoImplicit false

namespace Lmnet.Darwin

open Lmnet.Reactor
open Lmnet.Epoll (Handler Reason RecvReturn SendReturn getEvents)

inductive ServerKind where
  | tcp | unix
  deriving DecidableEq, Repr

def ServerKind.endpoint : ServerKind → EndpointClass
  | .tcp => .tcpServer
  | .unix => .unixServer

/-- A buffer, and the session on which `Send` was called. -/
structure Message where
  session : Nat
  bytes : List UInt8
  deriving DecidableEq, Repr

/-- A connection handler. `queued` is all that `QueueSend` has put in, and `sent` what the
kernel has taken for the client's socket. -/
structure ConnectionHandler where
  sendQueue : List Message
  writeEventsEnabled : Bool
  queued : List Message
  sent : List UInt8
  deriving DecidableEq, Repr

def ConnectionHandler.created : ConnectionHandler := ⟨[], false, [], []⟩

/-- Where the reactor thread is in `DispatchEvent`: before a call of the handler, in the loop
of `HandleReceive` or of `ProcessSendQueue`, or behind the latter. -/
inductive Stage where
  | handleRead | receive | handleWrite | events | modify (events : Nat) | handleError | handleClose
  deriving DecidableEq, Repr

def dispatchCalls (filter : Filter) (flags : Nat) : List Stage :=
  (if flags &&& EV_ERROR ≠ 0 then [.handleError] else []) ++
  (if flags &&& EV_ERROR = 0 ∧ filter = .read then [.handleRead] else []) ++
  (if flags &&& EV_ERROR = 0 ∧ filter = .write then [.handleWrite] else []) ++
  (if flags &&& EV_EOF ≠ 0 then [.handleClose] else [])

structure Dispatch where
  handler : Handler
  fd : Fd
  stages : List Stage
  deriving DecidableEq, Repr

/-- Where a thread is in `Send`: it has found a session under the number; it has the handler;
it has put the buffer in and is to turn write events on. -/
inductive Sending where
  | found (fd : Fd) (message : Message)
  | queueSend (c : Nat) (message : Message)
  | events (c : Nat)
  | modify (c : Nat) (events : Nat)
  deriving DecidableEq, Repr

/-- What the system answers: `accept` with `ConfigureAcceptedSocket`; the `errno` of a
`kevent`, in `RegisterHandler`, `RemoveHandler` or `ModifyHandler`. -/
inductive Answer where
  | accept (clientSocket : Option Fd) (configured : Bool) (kevent : Option Int)
  | recv (r : RecvReturn) (kevent : Option Int)
  | send (r : SendReturn)
  | kevent (r : Option Int)
  | nothing
  deriving DecidableEq, Repr

inductive LifeAct where
  | dispatchEvent (fd : Fd) (filter : Filter) (flags : Nat)
  | handler (answer : Answer)
  | sessionSend (session : Nat) (buffer : List UInt8)
  | sending (i : Nat) (kevent : Option Int)
  deriving DecidableEq, Repr

/-- `leftBehind` are the clients whose `RemoveHandler` failed, with their numbers. -/
structure ServerLife where
  socket : Fd
  record : ServerRecord (List UInt8) ConnectionHandler
  reactor : EventReactor Handler
  dispatching : Option Dispatch
  sending : List Sending
  leftBehind : List (Nat × Fd)

namespace ServerLife

def started (socket : Fd) : ServerLife where
  socket := socket
  record := .started
  reactor := ⟨true, AList.insert socket .server ∅,
    AList.insert socket (normalizeEventsForKqueue (getEvents false)) ∅⟩
  dispatching := none
  sending := []
  leftBehind := []

/-- `RemoveHandler` comes between `RemoveConnection` and `close`. -/
def handleConnectionClose (s : ServerLife) (fd : Fd) (error : Option Reason)
    (kevent : Option Int) : ServerLife :=
  match s.record.sessions.lookup fd with
  | none => s
  | some c =>
      { s with
        record := s.record.handleConnectionClose fd error
        reactor := (s.reactor.removeHandler fd kevent).1
        leftBehind := s.leftBehind ++
          if (s.reactor.removeHandler fd kevent).2 then [] else [(c, fd)] }

/-- The kernel accepts under any number that is not in use. -/
def handleAccept (s : ServerLife) (clientSocket : Option Fd) (configured : Bool)
    (kevent : Option Int) : Option ServerLife :=
  match clientSocket with
  | none => some s
  | some fd =>
      if fd = s.socket ∨ s.record.owner fd ≠ none then none
      else
        let c := s.record.clients.length
        let record := s.record.accepted fd .created
        if !configured then some { s with record := record.close fd }
        else
          match s.reactor.registerHandler fd (getEvents false) (.connection c) kevent with
          | (r, false) => some { s with record := record.close fd, reactor := r }
          | (r, true) =>
              some { s with
                record := (record.addConnection fd c).enqueueTask (.accept c)
                reactor := r }

/-- `HandleReceive` looks for a session before its loop. -/
def handleReceive (k : ServerKind) (s : ServerLife) (fd : Fd) (r : RecvReturn)
    (kevent : Option Int) : Option (ServerLife × List Stage) :=
  match r with
  | .bytes data =>
      if data = [] then none
      else (s.record.receive fd data).map fun record => ({ s with record := record }, [.receive])
  | .disconnect => some (s, [])
  | .error errno =>
      match k.endpoint.onRecvError errno with
      | none => some (s, [])
      | some error => some (s.handleConnectionClose fd error kevent, [])

/-- The kernel takes bytes for whichever client has the number. -/
def transmit (s : ServerLife) (fd : Fd) (bytes : List UInt8) : ServerLife :=
  match s.record.owner fd with
  | none => s
  | some d =>
      { s with record := s.record.setHandler d fun h => { h with sent := h.sent ++ bytes } }

def setQueue (s : ServerLife) (c : Nat) (sendQueue : List Message) : ServerLife :=
  { s with record := s.record.setHandler c fun h => { h with sendQueue := sendQueue } }

/-- One round of the loop of `ProcessSendQueue`; a `send` that returns 0 ends the loop of the
Unix server only. -/
def processSendQueue (k : ServerKind) (s : ServerLife) (c : Nat) (answer : Answer) :
    Option (ServerLife × List Stage) :=
  match s.record.clients[c]? with
  | none => none
  | some x =>
      match x.handler.sendQueue, answer with
      | [], .nothing =>
          if x.handler.writeEventsEnabled then
            some ({ s with record := s.record.setHandler c fun h =>
              { h with writeEventsEnabled := false } }, [.events])
          else some (s, [])
      | m :: rest, .send (.bytes n) =>
          if n = 0 then some (s, if k = .tcp then [.handleWrite] else [])
          else if n = m.bytes.length then
            some ((s.transmit x.fd m.bytes).setQueue c rest, [.handleWrite])
          else if n < m.bytes.length then
            some ((s.transmit x.fd (m.bytes.take n)).setQueue c
              ({ m with bytes := m.bytes.drop n } :: rest), [])
          else none
      | _ :: _, .send .wouldBlock => some (s, [])
      | _ :: _, .send (.error _) => some (s, [])
      | _, _ => none

def modifyHandler (s : ServerLife) (c : Nat) (events : Nat) (kevent : Option Int) :
    Option ServerLife :=
  s.record.clients[c]?.map fun x =>
    { s with reactor := (s.reactor.modifyHandler x.fd events kevent).1 }

def eventsOf (s : ServerLife) (c : Nat) : Option Nat :=
  s.record.clients[c]?.map fun x => getEvents x.handler.writeEventsEnabled

def handlerStep (k : ServerKind) (s : ServerLife) (handler : Handler) (fd : Fd) (stage : Stage)
    (answer : Answer) : Option (ServerLife × List Stage) :=
  match handler, stage, answer with
  | .server, .handleRead, .accept clientSocket configured kevent =>
      (s.handleAccept clientSocket configured kevent).map (·, [])
  | .server, .handleWrite, .nothing => some (s, [])
  | .server, .handleError, .nothing => some (s, [])
  | .server, .handleClose, .nothing => some (s, [])
  | .connection _, .handleRead, .nothing =>
      some (s, if fd ∈ s.record.sessions then [.receive] else [])
  | .connection _, .receive, .recv r kevent => s.handleReceive k fd r kevent
  | .connection c, .handleWrite, answer => s.processSendQueue k c answer
  | .connection c, .events, .nothing => (s.eventsOf c).map fun events => (s, [.modify events])
  | .connection c, .modify events, .kevent r => (s.modifyHandler c events r).map (·, [])
  | .connection _, .handleError, .kevent r =>
      some (s.handleConnectionClose fd (some .connectionError) r, [])
  | .connection _, .handleClose, .kevent r => some (s.handleConnectionClose fd none r, [])
  | _, _, _ => none

/-- `TcpSessionImpl::Send` up to `GetSession`; the copy in `UnixSessionImpl` is the same. -/
def sessionSend (s : ServerLife) (session : Nat) (buffer : List UInt8) : Option ServerLife :=
  s.record.clients[session]?.map fun x =>
    if buffer = [] ∨ x.fd ∉ s.record.sessions then s
    else { s with sending := s.sending ++ [.found x.fd ⟨session, buffer⟩] }

def sendStep (s : ServerLife) (kevent : Option Int) : Sending → Option (ServerLife × List Sending)
  | .found fd message =>
      some (s, ((s.record.connectionHandlers.lookup fd).map (.queueSend · message)).toList)
  | .queueSend c message =>
      s.record.clients[c]?.map fun x =>
        ({ s with record := s.record.setHandler c fun h => { h with
            sendQueue := h.sendQueue ++ [message]
            writeEventsEnabled := true
            queued := h.queued ++ [message] } },
          if x.handler.writeEventsEnabled then [] else [.events c])
  | .events c => (s.eventsOf c).map fun events => (s, [.modify c events])
  | .modify c events => (s.modifyHandler c events kevent).map (·, [])

def step (k : ServerKind) (s : ServerLife) : LifeAct → Option ServerLife
  | .dispatchEvent fd filter flags =>
      if s.dispatching ≠ none then none
      else
        match s.reactor.handlers.lookup fd with
        | none => some s
        | some handler =>
            some { s with dispatching := some ⟨handler, fd, dispatchCalls filter flags⟩ }
  | .handler answer =>
      match s.dispatching with
      | none => none
      | some ⟨_, _, []⟩ => if answer = .nothing then some { s with dispatching := none } else none
      | some ⟨handler, fd, stage :: stages⟩ =>
          (s.handlerStep k handler fd stage answer).map fun (s, next) =>
            { s with dispatching := some ⟨handler, fd, next ++ stages⟩ }
  | .sessionSend session buffer => s.sessionSend session buffer
  | .sending i kevent =>
      s.sending[i]?.bind fun sending =>
        (s.sendStep kevent sending).map fun (t, next) =>
          { t with sending := s.sending.eraseIdx i ++ next }

def machine (k : ServerKind) : Machine ServerLife LifeAct where
  init s := ∃ socket, s = started socket
  step := step k

end ServerLife

def bytesOf (messages : List Message) : List UInt8 := messages.flatMap Message.bytes

/-- What the kernel has taken for a client is a front part of what was queued for it, what
waits in the queue comes next, and all of it was sent by sessions of the client's number. -/
structure Streams (r : ServerRecord (List UInt8) ConnectionHandler) : Prop where
  sent : ∀ (c : Nat) (x : ServerClient (List UInt8) ConnectionHandler), r.clients[c]? = some x →
    x.handler.sent <+: bytesOf x.handler.queued
  waiting : ∀ (c : Nat) (x : ServerClient (List UInt8) ConnectionHandler),
    r.clients[c]? = some x → x.isOpen = true →
      x.handler.sent ++ bytesOf x.handler.sendQueue = bytesOf x.handler.queued
  own : ∀ (c : Nat) (x : ServerClient (List UInt8) ConnectionHandler), r.clients[c]? = some x →
    ∀ m ∈ x.handler.queued, ∃ y, r.clients[m.session]? = some y ∧ y.fd = x.fd

end Lmnet.Darwin
