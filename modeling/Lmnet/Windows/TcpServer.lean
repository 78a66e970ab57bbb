import Lmnet.Lib.Tables
import Lmnet.Windows.ClientClose

/-!
The connections of the Windows `TcpServerImpl`: what its completions and its tasks do with the
sessions. A task, a callback of a completion, `Send` and `Stop` are one step each; the listener
is alive, and the system may give out the number of a closed socket again.
-/

set_option autoImplicit false

namespace Lmnet.Windows

abbrev SocketMap (α : Type) := AList fun _ : Nat => α

structure Operation where
  connection : Nat
  socket : Nat
  deriving DecidableEq, Repr

/-- The tasks of `taskQueue_`: `HandleAccept`, `HandleReceive` with what the read has returned,
and `HandleClientClose` after a read could not be submitted. -/
inductive ServerTask where
  | accept (o : Operation)
  | receive (o : Operation) (buffer : List UInt8) (error : Nat)
  | close (o : Operation)
  deriving DecidableEq, Repr

inductive ServerCall where
  | onAccept
  | onReceive (origin : Nat) (buffer : List UInt8)
  | onError (reason : String)
  | onClose
  deriving DecidableEq, Repr

/-- An accepted connection. `received` is what its reads have returned, `told` what the listener
was told of its session. -/
structure Connection where
  socket : Nat
  isOpen : Bool
  received : List (List UInt8)
  told : List ServerCall
  deriving DecidableEq, Repr

namespace Connection

def accepted (socket : Nat) : Connection := ⟨socket, true, [], []⟩

def tell (call : ServerCall) (x : Connection) : Connection := { x with told := x.told ++ [call] }

def receive (buffer : List UInt8) (x : Connection) : Connection :=
  { x with received := x.received ++ [buffer] }

def close (x : Connection) : Connection := { x with isOpen := false }

end Connection

/-- How the submission of a read ends: `IsSocketInBenignCloseState` tells the two failures
apart. -/
inductive ReadSubmission where
  | done | benign | failed
  deriving DecidableEq, Repr

/-- `accepts` are the sockets made for the `AcceptEx` requests, `reads` and `writes` the
operations that have not completed. `closes` has an entry for each `closesocket` of an accepted
socket's number: the connection that had the number, if there was one. -/
structure TcpServer where
  isRunning : Bool
  connections : List Connection
  sessions : SocketMap Nat
  accepts : List Nat
  reads : List Operation
  writes : List Operation
  tasks : List ServerTask
  closes : List (Option Nat)

/-- `prepared` says that `SO_UPDATE_ACCEPT_CONTEXT` is set and the socket put on the port. -/
inductive ServerAct where
  | start
  | stop
  | submitAccept (socket : Nat)
  | completeAccept (i : Nat) (success : Bool)
  | completeRead (i : Nat) (buffer : List UInt8) (error : Nat)
  | runTask (prepared : Bool) (read : ReadSubmission)
  | send (session : Nat) (buffer : List UInt8) (success : Bool)
  | completeWrite (i : Nat) (error : Nat)
  deriving DecidableEq, Repr

namespace TcpServer

def initialised : TcpServer := ⟨false, [], ∅, [], [], [], [], []⟩

def owner (s : TcpServer) (socket : Nat) : Option Nat :=
  s.connections.findIdx? fun x => x.isOpen && x.socket == socket

def update (s : TcpServer) (c : Nat) (f : Connection → Connection) : TcpServer :=
  { s with connections := s.connections.modify c f }

def closesocket (s : TcpServer) (socket : Nat) : TcpServer :=
  { s with
    connections :=
      match s.owner socket with
      | none => s.connections
      | some c => s.connections.modify c Connection.close
    closes := s.closes ++ [s.owner socket] }

def handleClientClose (s : TcpServer) (socket : Nat) (isError : Bool) (reason : String) :
    TcpServer :=
  match s.sessions.lookup socket with
  | none => s
  | some c =>
      let s := if isError then s.update c (Connection.tell (.onError reason)) else s
      closesocket { s.update c (Connection.tell .onClose) with
        sessions := s.sessions.erase socket } socket

def submitRead (s : TcpServer) (socket : Nat) (read : ReadSubmission) : TcpServer :=
  if !s.isRunning then s
  else
    match s.sessions.lookup socket with
    | none => s
    | some c =>
        match read with
        | .done => { s with reads := s.reads ++ (s.owner socket).toList.map (⟨·, socket⟩) }
        | .benign => s.handleClientClose socket false "Connection closed while rearming read"
        | .failed => { s with tasks := s.tasks ++ [.close ⟨c, socket⟩] }

def handleAccept (s : TcpServer) (o : Operation) (prepared : Bool) (read : ReadSubmission) :
    TcpServer :=
  if !s.isRunning || !prepared then s.closesocket o.socket
  else
    submitRead { s.update o.connection (Connection.tell .onAccept) with
      sessions := s.sessions.insert o.socket o.connection } o.socket read

def handleReceive (s : TcpServer) (o : Operation) (buffer : List UInt8) (error : Nat)
    (read : ReadSubmission) : TcpServer :=
  match (ReceiveTask.mk buffer.length error).handleReceive with
  | some (isError, reason) => s.handleClientClose o.socket isError reason
  | none =>
      match s.sessions.lookup o.socket with
      | none => s
      | some c =>
          if !s.isRunning then s.update c (Connection.tell (.onReceive o.connection buffer))
          else (s.update c (Connection.tell (.onReceive o.connection buffer))).submitRead
            o.socket read

def handleSend (s : TcpServer) (socket error : Nat) : TcpServer :=
  if error = 0 then s
  else if !s.isRunning || s.sessions.lookup socket = none ||
      isExpectedSocketShutdownError error then
    s
  else s.handleClientClose socket true ("Send error: " ++ toString error)

def stop (s : TcpServer) : TcpServer :=
  { s.sessions.keys.foldl closesocket s with isRunning := false, sessions := ∅ }

def task (s : TcpServer) (prepared : Bool) (read : ReadSubmission) : ServerTask → TcpServer
  | .accept o => s.handleAccept o prepared read
  | .receive o buffer error => s.handleReceive o buffer error read
  | .close o => s.handleClientClose o.socket true "Failed to submit read request"

/-- The system makes a socket under any number that is not in use. -/
def submitAccept (s : TcpServer) (socket : Nat) : Option TcpServer :=
  if s.isRunning ∧ s.owner socket = none ∧ socket ∉ s.accepts then
    some { s with accepts := s.accepts ++ [socket] }
  else none

/-- The callback of `SubmitAccept`; a socket whose accept failed is closed before it. -/
def completeAccept (s : TcpServer) (i : Nat) (success : Bool) : Option TcpServer :=
  s.accepts[i]?.map fun socket =>
    let s := { s with accepts := s.accepts.eraseIdx i }
    if success then
      { s with
        connections := s.connections ++ [.accepted socket]
        tasks := s.tasks ++ [.accept ⟨s.connections.length, socket⟩] }
    else s

/-- What a read that ends well has returned is the connection's. -/
def completeRead (s : TcpServer) (i : Nat) (buffer : List UInt8) (error : Nat) :
    Option TcpServer :=
  s.reads[i]?.map fun o =>
    { s with
      connections :=
        if error = 0 ∧ buffer ≠ [] then s.connections.modify o.connection (.receive buffer)
        else s.connections
      reads := s.reads.eraseIdx i
      tasks := s.tasks ++ [.receive o buffer error] }

def send (s : TcpServer) (session : Nat) (buffer : List UInt8) (success : Bool) :
    Option TcpServer :=
  match s.connections[session]? with
  | none => none
  | some x =>
      if x.told = [] then none
      else if buffer = [] ∨ !s.isRunning ∨ !success then some s
      else (s.owner x.socket).map fun c => { s with writes := s.writes ++ [⟨c, x.socket⟩] }

def completeWrite (s : TcpServer) (i error : Nat) : Option TcpServer :=
  s.writes[i]?.map fun o =>
    let s := { s with writes := s.writes.eraseIdx i }
    if s.isRunning then s.handleSend o.socket error else s

def runTask (s : TcpServer) (prepared : Bool) (read : ReadSubmission) : Option TcpServer :=
  match s.tasks with
  | [] => none
  | t :: rest => some (task { s with tasks := rest } prepared read t)

def step (s : TcpServer) : ServerAct → Option TcpServer
  | .start => some { s with isRunning := true }
  | .stop => some s.stop
  | .submitAccept socket => s.submitAccept socket
  | .completeAccept i success => s.completeAccept i success
  | .completeRead i buffer error => s.completeRead i buffer error
  | .runTask prepared read => s.runTask prepared read
  | .send session buffer success => s.send session buffer success
  | .completeWrite i error => s.completeWrite i error

def machine : Machine TcpServer ServerAct where
  init s := s = initialised
  step := step

end TcpServer

end Lmnet.Windows
