import Lmnet.IoUring.StreamSession

/-!
`TcpServerImpl` of the io_uring backend, and the kernel's table of socket
numbers as far as the server's accepts and closes change it.
-/

set_option autoImplicit false

namespace Lmnet.IoUring

/-- An accepted connection: its socket number, whether that is still open, and
its session once `HandleAccept` has made one. -/
structure Connection where
  fd : Fd
  isOpen : Bool
  session : Option Stream
  deriving DecidableEq, Repr

/-- Connections are numbered as the kernel accepts them, and `sessions` holds
those numbers. `tasks` are the listener calls queued on `taskQueue_`. The last
three fields record what happens: the listening socket while it is open, the
connections handed to close, and for every close and every removal of a session
on whose behalf it was issued and which connection it hit. -/
structure TcpServer where
  isRunning : Bool
  socket : Fd
  sessions : FdMap Nat
  connections : List Connection
  tasks : List ListenerCall
  listening : Option Fd
  handed : List Nat
  hits : List (Nat × Nat)

/-- An operation names the connection whose socket number it was given. -/
inductive TcpOp where
  | accept
  | read (c : Nat)
  | write (c : Nat)
  | close (c : Nat)
  | closeDisconnected (c : Nat)
  | closeListener
  | other
  deriving DecidableEq, Repr

inductive TcpCode where
  | submitAccept
  | handleAccept (clientFd : Fd)
  | resubmitAccept (result : Int)
  | submitRead (c : Nat)
  | handleConnectionClose (c : Nat) (closeFd isError : Bool)
  | closeClient (c : Nat)
  | directClose (c : Nat)
  | disconnect (c : Nat)
  | stop
  | closeSessions
  | clearSessions
  | directCloseListener
  | send (c : Nat) (buffer : List UInt8)
  | queueStreamWrite (c : Nat) (buffer : List UInt8)
  | submitNextStreamWrite (c : Nat)
  | failStreamWrite (c : Nat)
  | other (type : RequestType) (fd : Fd)
  deriving DecidableEq, Repr

namespace TcpServer

def initialised (fd : Fd) : TcpServer := ⟨true, fd, ∅, [], [], some fd, [], []⟩

/-- The socket number of a connection, which is its session's `NativeHandle`. -/
def nativeHandle (st : TcpServer) (c : Nat) : Fd :=
  ((st.connections[c]?).map Connection.fd).getD invalidSocket

def taken (st : TcpServer) (fd : Fd) : Bool :=
  st.connections.any (fun x => x.fd == fd && x.isOpen) || st.listening == some fd

/-- The kernel closes a socket number, on behalf of connection `c`: what it hits
is the connection that has the number now. -/
def closeNumber (st : TcpServer) (c : Nat) : TcpServer :=
  match st.connections.findIdx? (fun x => x.fd == st.nativeHandle c && x.isOpen) with
  | none => st
  | some d => { st with
      connections := st.connections.modify d fun x => { x with isOpen := false }
      hits := st.hits ++ [(c, d)] }

theorem closeNumber_isRunning (st : TcpServer) (c : Nat) :
    (st.closeNumber c).isRunning = st.isRunning := by
  unfold closeNumber
  split <;> rfl

def submitAccept (st : TcpServer) : List (Call TcpOp TcpCode) :=
  if st.isRunning then [.submit .accept st.socket .accept] else []

/-- The connection accepted with this number is the one that has no session yet. -/
def handleAccept (st : TcpServer) (clientFd : Fd) : TcpServer × List (Call TcpOp TcpCode) :=
  match st.connections.findIdx? (fun x => x.fd == clientFd && x.session.isNone) with
  | none => (st, [])
  | some c =>
      ({ st with
          connections := st.connections.modify c fun x => { x with session := some .empty }
          sessions := st.sessions.insert clientFd c
          tasks := st.tasks ++ [.onAccept c] },
        [.code (.submitRead c)])

def onAccepted (st : TcpServer) (clientFd : Int) : TcpServer × List (Call TcpOp TcpCode) :=
  (st, (if 0 ≤ clientFd then [.code (.handleAccept clientFd)] else []) ++
    [.code (.resubmitAccept clientFd)])

def resubmitAccept (st : TcpServer) (result : Int) : List (Call TcpOp TcpCode) :=
  if st.isRunning && shouldResubmitAccept result then [.code .submitAccept] else []

def submitRead (st : TcpServer) (c : Nat) : List (Call TcpOp TcpCode) :=
  if st.isRunning then [.submit .read (st.nativeHandle c) (.read c)] else []

def handleReceive (st : TcpServer) (c : Nat) (bytesRead : Int) :
    TcpServer × List (Call TcpOp TcpCode) :=
  if 0 < bytesRead then
    ({ st with tasks := st.tasks ++ [.onReceive c] }, [.code (.submitRead c)])
  else if bytesRead = 0 then (st, [.code (.handleConnectionClose c true false)])
  else (st, [.code (.handleConnectionClose c true true)])

/-- `HandleConnectionClose(session->NativeHandle(), …)`: the session it finds is
the one that has the number in `sessions_`. -/
def handleConnectionClose (st : TcpServer) (c : Nat) (closeFd isError : Bool) :
    TcpServer × List (Call TcpOp TcpCode) :=
  let closes := if closeFd then [.code (.closeClient c)] else []
  match st.sessions.lookup (st.nativeHandle c) with
  | none => (st, closes)
  | some d =>
      ({ st with
          sessions := st.sessions.erase (st.nativeHandle c)
          tasks := st.tasks ++ ((if isError then [.onError d] else []) ++ [.onClose d])
          hits := st.hits ++ [(c, d)] },
        closes)

def closeClient (st : TcpServer) (c : Nat) : TcpServer × List (Call TcpOp TcpCode) :=
  ({ st with handed := st.handed ++ [c] }, [.submit .close (st.nativeHandle c) (.close c)])

def disconnect (st : TcpServer) (c : Nat) : TcpServer × List (Call TcpOp TcpCode) :=
  if !st.isRunning then (st, [])
  else match st.sessions.lookup (st.nativeHandle c) with
    | none => (st, [])
    | some _ =>
        ({ st with handed := st.handed ++ [c] },
          [.submit .close (st.nativeHandle c) (.closeDisconnected c)])

def stop (st : TcpServer) : TcpServer × List (Call TcpOp TcpCode) :=
  if st.isRunning then
    ({ st with isRunning := false, socket := invalidSocket },
      (if st.socket ≠ invalidSocket then [.submit .close st.socket .closeListener] else []) ++
        [.code .closeSessions])
  else (st, [])

theorem stop_not_running (st : TcpServer) : st.stop.1.isRunning = false := by
  unfold stop
  split
  · rfl
  · simpa using ‹¬ st.isRunning = true›

def closeSessions (st : TcpServer) : List (Call TcpOp TcpCode) :=
  st.sessions.entries.map (fun e => .code (.closeClient e.2)) ++ [.code .clearSessions]

def setSession (st : TcpServer) (c : Nat) (stream : Stream) : TcpServer :=
  { st with connections := st.connections.modify c fun x => { x with session := some stream } }

def session (st : TcpServer) (c : Nat) : Option Stream := st.connections[c]?.bind Connection.session

def writeNext (c : Nat) : WriteNext → List (Call TcpOp TcpCode)
  | .done => []
  | .submitNext => [.code (.submitNextStreamWrite c)]
  | .fail => [.code (.failStreamWrite c)]

def queueStreamWrite (st : TcpServer) (c : Nat) (buffer : List UInt8) :
    TcpServer × List (Call TcpOp TcpCode) :=
  match st.session c with
  | none => (st, [])
  | some stream =>
      (st.setSession c (stream.queueStreamWrite buffer).1,
        writeNext c (stream.queueStreamWrite buffer).2)

def submitNextStreamWrite (st : TcpServer) (c : Nat) : TcpServer × List (Call TcpOp TcpCode) :=
  match st.session c with
  | none => (st, [])
  | some stream =>
      (st.setSession c stream.submitNextStreamWrite.1,
        if stream.submitNextStreamWrite.2 then [.submit .write (st.nativeHandle c) (.write c)]
        else [])

def handleStreamWriteComplete (st : TcpServer) (c : Nat) (result : Int) :
    TcpServer × List (Call TcpOp TcpCode) :=
  match st.session c with
  | none => (st, [])
  | some stream =>
      (st.setSession c (stream.handleStreamWriteComplete result).1,
        writeNext c (stream.handleStreamWriteComplete result).2)

/-- The `errorHandler_` of a TCP session is `Disconnect`. -/
def failStreamWrite (st : TcpServer) (c : Nat) : TcpServer × List (Call TcpOp TcpCode) :=
  match st.session c with
  | none => (st, [])
  | some stream => (st.setSession c stream.failStreamWrite, [.code (.disconnect c)])

def code (st : TcpServer) : TcpCode → TcpServer × List (Call TcpOp TcpCode)
  | .submitAccept => (st, st.submitAccept)
  | .handleAccept clientFd => st.handleAccept clientFd
  | .resubmitAccept result => (st, st.resubmitAccept result)
  | .submitRead c => (st, st.submitRead c)
  | .handleConnectionClose c closeFd isError => st.handleConnectionClose c closeFd isError
  | .closeClient c => st.closeClient c
  | .directClose c => (st.closeNumber c, [])
  | .disconnect c => st.disconnect c
  | .stop => st.stop
  | .closeSessions => (st, st.closeSessions)
  | .clearSessions => ({ st with sessions := ∅ }, [])
  | .directCloseListener => ({ st with listening := none }, [])
  | .send c buffer => (st, if buffer.isEmpty then [] else [.code (.queueStreamWrite c buffer)])
  | .queueStreamWrite c buffer => st.queueStreamWrite c buffer
  | .submitNextStreamWrite c => st.submitNextStreamWrite c
  | .failStreamWrite c => st.failStreamWrite c
  | .other type fd => (st, [.submit type fd .other])

def callback (st : TcpServer) (op : TcpOp) (result : Int) : TcpServer × List (Call TcpOp TcpCode) :=
  match op with
  | .accept => st.onAccepted result
  | .read c => st.handleReceive c result
  | .write c => st.handleStreamWriteComplete c result
  | .closeDisconnected c => (st, [.code (.handleConnectionClose c false false)])
  | .close _ | .closeListener | .other => (st, [])

def onFail : TcpOp → List TcpCode
  | .close c => [.directClose c]
  | .closeDisconnected c => [.directClose c, .handleConnectionClose c false false]
  | .closeListener => [.directCloseListener]
  -- in `QueueStreamWrite` as in `HandleStreamWriteComplete`
  | .write c => [.failStreamWrite c]
  | .accept | .read _ | .other => []

/-- A close that was cancelled, or found no such number, has closed nothing. -/
def closed (result : Int) : Bool := result ≠ -EBADF && result ≠ -ECANCELED

def kernel (st : TcpServer) (op : TcpOp) (result : Int) : Option TcpServer :=
  match op with
  | .accept =>
      if result < 0 then some st
      else if st.taken result then none
      else some { st with connections := st.connections ++ [⟨result, true, none⟩] }
  | .close c | .closeDisconnected c => some (if closed result then st.closeNumber c else st)
  | .closeListener => some (if closed result then { st with listening := none } else st)
  | .read _ | .write _ | .other => some st

def api : TcpCode → Bool
  | .send _ _ | .stop | .other _ _ => true
  | _ => false

def component : Component TcpOp TcpCode TcpServer where
  callback := callback
  onFail := onFail
  code := code
  kernel := kernel
  api := api

end TcpServer

end Lmnet.IoUring
