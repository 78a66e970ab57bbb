import Lmnet.IoUring.StreamSession

set_option autoImplicit false

namespace Lmnet.IoUring

structure UnixSession where
  nativeHandle : Fd
  stream : Stream
  expired : Bool
  deriving DecidableEq, Repr

/-- Sessions are numbered as they are made, and `sessions` holds those numbers;
`calls` are the calls of the listener. -/
structure UnixServer where
  isRunning : Bool
  socket : Fd
  sessions : FdMap Nat
  accepted : List UnixSession
  calls : List ListenerCall

/-- `again` marks a write whose failure ends in a second `FailStreamWrite`, in
the callback that queued it. -/
inductive UnixOp where
  | accept
  | recvMsg (clientFd : Fd)
  | write (c : Nat) (again : Bool)
  | sendMsg (c : Nat) (buffer : List UInt8)
  | close
  | other
  deriving DecidableEq, Repr

inductive UnixCode where
  | submitAccept
  | handleAccept (clientFd : Int)
  | resubmitAccept (result : Int)
  | submitRead (clientFd : Fd)
  | handleConnectionClose (clientFd : Fd)
  | directClose
  | stop
  | send (c : Nat) (buffer : List UInt8)
  | sendUnixMessage (c : Nat) (buffer : List UInt8)
  | queueStreamWrite (c : Nat) (buffer : List UInt8) (again : Bool)
  | submitNextStreamWrite (c : Nat) (again : Bool)
  | failStreamWrite (c : Nat)
  | expire (c : Nat)
  | other (type : RequestType) (fd : Fd)
  deriving DecidableEq, Repr

namespace UnixServer

def initialised (fd : Fd) : UnixServer := ⟨true, fd, ∅, [], []⟩

def submitAccept (st : UnixServer) : List (Call UnixOp UnixCode) :=
  if st.isRunning then [.submit .accept st.socket .accept] else []

def handleAccept (st : UnixServer) (clientFd : Int) : UnixServer × List (Call UnixOp UnixCode) :=
  if 0 ≤ clientFd then
    ({ st with
        sessions := st.sessions.insert clientFd st.accepted.length
        accepted := st.accepted ++ [⟨clientFd, .empty, false⟩]
        calls := st.calls ++ [.onAccept st.accepted.length] },
      [.code (.submitRead clientFd)])
  else (st, [])

/-- "Always try to accept the next connection". -/
def resubmitAccept (st : UnixServer) (result : Int) : List (Call UnixOp UnixCode) :=
  if st.isRunning && shouldResubmitAccept result then [.code .submitAccept] else []

def submitRead (st : UnixServer) (clientFd : Fd) : List (Call UnixOp UnixCode) :=
  if st.isRunning then [.submit .recvMsg clientFd (.recvMsg clientFd)] else []

/-- `EWOULDBLOCK` is `EAGAIN`. -/
def handleReceiveWithFds (st : UnixServer) (clientFd : Fd) (bytesRead : Int) :
    UnixServer × List (Call UnixOp UnixCode) :=
  match st.sessions.lookup clientFd with
  | none => (st, [])
  | some c =>
      if 0 < bytesRead then
        ({ st with calls := st.calls ++ [.onReceive c] }, [.code (.submitRead clientFd)])
      else if bytesRead = 0 then (st, [.code (.handleConnectionClose clientFd)])
      else if bytesRead = -EAGAIN then (st, [.code (.submitRead clientFd)])
      else if st.isRunning then
        ({ st with calls := st.calls ++ [.onError c] },
          [.code (.handleConnectionClose clientFd)])
      else (st, [])

def handleConnectionClose (st : UnixServer) (clientFd : Fd) :
    UnixServer × List (Call UnixOp UnixCode) :=
  match st.sessions.lookup clientFd with
  | none => (st, [.submit .close clientFd .close])
  | some c =>
      ({ st with
          sessions := st.sessions.erase clientFd
          calls := st.calls ++ [.onClose c] },
        [.submit .close clientFd .close])

def stop (st : UnixServer) : UnixServer × List (Call UnixOp UnixCode) :=
  if st.isRunning then
    ({ st with isRunning := false, sessions := ∅, socket := invalidSocket },
      st.sessions.entries.map (fun e => .submit .close e.1 .close) ++
        if st.socket ≠ invalidSocket then [.submit .close st.socket .close] else [])
  else (st, [])

def setStream (st : UnixServer) (c : Nat) (stream : Stream) : UnixServer :=
  { st with accepted := st.accepted.modify c fun x => { x with stream := stream } }

def writeNext (c : Nat) (again : Bool) : WriteNext → List (Call UnixOp UnixCode)
  | .done => []
  | .submitNext => [.code (.submitNextStreamWrite c again)]
  | .fail => [.code (.failStreamWrite c)]

def queueStreamWrite (st : UnixServer) (c : Nat) (buffer : List UInt8) (again : Bool) :
    UnixServer × List (Call UnixOp UnixCode) :=
  match st.accepted[c]? with
  | none => (st, [])
  | some x =>
      (st.setStream c (x.stream.queueStreamWrite buffer).1,
        writeNext c again (x.stream.queueStreamWrite buffer).2)

def submitNextStreamWrite (st : UnixServer) (c : Nat) (again : Bool) :
    UnixServer × List (Call UnixOp UnixCode) :=
  match st.accepted[c]? with
  | none => (st, [])
  | some x =>
      (st.setStream c x.stream.submitNextStreamWrite.1,
        if x.stream.submitNextStreamWrite.2 then [.submit .write x.nativeHandle (.write c again)]
        else [])

def handleStreamWriteComplete (st : UnixServer) (c : Nat) (result : Int) :
    UnixServer × List (Call UnixOp UnixCode) :=
  match st.accepted[c]? with
  | none => (st, [])
  | some x =>
      (st.setStream c (x.stream.handleStreamWriteComplete result).1,
        writeNext c false (x.stream.handleStreamWriteComplete result).2)

/-- The `errorHandler_` of a Unix session is `HandleConnectionClose`. -/
def failStreamWrite (st : UnixServer) (c : Nat) : UnixServer × List (Call UnixOp UnixCode) :=
  match st.accepted[c]? with
  | none => (st, [])
  | some x =>
      (st.setStream c x.stream.failStreamWrite, [.code (.handleConnectionClose x.nativeHandle)])

/-- The callback of `SendUnixMessage`: it looks the session up through a weak
pointer, and queues what a partial send has left. -/
def sendMsgComplete (st : UnixServer) (c : Nat) (buffer : List UInt8) (result : Int) :
    UnixServer × List (Call UnixOp UnixCode) :=
  match st.accepted[c]? with
  | none => (st, [])
  | some x =>
      if x.expired then (st, [])
      else if result ≤ 0 then (st, [.code (.failStreamWrite c)])
      else if result.toNat < buffer.length then
        (st, [.code (.queueStreamWrite c (buffer.drop result.toNat) true)])
      else (st, [])

def sendUnixMessage (st : UnixServer) (c : Nat) (buffer : List UInt8) :
    List (Call UnixOp UnixCode) :=
  match st.accepted[c]? with
  | none => []
  | some x => [.submit .sendMsg x.nativeHandle (.sendMsg c buffer)]

def expire (st : UnixServer) (c : Nat) : UnixServer :=
  { st with accepted := st.accepted.modify c fun x => { x with expired := true } }

def code (st : UnixServer) : UnixCode → UnixServer × List (Call UnixOp UnixCode)
  | .submitAccept => (st, st.submitAccept)
  | .handleAccept clientFd => st.handleAccept clientFd
  | .resubmitAccept result => (st, st.resubmitAccept result)
  | .submitRead clientFd => (st, st.submitRead clientFd)
  | .handleConnectionClose clientFd => st.handleConnectionClose clientFd
  | .directClose => (st, [])
  | .stop => st.stop
  | .send c buffer =>
      (st, if buffer.isEmpty then [] else [.code (.queueStreamWrite c buffer false)])
  | .sendUnixMessage c buffer => (st, st.sendUnixMessage c buffer)
  | .queueStreamWrite c buffer again => st.queueStreamWrite c buffer again
  | .submitNextStreamWrite c again => st.submitNextStreamWrite c again
  | .failStreamWrite c => st.failStreamWrite c
  | .expire c => (st.expire c, [])
  | .other type fd => (st, [.submit type fd .other])

def callback (st : UnixServer) (op : UnixOp) (result : Int) :
    UnixServer × List (Call UnixOp UnixCode) :=
  match op with
  | .accept => (st, [.code (.handleAccept result), .code (.resubmitAccept result)])
  | .recvMsg clientFd => st.handleReceiveWithFds clientFd result
  | .write c _ => st.handleStreamWriteComplete c result
  | .sendMsg c buffer => st.sendMsgComplete c buffer result
  | .close | .other => (st, [])

def onFail : UnixOp → List UnixCode
  | .close => [.directClose]
  | .write c again => .failStreamWrite c :: if again then [.failStreamWrite c] else []
  | .accept | .recvMsg _ | .sendMsg _ _ | .other => []

def api : UnixCode → Bool
  | .send _ _ | .sendUnixMessage _ _ | .expire _ | .stop | .other _ _ => true
  | _ => false

def component : Component UnixOp UnixCode UnixServer where
  callback := callback
  onFail := onFail
  code := code
  kernel st _ _ := some st
  api := api

end UnixServer

end Lmnet.IoUring
