import Lmnet.Common
import Lmnet.IoUring.UnixOrder

/-!
The io_uring `TcpClientImpl` and `UnixClientImpl`. A call, or the callback of an operation,
is one step. A submission that fails runs its callback before it returns. Callbacks get the
client and a result, not the socket the operation was submitted on.
-/

set_option autoImplicit false

namespace Lmnet.IoUring

inductive ClientImpl where
  | tcp | unix
  deriving DecidableEq, Repr

inductive ReInitOutcome where
  | noSocket | unbound | created
  deriving DecidableEq, Repr

inductive ClientOpKind where
  | read
  | write
  | message (buffer : Option (List UInt8))
  deriving DecidableEq, Repr

/-- An operation of the ring with the `socket_` it was submitted on. -/
structure ClientOp where
  kind : ClientOpKind
  socket : Option Nat
  deriving DecidableEq, Repr

/-- The calls of the listener, and which sockets are closed. -/
inductive ClientEvent where
  | onReceive (fd : Option Nat)
  | onReceiveUnixMessage (fd : Option Nat)
  | onError (fd : Option Nat)
  | onClose (fd : Option Nat)
  | closed (fd : Nat)
  deriving DecidableEq, Repr

/-- The answers of the ring: `io_uring_submit` of a `recvmsg` returns `EAGAIN` so many
times, and then the submission succeeds or fails. -/
structure Submission where
  again : Nat
  submitted : Bool
  deriving DecidableEq, Repr

structure Completion where
  result : Int
  data : List UInt8
  fds : List Fd
  deriving DecidableEq, Repr

/-- Sockets are numbered as they are created. `listening` says that the listener is alive.
A TCP client hands its calls of the listener to its task queue; `log` has them in the order
in which they are handed over. -/
structure Client where
  isRunning : Bool
  isConnected : Bool
  socket : Option Nat
  sockets : Nat
  stream : Stream
  listening : Bool
  inFlight : List ClientOp
  log : List ClientEvent
  deriving DecidableEq, Repr

namespace Client

def created (listening : Bool) : Client :=
  ⟨false, false, none, 0, .empty, listening, [], []⟩

def post (s : Client) (kind : ClientOpKind) : Client :=
  { s with inFlight := s.inFlight ++ [⟨kind, s.socket⟩] }

def notify (s : Client) (events : List ClientEvent) : Client :=
  if s.listening then { s with log := s.log ++ events } else s

def dropSocket (s : Client) : Client :=
  match s.socket with
  | none => s
  | some fd => { s with socket := none, log := s.log ++ [.closed fd] }

/-- `ReInit`; that of a Unix client has no `bind` and forgets the old connection. -/
def reInit (impl : ClientImpl) (s : Client) (outcome : ReInitOutcome) : Client :=
  let s := s.dropSocket
  match impl, outcome with
  | _, .noSocket => s
  | .tcp, .unbound => { s with sockets := s.sockets + 1, log := s.log ++ [.closed s.sockets] }
  | .tcp, .created => { s with socket := some s.sockets, sockets := s.sockets + 1 }
  | .unix, _ =>
      { s with socket := some s.sockets, sockets := s.sockets + 1, isConnected := false }

/-- `Init`; `manager` says whether the `IoUringManager` starts. -/
def init (impl : ClientImpl) (s : Client) (outcome : ReInitOutcome) (manager : Bool) : Client :=
  let s := s.reInit impl outcome
  if s.socket = none then s
  else if manager then { s with isRunning := true }
  else s.dropSocket

end Client

namespace TcpClient

def notifyClose (s : Client) (fd : Option Nat) (isError : Bool) : Client :=
  s.notify (if isError then [.onError fd, .onClose fd] else [.onClose fd])

/-- `HandleClose`; every caller passes `socket_`. -/
def handleClose (s : Client) (isError : Bool) : Client :=
  if s.isConnected then notifyClose { s with isConnected := false } s.socket isError else s

def close (s : Client) : Client :=
  let t : Client := { s with isRunning := false, isConnected := false }
  if !s.isRunning then t
  else
    let t : Client := { t with stream := .empty }
    match t.socket with
    | none => t
    | some fd =>
        let t := t.dropSocket
        if s.isConnected then notifyClose t (some fd) false else t

/-- `SubmitRead`; when it fails, `HandleReceive` gets the error. -/
def submitRead (s : Client) (submission : Submission) : Client :=
  if !s.isRunning then s
  else if submission.submitted then s.post .read
  else close (handleClose s true)

def connect (s : Client) (connected : Bool) (outcome : ReInitOutcome) (submission : Submission) :
    Client :=
  if !s.isRunning || s.socket.isNone then s
  else if connected then submitRead { s with isConnected := true } submission
  else s.reInit .tcp outcome

def handleReceive (s : Client) (bytesRead : Int) (submission : Submission) : Client :=
  if 0 < bytesRead then submitRead (s.notify [.onReceive s.socket]) submission
  else close (handleClose s (bytesRead < 0))

/-- `SubmitNextWrite` and what it returns; when the submission fails, `HandleWriteComplete`
gets the error. -/
def submitNextWrite (s : Client) (submission : Submission) : Client × Bool :=
  match s.stream.submitNextWrite (s.isRunning && s.socket.isSome) with
  | (stream, .nothing) => ({ s with stream := stream }, true)
  | (stream, .fail) => ({ s with stream := stream }, false)
  | (stream, .submit _) =>
      let s : Client := { s with stream := stream }
      if submission.submitted then (s.post .write, true) else (close (handleClose s true), false)

def send (s : Client) (data : Option (List UInt8)) (submission : Submission) : Client :=
  match data with
  | none => s
  | some buffer =>
      if buffer.isEmpty || !s.isRunning || s.socket.isNone then s
      else
        match s.stream.queueStreamWrite buffer with
        | (stream, .submitNext) =>
            let next := submitNextWrite { s with stream := stream } submission
            if next.2 then next.1 else close (handleClose next.1 true)
        | (stream, _) => { s with stream := stream }

def handleWriteComplete (s : Client) (result : Int) (submission : Submission) : Client :=
  match s.stream.handleWriteComplete result with
  | (stream, .done) => { s with stream := stream }
  | (stream, .fail) => close (handleClose { s with stream := stream } true)
  | (stream, .submitNext) =>
      let next := submitNextWrite { s with stream := stream } submission
      if next.2 then next.1 else close (handleClose next.1 true)

end TcpClient

namespace UnixClient

def handleClose (s : Client) : Client :=
  let t : Client := { s with stream := .empty, isConnected := false }
  let t := if s.isConnected then t.notify [.onClose s.socket] else t
  t.dropSocket

def close (s : Client) : Client :=
  if s.isRunning then handleClose { s with isRunning := false } else s

def failWith (s : Client) (fd : Option Nat) : Client := handleClose (s.notify [.onError fd])

def readFailed (s : Client) : Client := if s.isRunning then failWith s s.socket else s

/-- `StartReceive` and what it returns; the callback of a submission that fails with
`EAGAIN` starts anew. -/
def startReceive (s : Client) (submitted : Bool) : Nat → Client × Bool
  | 0 =>
      if !s.isRunning || !s.isConnected then (s, false)
      else if submitted then (s.post .read, true)
      else (readFailed s, false)
  | again + 1 =>
      if !s.isRunning || !s.isConnected then (s, false)
      else ((startReceive s submitted again).1, false)

def connect (s : Client) (connected : Bool) (outcome : ReInitOutcome) (submission : Submission) :
    Client :=
  if !s.isRunning then s
  else if connected && s.socket.isSome then
    let next := startReceive { s with isConnected := true } submission.submitted submission.again
    if next.2 then next.1 else handleClose next.1
  else s.reInit .unix outcome

def processClientMessage (s : Client) (data : List UInt8) (fds : List Fd) : Client :=
  let isPlaceholder := !fds.isEmpty && data = [0]
  s.notify
    (if isPlaceholder then [.onReceiveUnixMessage s.socket]
    else [.onReceive s.socket, .onReceiveUnixMessage s.socket])

/-- `HandleReceiveWithFds` up to the `StartReceive` with which it may end; says whether it
comes to that. -/
def deliver (s : Client) (completion : Completion) : Client × Bool :=
  if 0 < completion.result then
    (processClientMessage s completion.data completion.fds, true)
  else if completion.result = 0 then (handleClose s, false)
  else if completion.result = -EAGAIN then (s, true)
  else (readFailed s, false)

def handleReceiveWithFds (s : Client) (completion : Completion) (submission : Submission) :
    Client :=
  let next := deliver s completion
  if next.2 then (startReceive next.1 submission.submitted submission.again).1 else next.1

def submitNextWrite (s : Client) (submission : Submission) : Client × Bool :=
  match s.stream.submitNextWrite (s.isRunning && s.isConnected && s.socket.isSome) with
  | (stream, .nothing) => ({ s with stream := stream }, true)
  | (stream, .fail) => ({ s with stream := stream }, false)
  | (stream, .submit _) =>
      let s : Client := { s with stream := stream }
      if submission.submitted then (s.post .write, true) else (failWith s s.socket, false)

def queueStreamWrite (s : Client) (buffer : List UInt8) (submission : Submission) :
    Client × Bool :=
  match s.stream.queueStreamWrite buffer with
  | (stream, .submitNext) =>
      let next := submitNextWrite { s with stream := stream } submission
      if next.2 then next else (failWith next.1 next.1.socket, false)
  | (stream, _) => ({ s with stream := stream }, true)

def send (s : Client) (data : Option (List UInt8)) (submission : Submission) : Client :=
  match data with
  | none => s
  | some buffer =>
      if !s.isRunning || !s.isConnected || buffer.isEmpty then s
      else (queueStreamWrite s buffer submission).1

def handleWriteComplete (s : Client) (result : Int) (submission : Submission) : Client :=
  match s.stream.handleWriteComplete result with
  | (stream, .done) => { s with stream := stream }
  | (stream, .fail) => failWith { s with stream := stream } s.socket
  | (stream, .submitNext) =>
      let next := submitNextWrite { s with stream := stream } submission
      if next.2 then next.1 else failWith next.1 next.1.socket

def sendUnixMessage (s : Client) (buffer : Option (List UInt8)) (fds duplicatedFds : List Fd)
    (outcome : MessageOutcome) : Client :=
  if !fds.isEmpty && duplicatedFds.isEmpty then s
  else
    match outcome with
    | .submitted => s.post (.message buffer)
    | .failed => failWith s s.socket
    | .wrongFamily => s

def sendWithFds (s : Client) (buffer : Option (List UInt8)) (fds duplicatedFds : List Fd)
    (outcome : MessageOutcome) : Client :=
  if !s.isRunning || !s.isConnected || (noBytes buffer && fds.isEmpty) then s
  else sendUnixMessage s buffer fds duplicatedFds outcome

def remaining (buffer : Option (List UInt8)) (result : Int) : Option (List UInt8) :=
  buffer.bind fun b => if result.toNat < b.length then some (b.drop result.toNat) else none

def sendMsgComplete (s : Client) (fd : Option Nat) (buffer : Option (List UInt8)) (result : Int)
    (submission : Submission) : Client :=
  if result ≤ 0 then failWith s fd
  else
    match remaining buffer result with
    | none => s
    | some rest =>
        let next := queueStreamWrite s rest submission
        if next.2 then next.1 else failWith next.1 fd

end UnixClient

inductive ClientAct where
  | init (outcome : ReInitOutcome) (manager : Bool)
  | connect (connected : Bool) (outcome : ReInitOutcome) (submission : Submission)
  | send (data : Option (List UInt8)) (submission : Submission)
  | sendWithFds (data : Option (List UInt8)) (fds duplicatedFds : List Fd)
      (outcome : MessageOutcome)
  | close
  | complete (k : Nat) (completion : Completion) (submission : Submission)
  deriving DecidableEq, Repr

namespace Client

def handle (impl : ClientImpl) (s : Client) (op : ClientOp) (completion : Completion)
    (submission : Submission) : Client :=
  match impl, op.kind with
  | .tcp, .read => TcpClient.handleReceive s completion.result submission
  | .tcp, .write => TcpClient.handleWriteComplete s completion.result submission
  | .tcp, .message _ => s
  | .unix, .read => UnixClient.handleReceiveWithFds s completion submission
  | .unix, .write => UnixClient.handleWriteComplete s completion.result submission
  | .unix, .message buffer =>
      UnixClient.sendMsgComplete s op.socket buffer completion.result submission

def step (impl : ClientImpl) (s : Client) : ClientAct → Option Client
  | .init outcome manager => some (s.init impl outcome manager)
  | .connect connected outcome submission =>
      some (match impl with
        | .tcp => TcpClient.connect s connected outcome submission
        | .unix => UnixClient.connect s connected outcome submission)
  | .send data submission =>
      some (match impl with
        | .tcp => TcpClient.send s data submission
        | .unix => UnixClient.send s data submission)
  | .sendWithFds data fds duplicatedFds outcome =>
      match impl with
      | .tcp => none
      | .unix => some (UnixClient.sendWithFds s data fds duplicatedFds outcome)
  | .close =>
      some (match impl with
        | .tcp => TcpClient.close s
        | .unix => UnixClient.close s)
  | .complete k completion submission =>
      s.inFlight[k]?.map fun op =>
        handle impl { s with inFlight := s.inFlight.eraseIdx k } op completion submission

def machine (impl : ClientImpl) : Machine Client ClientAct where
  init s := ∃ listening, s = created listening
  step := step impl

/-! ### What the ends of connections leave -/

@[simp] theorem stream_notify (s : Client) (events : List ClientEvent) :
    (s.notify events).stream = s.stream := by
  unfold notify
  split <;> rfl

@[simp] theorem isConnected_notify (s : Client) (events : List ClientEvent) :
    (s.notify events).isConnected = s.isConnected := by
  unfold notify
  split <;> rfl

@[simp] theorem listening_notify (s : Client) (events : List ClientEvent) :
    (s.notify events).listening = s.listening := by
  unfold notify
  split <;> rfl

@[simp] theorem inFlight_notify (s : Client) (events : List ClientEvent) :
    (s.notify events).inFlight = s.inFlight := by
  unfold notify
  split <;> rfl

@[simp] theorem stream_dropSocket (s : Client) : s.dropSocket.stream = s.stream := by
  unfold dropSocket
  split <;> rfl

@[simp] theorem isRunning_dropSocket (s : Client) : s.dropSocket.isRunning = s.isRunning := by
  unfold dropSocket
  split <;> rfl

@[simp] theorem isConnected_dropSocket (s : Client) :
    s.dropSocket.isConnected = s.isConnected := by
  unfold dropSocket
  split <;> rfl

@[simp] theorem listening_dropSocket (s : Client) : s.dropSocket.listening = s.listening := by
  unfold dropSocket
  split <;> rfl

@[simp] theorem inFlight_dropSocket (s : Client) : s.dropSocket.inFlight = s.inFlight := by
  unfold dropSocket
  split <;> rfl

theorem stream_reInit (impl : ClientImpl) (s : Client) (outcome : ReInitOutcome) :
    (s.reInit impl outcome).stream = s.stream := by
  cases impl <;> cases outcome <;> exact stream_dropSocket s

theorem isRunning_reInit (impl : ClientImpl) (s : Client) (outcome : ReInitOutcome) :
    (s.reInit impl outcome).isRunning = s.isRunning := by
  cases impl <;> cases outcome <;> exact isRunning_dropSocket s

theorem isConnected_reInit {impl : ClientImpl} {s : Client} {outcome : ReInitOutcome}
    (h : s.isConnected = false) : (s.reInit impl outcome).isConnected = false := by
  have hdropped := (isConnected_dropSocket s).trans h
  cases impl <;> cases outcome <;> first | exact hdropped | rfl

theorem listening_reInit (impl : ClientImpl) (s : Client) (outcome : ReInitOutcome) :
    (s.reInit impl outcome).listening = s.listening := by
  cases impl <;> cases outcome <;> exact listening_dropSocket s

theorem inFlight_reInit (impl : ClientImpl) (s : Client) (outcome : ReInitOutcome) :
    (s.reInit impl outcome).inFlight = s.inFlight := by
  cases impl <;> cases outcome <;> exact inFlight_dropSocket s

/-- `Init` drops the socket it has just got, or keeps what `ReInit` leaves. -/
theorem init_cases (impl : ClientImpl) (s : Client) (outcome : ReInitOutcome) (manager : Bool) :
    s.init impl outcome manager = s.reInit impl outcome ∨
      s.init impl outcome manager = { s.reInit impl outcome with isRunning := true } ∨
      s.init impl outcome manager = (s.reInit impl outcome).dropSocket := by
  unfold init
  dsimp only
  split
  · exact .inl rfl
  · split
    · exact .inr (.inl rfl)
    · exact .inr (.inr rfl)

theorem isConnected_init {impl : ClientImpl} {s : Client} {outcome : ReInitOutcome} {manager : Bool}
    (h : s.isConnected = false) : (s.init impl outcome manager).isConnected = false := by
  have hreInit := (isConnected_reInit h : (s.reInit impl outcome).isConnected = false)
  obtain h | h | h := init_cases impl s outcome manager <;> simp [h, hreInit]

theorem inFlight_init (impl : ClientImpl) (s : Client) (outcome : ReInitOutcome) (manager : Bool) :
    (s.init impl outcome manager).inFlight = s.inFlight := by
  obtain h | h | h := init_cases impl s outcome manager <;> simp [h, inFlight_reInit]

theorem stream_init (impl : ClientImpl) (s : Client) (outcome : ReInitOutcome) (manager : Bool) :
    (s.init impl outcome manager).stream = s.stream := by
  obtain h | h | h := init_cases impl s outcome manager <;> simp [h, stream_reInit]

theorem listening_init (impl : ClientImpl) (s : Client) (outcome : ReInitOutcome)
    (manager : Bool) : (s.init impl outcome manager).listening = s.listening := by
  obtain h | h | h := init_cases impl s outcome manager <;> simp [h, listening_reInit]

end Client

namespace UnixClient

@[simp] theorem isConnected_handleClose (s : Client) : (handleClose s).isConnected = false := by
  unfold handleClose
  dsimp only
  rw [Client.isConnected_dropSocket]
  split <;> simp

@[simp] theorem listening_handleClose (s : Client) : (handleClose s).listening = s.listening := by
  unfold handleClose
  dsimp only
  rw [Client.listening_dropSocket]
  split <;> simp

@[simp] theorem inFlight_handleClose (s : Client) : (handleClose s).inFlight = s.inFlight := by
  unfold handleClose
  dsimp only
  rw [Client.inFlight_dropSocket]
  split <;> simp

theorem listening_close (s : Client) : (close s).listening = s.listening := by
  unfold close
  split <;> simp

theorem listening_readFailed (s : Client) : (readFailed s).listening = s.listening := by
  unfold readFailed failWith
  split <;> simp

end UnixClient

end Lmnet.IoUring
