import Lmnet.Common
import Lmnet.Lib.Machine

/-!
One direction of a Unix connection of the epoll backend: the `Send` calls of one
end, its `ProcessSendQueue`, the stream socket, and the `HandleReceive` of the
other end. Server and client have the same code but for what their calls accept.
-/

set_option autoImplicit false

namespace Lmnet.Epoll

/-- Which end sends: `UnixClientImpl`, or a `UnixSessionImpl` of the server. -/
inductive Sender where
  | client | session
  deriving DecidableEq, Repr

/-- A byte on the wire, and whether `ProcessSendQueue` made it up. -/
structure WireByte where
  value : UInt8
  isPlaceholder : Bool
  deriving DecidableEq, Repr

def WireByte.placeholder : WireByte := ⟨0, true⟩

structure PendingSend where
  data : Option DataBuffer
  offset : Nat
  fds : List Fd
  fdsSent : Bool
  deriving DecidableEq, Repr

structure Segment where
  bytes : List WireByte
  fds : List Fd
  deriving DecidableEq, Repr

inductive SendCall where
  | send (data : Option DataBuffer)
  | sendFds (fds : List Fd)
  | sendWithFds (data : Option DataBuffer) (fds : List Fd)
  deriving DecidableEq, Repr

/-- What `sendmsg` returns: a count, of which the kernel puts the first `head`
bytes in the segment that carries descriptors, or -1 with `EAGAIN`, or -1 with
another error. -/
inductive SendmsgResult where
  | bytes (n head : Nat)
  | wouldBlock
  | error
  deriving DecidableEq, Repr

/-- `duplicated` is what `DuplicateFds` returns, if the call comes to it. -/
inductive ChannelAct where
  | call (c : SendCall) (duplicated : List Fd)
  | front
  | sendmsg (r : SendmsgResult)
  | close
  | recvmsg (n : Nat)
  deriving DecidableEq, Repr

def noData : Option DataBuffer → Bool
  | none => true
  | some d => d.size == 0

namespace PendingSend

def hasData (p : PendingSend) : Bool :=
  match p.data with
  | none => false
  | some d => p.offset < d.size

def iov (p : PendingSend) : List WireByte :=
  match p.data with
  | none => [.placeholder]
  | some d =>
      if p.offset < d.size then (d.bytes.drop p.offset).map fun b => ⟨b, false⟩
      else [.placeholder]

def control (p : PendingSend) : List Fd := if p.fdsSent then [] else p.fds

def updated (p : PendingSend) (sentBytes : Nat) : PendingSend :=
  match p.data with
  | none => ⟨none, 1, [], true⟩
  | some d =>
      if p.offset < d.size then
        ⟨if d.size ≤ p.offset + sentBytes then none else some d, p.offset + sentBytes, [], true⟩
      else ⟨some d, 1, [], true⟩

/-- Buffers are compared by address. -/
def same (p q : PendingSend) : Bool :=
  p.data.map DataBuffer.ptr == q.data.map DataBuffer.ptr && p.offset == q.offset &&
    p.fdsSent == q.fdsSent && p.fds == q.fds

end PendingSend

/-- `sending` is the copy that `ProcessSendQueue` holds between its two critical
sections. `accepted` is the data of the accepted calls; `received` and `messages`
are what `OnReceive` and `OnReceiveUnixMessage` were called with, and `dropped`
what was kept from `OnReceive`. -/
structure Channel where
  isOpen : Bool
  sendQueue : List PendingSend
  sending : Option PendingSend
  stream : List Segment
  accepted : List UInt8
  received : List (List WireByte)
  messages : List (Option (List WireByte) × List Fd)
  dropped : List WireByte
  deriving DecidableEq, Repr

namespace Channel

def connected : Channel := ⟨true, [], none, [], [], [], [], []⟩

def queueSend (s : Channel) (p : PendingSend) : Channel :=
  if noData p.data && p.fds.isEmpty then s else { s with sendQueue := s.sendQueue ++ [p] }

def acceptData (s : Channel) (data : Option DataBuffer) : Channel :=
  { s with accepted := s.accepted ++ (data.map DataBuffer.bytes).getD [] }

/-- `SendWithFds` of both ends; a client returns true for an empty message, and a
server false. -/
def sendWithFds (sender : Sender) (s : Channel) (data : Option DataBuffer)
    (fds duplicated : List Fd) : Channel × Bool :=
  if noData data && fds.isEmpty then (s, sender == .client)
  else if !fds.isEmpty && duplicated.isEmpty then (s, false)
  else
    (((s.acceptData data).queueSend ⟨data, 0, if fds.isEmpty then [] else duplicated, false⟩), true)

def call (sender : Sender) (s : Channel) (c : SendCall) (duplicated : List Fd) : Channel × Bool :=
  match sender, c with
  | .client, .send data => if noData data then (s, false) else sendWithFds .client s data [] []
  | .client, .sendFds fds =>
      if fds.isEmpty then (s, false) else sendWithFds .client s none fds duplicated
  | .session, .send data =>
      if data.isNone then (s, false) else sendWithFds .session s data [] []
  | .session, .sendFds fds => sendWithFds .session s none fds duplicated
  | sender, .sendWithFds data fds => sendWithFds sender s data fds duplicated

def front (s : Channel) : Option Channel :=
  match s.sendQueue with
  | [] => none
  | p :: _ => some { s with sending := some p }

/-- What the kernel makes of `n` bytes sent, `head` of them in the first segment. -/
def segments (p : PendingSend) (n head : Nat) : List Segment :=
  ⟨p.iov.take head, p.control⟩ :: if head < n then [⟨(p.iov.take n).drop head, []⟩] else []

/-- `sendmsg` and the critical section after it. Of at least one byte the kernel
takes at least one; an error closes the connection. -/
def sendmsg (s : Channel) (p : PendingSend) : SendmsgResult → Option Channel
  | .wouldBlock => some { s with sending := none }
  | .error => some { s with sending := none, sendQueue := s.sendQueue.tail, isOpen := false }
  | .bytes n head =>
      if 1 ≤ head ∧ head ≤ n ∧ n ≤ p.iov.length then
        match s.sendQueue with
        | [] => some { s with sending := none, stream := s.stream ++ segments p n head }
        | q :: rest =>
            if q.same p then
              some { s with
                sending := none
                stream := s.stream ++ segments p n head
                sendQueue := if (p.updated n).hasData then p.updated n :: rest else rest }
            else some { s with sending := none, stream := s.stream ++ segments p n head }
      else none

/-- Up to `n` bytes from the front of the stream, ending with the first segment
that carries descriptors: the bytes, the descriptors, and what is left. -/
def take : List Segment → Nat → List WireByte × List Fd × List Segment
  | [], _ => ([], [], [])
  | seg :: rest, n =>
      if n = 0 then ([], [], seg :: rest)
      else if n < seg.bytes.length then
        (seg.bytes.take n, seg.fds, ⟨seg.bytes.drop n, []⟩ :: rest)
      else if seg.fds.isEmpty then
        (seg.bytes ++ (take rest (n - seg.bytes.length)).1,
          (take rest (n - seg.bytes.length)).2.1, (take rest (n - seg.bytes.length)).2.2)
      else (seg.bytes, seg.fds, rest)

def MAX_FDS_PER_MESSAGE : Nat := 16

def isPlaceholder (buffer : List WireByte) (fds : List Fd) : Bool :=
  !fds.isEmpty && buffer.map WireByte.value == [0]

def processMessage (s : Channel) (buffer : Option (List WireByte)) (fds : List Fd) : Channel :=
  let placeholder := (buffer.map (isPlaceholder · fds)).getD false
  let s :=
    match buffer with
    | none => s
    | some bytes =>
        if !placeholder && !bytes.isEmpty then { s with received := s.received ++ [bytes] } else s
  if !placeholder || !fds.isEmpty then
    { s with messages := s.messages ++ [(if placeholder then none else buffer, fds)] }
  else s

def processServerMessage (s : Channel) (buffer : Option (List WireByte)) (fds : List Fd) :
    Channel :=
  s.processMessage buffer fds

def processClientMessage (s : Channel) (buffer : Option (List WireByte)) (fds : List Fd) :
    Channel :=
  s.processMessage buffer fds

def receiveTask (sender : Sender) (s : Channel) (buffer : Option (List WireByte))
    (fds : List Fd) : Channel :=
  match sender with
  | .client => s.processServerMessage buffer fds
  | .session => s.processClientMessage buffer fds

def handleReceive (sender : Sender) (s : Channel) (bytes : List WireByte) (fds : List Fd) :
    Channel :=
  let receivedFds := fds.take MAX_FDS_PER_MESSAGE
  if isPlaceholder bytes receivedFds then
    { receiveTask sender s none receivedFds with dropped := s.dropped ++ bytes }
  else receiveTask sender s (some bytes) receivedFds

def recvmsg (sender : Sender) (s : Channel) (n : Nat) : Option Channel :=
  if n = 0 ∨ s.stream = [] then none
  else some (handleReceive sender { s with stream := (take s.stream n).2.2 } (take s.stream n).1
    (take s.stream n).2.1)

def step (sender : Sender) (s : Channel) : ChannelAct → Option Channel
  | .call c duplicated => if s.isOpen then some (s.call sender c duplicated).1 else none
  | .front => if s.isOpen && s.sending.isNone then s.front else none
  | .sendmsg r => s.sending.bind fun p => s.sendmsg p r
  -- a round that another thread is in goes on to its `sendmsg`
  | .close => if s.isOpen then some { s with isOpen := false } else none
  | .recvmsg n => s.recvmsg sender n

def machine (sender : Sender) : Machine Channel ChannelAct where
  init s := s = connected
  step := step sender

end Channel

end Lmnet.Epoll
