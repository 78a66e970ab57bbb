import Lmnet.UnixSocketUtils
import Lmnet.Epoll.UnixChannel

/-!
The send queue of `UnixConnectionHandler` (unix_server_impl.cpp) and of
`UnixClientHandler` (unix_client_impl.cpp), whose code is the same, with the
descriptors it owns. A step is a `SendWithFds` call, one critical section of
`ProcessSendQueue`, one `sendmsg`, or the destructor.
-/

set_option autoImplicit false

namespace Lmnet.Epoll

/-- What a `SendWithFds` call does with the duplicates it was given by
`DuplicateFds`: hand them to `QueueSend`, or close them. -/
structure SendOutcome where
  pending : Option PendingSend
  closed : List Fd
  result : Bool
  deriving DecidableEq, Repr

/-- `UnixServerImpl::SendWithFds`; `session` and `handler` say what the two
tables have for the connection. -/
def serverSendWithFds (session handler : Bool) (buffer : Option DataBuffer)
    (fds duplicatedFds : List Fd) : SendOutcome :=
  if noData buffer && fds.isEmpty then ⟨none, [], false⟩
  else
    let duplicated := if fds.isEmpty then [] else duplicatedFds
    if !fds.isEmpty && duplicated.isEmpty then ⟨none, [], false⟩
    else if !session then ⟨none, cleanupFds duplicated, false⟩
    else if handler then ⟨some ⟨buffer, 0, duplicated, false⟩, [], true⟩
    else ⟨none, duplicated, false⟩

/-- `UnixClientImpl::SendWithFds`; `ready` is `clientHandler_` with a valid socket. -/
def clientSendWithFds (ready : Bool) (data : Option DataBuffer)
    (fds duplicatedFds : List Fd) : SendOutcome :=
  if !ready then ⟨none, [], false⟩
  else if noData data && fds.isEmpty then ⟨none, [], true⟩
  else
    let duplicated := if fds.isEmpty then [] else duplicatedFds
    if !fds.isEmpty && duplicated.isEmpty then ⟨none, [], false⟩
    else ⟨some ⟨data, 0, duplicated, false⟩, [], true⟩

/-- One `sendmsg` that took something: of which entry, the bytes taken, and the
descriptors of its control message. -/
structure SentMessage where
  entry : Nat
  bytes : List WireByte
  control : List Fd
  deriving DecidableEq, Repr

/-- Where `ProcessSendQueue` is: between its rounds, with a copy of the front, after
a `sendmsg` that took `sentBytes`, or after one that failed. -/
inductive Round where
  | idle
  | copied (pending : PendingSend)
  | sent (pending : PendingSend) (sentBytes : Nat)
  | refused
  deriving DecidableEq, Repr

inductive SendmsgReturn where
  | bytes (n : Nat)
  | wouldBlock
  | error
  deriving DecidableEq, Repr

/-- The queue, the state of the consumer, and what happened so far: `queued` is
every entry ever pushed, `popped` how many of them have left the queue, `sent` and
`closed` what the kernel was told, in order. A closed descriptor is listed with the
entry whose list it was closed from. -/
structure UnixSendHandler where
  sendQueue : List PendingSend
  round : Round
  destroyed : Bool
  queued : List PendingSend
  popped : Nat
  sent : List SentMessage
  closed : List (Nat × Fd)
  failed : Bool
  deriving DecidableEq, Repr

inductive UnixSendAct where
  | serverSendWithFds (session handler : Bool) (buffer : Option DataBuffer)
      (fds duplicatedFds : List Fd)
  | clientSendWithFds (ready : Bool) (data : Option DataBuffer) (fds duplicatedFds : List Fd)
  | front
  | sendmsg (r : SendmsgReturn)
  | update
  | destroy
  deriving DecidableEq, Repr

def closeDescriptors (i : Nat) (fds : List Fd) : List (Nat × Fd) :=
  (cleanupFds fds).map fun fd => (i, fd)

def descriptors : Nat → List PendingSend → List (Nat × Fd)
  | _, [] => []
  | i, p :: ps => closeDescriptors i p.fds ++ descriptors (i + 1) ps

namespace UnixSendHandler

def created : UnixSendHandler := ⟨[], .idle, false, [], 0, [], [], false⟩

def queueSend (s : UnixSendHandler) (pending : PendingSend) : UnixSendHandler :=
  if noData pending.data && pending.fds.isEmpty then s
  else { s with sendQueue := s.sendQueue ++ [pending], queued := s.queued ++ [pending] }

def sendWithFds (s : UnixSendHandler) (o : SendOutcome) : UnixSendHandler :=
  match o.pending with
  | none => s
  | some pending => s.queueSend pending

def front (s : UnixSendHandler) : Option UnixSendHandler :=
  match s.round, s.sendQueue with
  | .idle, p :: _ => some { s with round := .copied p }
  | _, _ => none

/-- `sendmsg` and what follows it up to the next critical section: after a success
the descriptors of the copy are closed. -/
def sendmsg (s : UnixSendHandler) (p : PendingSend) : SendmsgReturn → Option UnixSendHandler
  | .wouldBlock => some { s with round := .idle }
  | .error => some { s with round := .refused, failed := true }
  | .bytes n =>
      -- the last branch pops the front as the error branch does
      if n = 0 then some { s with round := .refused, failed := true }
      else if n ≤ p.iov.length then
        some { s with
          round := .sent p n
          sent := s.sent ++ [⟨s.popped, p.iov.take n, p.control⟩]
          closed := s.closed ++ closeDescriptors s.popped p.fds }
      else none

def update (s : UnixSendHandler) : Option UnixSendHandler :=
  match s.round with
  | .sent p n =>
      match s.sendQueue with
      | [] => some { s with round := .idle }
      | q :: rest =>
          if q.same p then
            if (p.updated n).hasData then
              some { s with round := .idle, sendQueue := p.updated n :: rest }
            else some { s with round := .idle, sendQueue := rest, popped := s.popped + 1 }
          else some { s with round := .idle }
  | .refused =>
      match s.sendQueue with
      | [] => some { s with round := .idle }
      | q :: rest =>
          some { s with
            round := .idle
            sendQueue := rest
            popped := s.popped + 1
            closed := s.closed ++ closeDescriptors s.popped q.fds }
  | _ => none

def clearSendQueue (s : UnixSendHandler) : UnixSendHandler :=
  { s with
    sendQueue := []
    popped := s.popped + s.sendQueue.length
    closed := s.closed ++ descriptors s.popped s.sendQueue }

/-- The destructor. `DispatchEvent` and every caller of `QueueSend` hold the handler,
so it runs when nobody is in it. -/
def destroy (s : UnixSendHandler) : Option UnixSendHandler :=
  match s.round with
  | .idle => some { s.clearSendQueue with destroyed := true }
  | _ => none

def step (s : UnixSendHandler) (a : UnixSendAct) : Option UnixSendHandler :=
  if s.destroyed then none
  else
    match a with
    | .serverSendWithFds session handler buffer fds duplicatedFds =>
        some (s.sendWithFds (serverSendWithFds session handler buffer fds duplicatedFds))
    | .clientSendWithFds ready data fds duplicatedFds =>
        some (s.sendWithFds (clientSendWithFds ready data fds duplicatedFds))
    | .front => s.front
    | .sendmsg r =>
        match s.round with
        | .copied p => s.sendmsg p r
        | _ => none
    | .update => s.update
    | .destroy => s.destroy

def machine : Machine UnixSendHandler UnixSendAct where
  init s := s = created
  step := step

end UnixSendHandler

end Lmnet.Epoll
