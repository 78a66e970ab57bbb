import Lmnet.Reactor.ClientRecord

/-!
The epoll `UnixClientImpl`: `Init`, `Connect`, `Close`, and what the reactor dispatches to
it. Nothing is sent, so a `HandleWrite` finds its queue empty. The listener is alive, and
`callbacks` are its calls of `OnError` and `OnClose`, which the task queue makes in the
order in which it gets them.
-/

set_option autoImplicit false

namespace Lmnet.Epoll

open Lmnet.Reactor

/-- Sockets are numbered as they are created. `handlers` are those that the reactor has a
handler of the client for. -/
structure UnixClient where
  socket : Option Nat
  sockets : Nat
  clientHandler : Bool
  handlerRegistered : Bool
  handlers : List Nat
  callbacks : List ClientCallback
  deriving DecidableEq, Repr

namespace UnixClient

def new : UnixClient := ⟨none, 0, false, false, [], []⟩

/-- `Init`, which does not look at the socket that it replaces. -/
def init (s : UnixClient) (created : Bool) : UnixClient :=
  if created then { s with socket := some s.sockets, sockets := s.sockets + 1 }
  else { s with socket := none }

/-- `RemoveHandler(socket_)`, if the client takes its handler to be registered. -/
def removeHandler (s : UnixClient) (fd : Nat) : UnixClient :=
  { s with
    handlers := if s.handlerRegistered then s.handlers.erase fd else s.handlers
    handlerRegistered := false }

def close (s : UnixClient) : UnixClient :=
  match s.socket with
  | some fd => { s.removeHandler fd with clientHandler := false, socket := none }
  | none => { s with clientHandler := false, handlerRegistered := false }

def reInit (s : UnixClient) (created : Bool) : UnixClient := s.close.init created

/-- `Connect`, and what it returns. The registration succeeds. -/
def connect (s : UnixClient) (established created : Bool) : UnixClient × Bool :=
  match s.socket with
  | none => (s, false)
  | some fd =>
      if established then
        ({ s with
          clientHandler := true, handlers := fd :: s.handlers, handlerRegistered := true }, true)
      else (s.reInit created, false)

def handleConnectionClose (s : UnixClient) (fd : Nat) (error : Option Reason) : UnixClient :=
  if s.socket ≠ some fd then s
  else { s.removeHandler fd with
    socket := none
    clientHandler := false
    callbacks := s.callbacks ++ closing fd error }

def handleReceive (s : UnixClient) (fd : Nat) (last : RecvReturn) : UnixClient :=
  match last with
  | .error errno =>
      if errno = EAGAIN then s else s.handleConnectionClose fd (some (.errno errno))
  | .bytes _ | .disconnect => s

def dispatchEvent (s : UnixClient) (fd events : Nat) (last : RecvReturn) : UnixClient :=
  if fd ∉ s.handlers then s
  else
    let s := if events &&& EPOLLIN != 0 then s.handleReceive fd last else s
    let s :=
      if events &&& EPOLLERR != 0 then s.handleConnectionClose fd (some .connectionError) else s
    if events &&& (EPOLLHUP ||| EPOLLRDHUP) != 0 then s.handleConnectionClose fd none else s

def peerClosed : Nat := EPOLLIN ||| EPOLLHUP ||| EPOLLRDHUP

@[simp] theorem callbacks_init (s : UnixClient) (created : Bool) :
    (s.init created).callbacks = s.callbacks := by
  unfold init
  split <;> rfl

@[simp] theorem callbacks_close (s : UnixClient) : s.close.callbacks = s.callbacks := by
  unfold close
  split <;> rfl

@[simp] theorem callbacks_connect (s : UnixClient) (established created : Bool) :
    (s.connect established created).1.callbacks = s.callbacks := by
  unfold connect reInit
  split
  · rfl
  · split
    · rfl
    · simp

/-- Only the first call finds the socket. -/
theorem handleConnectionClose_again (s : UnixClient) (fd : Nat) (error error' : Option Reason) :
    (s.handleConnectionClose fd error).handleConnectionClose fd error' =
      s.handleConnectionClose fd error := by
  by_cases hsocket : s.socket = some fd
  · simp [handleConnectionClose, removeHandler, hsocket]
  · simp [handleConnectionClose, hsocket]

theorem callbacks_handleConnectionClose (s : UnixClient) (fd : Nat) (error : Option Reason) :
    (s.handleConnectionClose fd error).callbacks =
      s.callbacks ++ if s.socket = some fd then closing fd error else [] := by
  unfold handleConnectionClose
  by_cases hsocket : s.socket = some fd <;> simp [hsocket]

theorem dispatchEvent_peerClosed {s : UnixClient} {fd : Nat} (h : fd ∈ s.handlers) :
    s.dispatchEvent fd peerClosed .disconnect = s.handleConnectionClose fd none := by
  have hin : (peerClosed &&& EPOLLIN != 0) = true := by decide
  have herr : (peerClosed &&& EPOLLERR != 0) = false := by decide
  have hhup : (peerClosed &&& (EPOLLHUP ||| EPOLLRDHUP) != 0) = true := by decide
  simp [dispatchEvent, h, hin, herr, hhup, handleReceive]

/-- Whatever else `epoll_wait` reports, the error that `recvmsg` returns comes first. -/
theorem dispatchEvent_error {s : UnixClient} {fd events : Nat} {errno : Int}
    (h : fd ∈ s.handlers) (hin : events &&& EPOLLIN ≠ 0) (herror : errno ≠ EAGAIN) :
    s.dispatchEvent fd events (.error errno) =
      s.handleConnectionClose fd (some (.errno errno)) := by
  have hread : (events &&& EPOLLIN != 0) = true := bne_iff_ne.mpr hin
  simp only [dispatchEvent, h, not_true_eq_false, if_false, hread, if_true, handleReceive,
    if_neg herror, handleConnectionClose_again, ite_self]

end UnixClient

end Lmnet.Epoll
