import Lmnet.Common

set_option autoImplicit false

namespace Lmnet.Epoll

inductive EventType where
  | read | write | error | close
  deriving DecidableEq, Repr

def EventType.bit : EventType → Nat
  | .read => 0x01
  | .write => 0x02
  | .error => 0x04
  | .close => 0x08

def hasEvent (events : Nat) (e : EventType) : Bool := events &&& e.bit != 0

def EPOLLIN : Nat := 0x001
def EPOLLOUT : Nat := 0x004
def EPOLLERR : Nat := 0x008
def EPOLLHUP : Nat := 0x010
def EPOLLRDHUP : Nat := 0x2000
def EPOLLET : Nat := 0x80000000

/-- The mask `RegisterHandler` and `ModifyHandler` hand to `epoll_ctl`. -/
def epollEvents (events : Nat) : Nat :=
  (if hasEvent events .read then EPOLLIN else 0) |||
  (if hasEvent events .write then EPOLLOUT else 0) |||
  (if hasEvent events .error then EPOLLERR else 0) |||
  (if hasEvent events .close then EPOLLHUP ||| EPOLLRDHUP else 0) ||| EPOLLET

def includesWrite (mask : Nat) : Bool := mask &&& EPOLLOUT != 0

def baseEvents : Nat := EventType.read.bit ||| EventType.error.bit ||| EventType.close.bit

def getEvents (enabled : Bool) : Nat :=
  if enabled then baseEvents ||| EventType.write.bit else baseEvents

@[simp] theorem includesWrite_epollEvents (events : Nat) :
    includesWrite (epollEvents events) = hasEvent events .write := by
  unfold includesWrite epollEvents
  cases hasEvent events .read <;> cases hasEvent events .write <;>
    cases hasEvent events .error <;> cases hasEvent events .close <;> decide

@[simp] theorem hasEvent_getEvents (b : Bool) : hasEvent (getEvents b) .write = b := by
  cases b <;> decide

/-- `handlers_`, and the interest list the kernel keeps for `epollFd_`. -/
structure EventReactor (η : Type) where
  running : Bool
  handlers : FdMap η
  interest : FdMap Nat

namespace EventReactor

variable {η : Type}

/-- `ctl` is the `errno` of `epoll_ctl`, `none` when it succeeds. -/
def registerHandler (r : EventReactor η) (fd : Fd) (events : Nat) (handler : η)
    (ctl : Option Int) : EventReactor η × Bool :=
  if !r.running then (r, false)
  else if fd ∈ r.handlers then (r, false)
  else match ctl with
    | some _ => (r, false)
    | none =>
      ({ r with handlers := r.handlers.insert fd handler,
                interest := r.interest.insert fd (epollEvents events) }, true)

def removeHandler (r : EventReactor η) (fd : Fd) (ctl : Option Int) : EventReactor η × Bool :=
  if fd ∈ r.handlers then
    if r.running then
      match ctl with
      | none => ({ r with handlers := r.handlers.erase fd, interest := r.interest.erase fd }, true)
      | some e =>
        if e ≠ ENOENT ∧ e ≠ EBADF then (r, false)
        else ({ r with handlers := r.handlers.erase fd }, true)
    else ({ r with handlers := r.handlers.erase fd }, true)
  else (r, false)

def modifyHandler (r : EventReactor η) (fd : Fd) (events : Nat) (ctl : Option Int) :
    EventReactor η × Bool :=
  if !r.running then (r, false)
  else if fd ∈ r.handlers then
    match ctl with
    | some _ => (r, false)
    | none => ({ r with interest := r.interest.insert fd (epollEvents events) }, true)
  else (r, false)

/-- The kernel drops a descriptor from every interest list when it is closed. -/
def onClose (r : EventReactor η) (fd : Fd) : EventReactor η :=
  { r with interest := r.interest.erase fd }

theorem registerHandler_eq_true {r r' : EventReactor η} {fd : Fd} {events : Nat} {handler : η}
    {ctl : Option Int} (h : r.registerHandler fd events handler ctl = (r', true)) :
    fd ∉ r.handlers ∧ r' = { r with
      handlers := r.handlers.insert fd handler
      interest := r.interest.insert fd (epollEvents events) } := by
  unfold registerHandler at h
  split at h
  · cases h
  · split at h
    · cases h
    · split at h
      · cases h
      · cases h
        exact ⟨‹_›, rfl⟩

end EventReactor

end Lmnet.Epoll
