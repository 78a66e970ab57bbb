import Lmnet.Epoll.EventReactor

set_option autoImplicit false

namespace Lmnet.Darwin

open Lmnet.Epoll (EventType hasEvent)

def normalizeEventsForKqueue (events : Nat) : Nat :=
  events &&& (EventType.read.bit ||| EventType.write.bit)

@[simp] theorem normalizeEventsForKqueue_idem (events : Nat) :
    normalizeEventsForKqueue (normalizeEventsForKqueue events) =
      normalizeEventsForKqueue events := by
  rw [normalizeEventsForKqueue, normalizeEventsForKqueue, Nat.and_assoc, Nat.and_self]

@[simp] theorem hasEvent_normalize_write (events : Nat) :
    hasEvent (normalizeEventsForKqueue events) .write = hasEvent events .write := by
  simp only [hasEvent, normalizeEventsForKqueue, Nat.and_assoc]
  rfl

structure EventReactor (η : Type) where
  running : Bool
  handlers : FdMap η
  handlerEvents : FdMap Nat

namespace EventReactor

variable {η : Type}

/-- `kevent` is the `errno` of the call that makes the changes, when there are any; `none`
when it succeeds. -/
def applyEvents (newEvents oldEvents : Nat) (kevent : Option Int) : Bool :=
  if normalizeEventsForKqueue (newEvents ||| oldEvents) = 0 then true
  else
    match kevent with
    | none => true
    | some errno => newEvents == 0 && (errno == ENOENT || errno == EBADF)

def registerHandler (r : EventReactor η) (fd : Fd) (events : Nat) (handler : η)
    (kevent : Option Int) : EventReactor η × Bool :=
  if !r.running then (r, false)
  else if fd ∈ r.handlers then (r, false)
  else if applyEvents (normalizeEventsForKqueue events) 0 kevent then
    ({ r with
      handlers := r.handlers.insert fd handler
      handlerEvents := r.handlerEvents.insert fd (normalizeEventsForKqueue events) }, true)
  else ({ r with handlerEvents := r.handlerEvents.erase fd }, false)

def removeHandler (r : EventReactor η) (fd : Fd) (kevent : Option Int) : EventReactor η × Bool :=
  if fd ∈ r.handlers then
    if r.running && !applyEvents 0 ((r.handlerEvents.lookup fd).getD 0) kevent then (r, false)
    else
      ({ r with
        handlers := r.handlers.erase fd
        handlerEvents := r.handlerEvents.erase fd }, true)
  else (r, false)

def modifyHandler (r : EventReactor η) (fd : Fd) (events : Nat) (kevent : Option Int) :
    EventReactor η × Bool :=
  match r.handlerEvents.lookup fd with
  | none => (r, false)
  | some oldEvents =>
      if oldEvents = normalizeEventsForKqueue events then (r, true)
      else if applyEvents (normalizeEventsForKqueue events) oldEvents kevent then
        ({ r with
          handlerEvents := r.handlerEvents.insert fd (normalizeEventsForKqueue events) }, true)
      else (r, false)

theorem applyEvents_none (newEvents oldEvents : Nat) :
    applyEvents newEvents oldEvents none = true := by
  unfold applyEvents
  split <;> rfl

/-- Reading is among the events of a registration, so any error of `kevent` refuses it. -/
theorem registerHandler_snd {r : EventReactor η} {fd : Fd} {events : Nat} {handler : η}
    {kevent : Option Int} (hread : normalizeEventsForKqueue events ≠ 0) :
    (r.registerHandler fd events handler kevent).2 = true ↔
      r.running = true ∧ fd ∉ r.handlers ∧ kevent = none := by
  unfold registerHandler applyEvents
  cases r.running with
  | false => simp
  | true =>
    by_cases hmem : fd ∈ r.handlers
    · simp [hmem]
    · cases kevent <;> simp [hmem, hread]

theorem registerHandler_handlers {r : EventReactor η} {fd : Fd} {events : Nat} {handler : η}
    {kevent : Option Int} (h : (r.registerHandler fd events handler kevent).2 = false) :
    (r.registerHandler fd events handler kevent).1.handlers = r.handlers := by
  unfold registerHandler at h ⊢
  split
  · rfl
  · split
    · rfl
    · split
      · simp_all
      · rfl

/-- Whether the call changes the filters or finds them as wanted, the events are recorded. -/
theorem lookup_modifyHandler {r : EventReactor η} {fd : Fd} (events : Nat)
    (h : fd ∈ r.handlerEvents) :
    (r.modifyHandler fd events none).1.handlerEvents.lookup fd =
      some (normalizeEventsForKqueue events) := by
  obtain ⟨oldEvents, hlookup⟩ := Option.isSome_iff_exists.mp (AList.lookup_isSome.mpr h)
  simp only [modifyHandler, hlookup, applyEvents_none, if_true]
  split
  · rename_i hsame
    rw [hlookup, hsame]
  · exact AList.lookup_insert _

theorem mem_handlers_removeHandler {r : EventReactor η} {fd fd' : Fd} :
    fd ∈ (r.removeHandler fd' none).1.handlers ↔ fd ≠ fd' ∧ fd ∈ r.handlers := by
  unfold removeHandler
  simp only [applyEvents_none, Bool.not_true, Bool.and_false, Bool.false_eq_true, if_false]
  split
  · exact AList.mem_erase
  · rename_i hnone
    refine ⟨fun h => ⟨?_, h⟩, fun h => h.2⟩
    rintro rfl
    exact hnone h

end EventReactor

end Lmnet.Darwin
