import Lmnet.Darwin.EventReactor
import Lmnet.Lib.Machine

/-!
The send side of the kqueue connection handlers, and when a queued message is sure to be
sent: any number of `QueueSend` calls against the one `ProcessSendQueue` of the reactor
thread. A step is one critical section of `sendMutex_`, one `send` or one `ModifyHandler`
call.
-/

set_option autoImplicit false

namespace Lmnet.Darwin

open Lmnet.Epoll (EventType hasEvent getEvents)

inductive HandlerClass where
  | tcpConnectionHandler | tcpClientHandler | unixConnectionHandler | unixClientHandler
  deriving DecidableEq, Repr

def HandlerClass.breaksOnZero : HandlerClass → Bool
  | .tcpConnectionHandler | .tcpClientHandler => false
  | .unixConnectionHandler | .unixClientHandler => true

/-- What `send` returns: a count, or -1 with `EAGAIN`, or with another error. -/
inductive SendResult where
  | bytes (n : Nat)
  | wouldBlock
  | error
  deriving DecidableEq, Repr

inductive Call where
  | evalEvents
  | modify (events : Nat)
  | returned
  deriving DecidableEq, Repr

inductive Consumer where
  | idle
  | front
  | send (buf : DataBuffer)
  | remove (buf : DataBuffer) (bytesSent : Nat)
  | evalEvents
  | modify (events : Nat)
  deriving DecidableEq, Repr

/-- `notified` says that the listener's `OnClose` has been queued. -/
structure SendHandler where
  fd : Fd
  sendQueue : List DataBuffer
  writeEventsEnabled : Bool
  reactor : EventReactor Unit
  isOpen : Bool
  notified : Bool
  calls : List Call
  consumer : Consumer

inductive SendAct where
  | push (buf : DataBuffer)
  | callEvents (i : Nat)
  | callModify (i : Nat) (kevent : Option Int)
  | handleWrite
  | front
  | send (r : SendResult)
  | remove (ptr : Nat)
  | events
  | modify (kevent : Option Int)
  | handleConnectionClose
  deriving DecidableEq, Repr

namespace SendHandler

def created (fd : Fd) : SendHandler where
  fd := fd
  sendQueue := []
  writeEventsEnabled := false
  reactor :=
    ⟨true, AList.insert fd () ∅, AList.insert fd (normalizeEventsForKqueue (getEvents false)) ∅⟩
  isOpen := true
  notified := false
  calls := []
  consumer := .idle

def setCall (s : SendHandler) (i : Nat) (c : Call) : SendHandler :=
  { s with calls := s.calls.set i c }

/-- The critical section of `QueueSend`, which sets `shouldModify` when the flag was off. -/
def queueSend (s : SendHandler) (buf : DataBuffer) : SendHandler :=
  if buf.size = 0 then s
  else
    { s with
      sendQueue := s.sendQueue ++ [buf]
      writeEventsEnabled := true
      calls := s.calls ++ [if s.writeEventsEnabled then .returned else .evalEvents] }

def modifyHandler (s : SendHandler) (events : Nat) (kevent : Option Int) : SendHandler :=
  { s with reactor := (s.reactor.modifyHandler s.fd events kevent).1 }

def callEvents (s : SendHandler) (i : Nat) : Option SendHandler :=
  if s.calls[i]? = some .evalEvents then
    some (s.setCall i (.modify (getEvents s.writeEventsEnabled)))
  else none

def callModify (s : SendHandler) (i : Nat) (kevent : Option Int) : Option SendHandler :=
  match s.calls[i]? with
  | some (.modify events) => some ((s.setCall i .returned).modifyHandler events kevent)
  | _ => none

def takeFront (s : SendHandler) : SendHandler :=
  match s.sendQueue with
  | [] =>
      { s with
        writeEventsEnabled := false
        consumer := if s.writeEventsEnabled then .evalEvents else .idle }
  | buf :: _ => { s with consumer := .send buf }

def sendFront (k : HandlerClass) (s : SendHandler) (buf : DataBuffer) :
    SendResult → Option SendHandler
  | .bytes n =>
      if n ≤ buf.size then
        some { s with
          consumer :=
            if n = 0 then if k.breaksOnZero then .idle else .front
            else .remove buf n }
      else none
  | .wouldBlock | .error => some { s with consumer := .idle }

/-- The critical section after a `send` of `bytesSent` bytes of `buf`; `ptr` is where
`PoolAlloc` puts the remainder. -/
def removeFront (s : SendHandler) (buf : DataBuffer) (bytesSent ptr : Nat) : SendHandler :=
  match s.sendQueue with
  | [] => { s with consumer := .front }
  | _ :: rest =>
      if bytesSent = buf.size then { s with sendQueue := rest, consumer := .front }
      else { s with sendQueue := ⟨ptr, buf.bytes.drop bytesSent⟩ :: rest, consumer := .idle }

def step (k : HandlerClass) (s : SendHandler) : SendAct → Option SendHandler
  | .push buf => some (s.queueSend buf)
  | .callEvents i => s.callEvents i
  | .callModify i kevent => s.callModify i kevent
  | .handleWrite => if s.consumer = .idle then some { s with consumer := .front } else none
  | .front => if s.consumer = .front then some s.takeFront else none
  | .send r =>
      match s.consumer with
      | .send buf => s.sendFront k buf r
      | _ => none
  | .remove ptr =>
      match s.consumer with
      | .remove buf n => some (s.removeFront buf n ptr)
      | _ => none
  | .events =>
      if s.consumer = .evalEvents then
        some { s with consumer := .modify (getEvents s.writeEventsEnabled) }
      else none
  | .modify kevent =>
      match s.consumer with
      | .modify events => some ({ s with consumer := .idle }.modifyHandler events kevent)
      | _ => none
  | .handleConnectionClose =>
      some { s with
        isOpen := false
        notified := true
        reactor := (s.reactor.removeHandler s.fd none).1 }

def machine (k : HandlerClass) : Machine SendHandler SendAct where
  init s := ∃ fd, s = created fd
  step := step k

def registered (s : SendHandler) : Nat := (s.reactor.handlerEvents.lookup s.fd).getD 0

def Quiescent (s : SendHandler) : Prop :=
  (∀ c ∈ s.calls, c = .returned) ∧ s.consumer = .idle

instance decidableQuiescent (s : SendHandler) : Decidable s.Quiescent :=
  inferInstanceAs (Decidable (_ ∧ _))

/-- No queued message is stranded. -/
def WakeUp (s : SendHandler) : Prop :=
  s.Quiescent → s.isOpen = true → s.sendQueue ≠ [] →
    s.writeEventsEnabled = true ∧ hasEvent s.registered .write = true

instance decidableWakeUp (s : SendHandler) : Decidable s.WakeUp :=
  inferInstanceAs (Decidable (_ → _ → _ → _ ∧ _))

end SendHandler

def Call.armed : Call → Bool
  | .evalEvents => true
  | .modify events => hasEvent events .write
  | .returned => false

def Consumer.armed : Consumer → Bool
  | .evalEvents => true
  | .modify events => hasEvent events .write
  | _ => false

namespace SendHandler

def armed (s : SendHandler) : Bool := s.calls.any Call.armed || s.consumer.armed

/-- `ModifyHandler` succeeds wherever it is called. -/
def ModifySucceeds : SendAct → Prop
  | .callModify _ kevent => kevent = none
  | .modify kevent => kevent = none
  | _ => True

/-- A mask that is about to be recorded does not take `WRITE` away while the flag is on and
no other thread will put it back. `s` is the state with the caller out of it. -/
def Keeps (s : SendHandler) (events : Nat) : Prop :=
  hasEvent events .write = true ∨ s.writeEventsEnabled = false ∨ s.armed = true

def KeepsRegistered (s : SendHandler) : SendAct → Prop
  | .callModify i _ =>
      ∀ events, s.calls[i]? = some (.modify events) → (s.setCall i .returned).Keeps events
  | .modify _ =>
      ∀ events, s.consumer = .modify events →
        ({ s with consumer := .idle } : SendHandler).Keeps events
  | _ => True

/-- A queued message has its flag on, and a flag that is on its registration, or a thread
about to make it. -/
structure WakeUpInv (s : SendHandler) : Prop where
  flagged : s.sendQueue ≠ [] → s.writeEventsEnabled = true
  registered : s.isOpen = true → s.writeEventsEnabled = true →
    hasEvent s.registered .write = true ∨ s.armed = true
  entry : s.isOpen = true → s.fd ∈ s.reactor.handlerEvents

theorem WakeUpInv.wakeUp {s : SendHandler} (h : s.WakeUpInv) : s.WakeUp := by
  intro ⟨hcalls, hconsumer⟩ hopen hqueue
  have hflag := h.flagged hqueue
  refine ⟨hflag, (h.registered hopen hflag).resolve_right fun harmed => ?_⟩
  simp only [armed, hconsumer, Consumer.armed, Bool.or_false, List.any_eq_true] at harmed
  obtain ⟨c, hc, harmed⟩ := harmed
  rw [hcalls c hc] at harmed
  cases harmed

theorem wakeUpInv_created (fd : Fd) : (created fd).WakeUpInv where
  flagged h := absurd rfl h
  registered _ h := absurd h (by simp [created])
  entry _ := (AList.mem_insert ∅).mpr (.inl rfl)

theorem armed_of_mem {s : SendHandler} {c : Call} (hmem : c ∈ s.calls) (hc : c.armed = true) :
    s.armed = true := by
  simp only [armed, Bool.or_eq_true, List.any_eq_true]
  exact .inl ⟨c, hmem, hc⟩

theorem setCall_mem {s : SendHandler} {i : Nat} {b : Call} (c : Call)
    (hi : s.calls[i]? = some b) : c ∈ (s.setCall i c).calls := by
  obtain ⟨hlt, -⟩ := List.getElem?_eq_some_iff.mp hi
  exact List.mem_iff_getElem?.mpr ⟨i, by simp [setCall, hlt]⟩

structure Unflagged (s s' : SendHandler) : Prop where
  sendQueue : s'.sendQueue ≠ [] → s.sendQueue ≠ []
  writeEventsEnabled : s'.writeEventsEnabled = s.writeEventsEnabled
  fd : s'.fd = s.fd
  reactor : s'.reactor = s.reactor
  isOpen : s'.isOpen = s.isOpen
  calls : s'.calls = s.calls
  consumer : s.consumer.armed = true → s'.consumer.armed = true

theorem WakeUpInv.frame {s s' : SendHandler} (h : s.WakeUpInv) (hs : Unflagged s s') :
    s'.WakeUpInv := by
  refine ⟨fun hqueue => ?_, fun hopen hflag => ?_, fun hopen => ?_⟩
  · rw [hs.writeEventsEnabled]
    exact h.flagged (hs.sendQueue hqueue)
  · rw [hs.isOpen] at hopen
    rw [hs.writeEventsEnabled] at hflag
    rw [SendHandler.registered, hs.reactor, hs.fd]
    refine (h.registered hopen hflag).imp id fun harmed => ?_
    simp only [armed, hs.calls, Bool.or_eq_true] at harmed ⊢
    exact harmed.imp id hs.consumer
  · rw [hs.isOpen] at hopen
    rw [hs.reactor, hs.fd]
    exact h.entry hopen

theorem queueSend_wakeUpInv {s : SendHandler} (buf : DataBuffer) (h : s.WakeUpInv) :
    (s.queueSend buf).WakeUpInv := by
  unfold queueSend
  split
  · exact h
  · refine ⟨fun _ => rfl, fun hopen _ => ?_, h.entry⟩
    cases hflag : s.writeEventsEnabled with
    | false => exact .inr (armed_of_mem (c := .evalEvents) (by simp) rfl)
    | true =>
      refine (h.registered hopen hflag).imp id fun harmed => ?_
      simp only [armed, List.any_append, Bool.or_eq_true] at harmed ⊢
      exact harmed.imp .inl id

theorem callEvents_wakeUpInv {s s' : SendHandler} {i : Nat} (h : s.WakeUpInv)
    (hs : s.callEvents i = some s') : s'.WakeUpInv := by
  unfold callEvents at hs
  split at hs
  · rename_i hi
    cases hs
    refine ⟨h.flagged, fun _ hflag => .inr (armed_of_mem (setCall_mem _ hi) ?_), h.entry⟩
    have hon : s.writeEventsEnabled = true := hflag
    simp [Call.armed, hon]
  · cases hs

theorem modifyHandler_wakeUpInv {s : SendHandler} {events : Nat}
    (hflagged : s.sendQueue ≠ [] → s.writeEventsEnabled = true)
    (hentry : s.isOpen = true → s.fd ∈ s.reactor.handlerEvents) (hkeeps : s.Keeps events) :
    (s.modifyHandler events none).WakeUpInv := by
  refine ⟨hflagged, fun hopen hflag => ?_, fun hopen => ?_⟩
  · have hlookup := EventReactor.lookup_modifyHandler events (hentry hopen)
    rcases hkeeps with hwrite | hoff | harmed
    · exact .inl (by simp [registered, modifyHandler, hlookup, hwrite])
    · exact absurd (hoff.symm.trans hflag) (by decide)
    · exact .inr harmed
  · have hlookup := EventReactor.lookup_modifyHandler events (hentry hopen)
    exact AList.lookup_isSome.mp (by rw [modifyHandler, hlookup]; rfl)

theorem takeFront_wakeUpInv {s : SendHandler} (hconsumer : s.consumer = .front)
    (h : s.WakeUpInv) : s.takeFront.WakeUpInv := by
  unfold takeFront
  split
  · rename_i hempty
    exact ⟨fun hqueue => absurd hempty hqueue, fun _ hflag => absurd hflag (by simp), h.entry⟩
  · exact h.frame ⟨id, rfl, rfl, rfl, rfl, rfl, by simp [hconsumer, Consumer.armed]⟩

theorem sendFront_unflagged {k : HandlerClass} {s s' : SendHandler} {buf : DataBuffer}
    {r : SendResult} (hconsumer : s.consumer = .send buf) (hs : s.sendFront k buf r = some s') :
    Unflagged s s' := by
  have hunarmed : s.consumer.armed = true → s'.consumer.armed = true := by
    simp [hconsumer, Consumer.armed]
  cases r with
  | bytes n =>
    simp only [sendFront] at hs
    split at hs
    · cases hs
      exact ⟨id, rfl, rfl, rfl, rfl, rfl, hunarmed⟩
    · cases hs
  | wouldBlock =>
    cases hs
    exact ⟨id, rfl, rfl, rfl, rfl, rfl, hunarmed⟩
  | error =>
    cases hs
    exact ⟨id, rfl, rfl, rfl, rfl, rfl, hunarmed⟩

theorem removeFront_unflagged {s : SendHandler} {buf : DataBuffer} {n : Nat} (ptr : Nat)
    (hconsumer : s.consumer = .remove buf n) : Unflagged s (s.removeFront buf n ptr) := by
  have hunarmed : ∀ c : Consumer, s.consumer.armed = true → c.armed = true := by
    simp [hconsumer, Consumer.armed]
  unfold removeFront
  split
  · exact ⟨id, rfl, rfl, rfl, rfl, rfl, hunarmed _⟩
  · rename_i hqueue
    have hne : s.sendQueue ≠ [] := by simp [hqueue]
    split <;> exact ⟨fun _ => hne, rfl, rfl, rfl, rfl, rfl, hunarmed _⟩

theorem step_wakeUpInv (k : HandlerClass) {s s' : SendHandler} {a : SendAct} (h : s.WakeUpInv)
    (hok : ModifySucceeds a) (hkeeps : s.KeepsRegistered a) (hs : s.step k a = some s') :
    s'.WakeUpInv := by
  cases a with
  | push buf =>
    cases hs
    exact queueSend_wakeUpInv buf h
  | callEvents i => exact callEvents_wakeUpInv h hs
  | callModify i kevent =>
    cases hok
    simp only [step, callModify] at hs
    split at hs
    · rename_i events hi
      cases hs
      exact modifyHandler_wakeUpInv h.flagged h.entry (hkeeps events hi)
    · cases hs
  | handleWrite =>
    simp only [step] at hs
    split at hs
    · rename_i hconsumer
      cases hs
      exact h.frame ⟨id, rfl, rfl, rfl, rfl, rfl, by simp [hconsumer, Consumer.armed]⟩
    · cases hs
  | front =>
    simp only [step] at hs
    split at hs
    · rename_i hconsumer
      cases hs
      exact takeFront_wakeUpInv hconsumer h
    · cases hs
  | send r =>
    simp only [step] at hs
    split at hs
    · rename_i buf hconsumer
      exact h.frame (sendFront_unflagged hconsumer hs)
    · cases hs
  | remove ptr =>
    simp only [step] at hs
    split at hs
    · rename_i buf n hconsumer
      cases hs
      exact h.frame (removeFront_unflagged ptr hconsumer)
    · cases hs
  | events =>
    simp only [step] at hs
    split at hs
    · cases hs
      refine ⟨h.flagged, fun _ hflag => .inr ?_, h.entry⟩
      have hon : s.writeEventsEnabled = true := hflag
      simp [armed, Consumer.armed, hon]
    · cases hs
  | modify kevent =>
    cases hok
    simp only [step] at hs
    split at hs
    · rename_i events hconsumer
      cases hs
      exact modifyHandler_wakeUpInv h.flagged h.entry (hkeeps events hconsumer)
    · cases hs
  | handleConnectionClose =>
    cases hs
    exact ⟨h.flagged, nofun, nofun⟩

/-- Along every run in which `ModifyHandler` succeeds, and records no mask without `WRITE`
against a flag that is on, no queued message is stranded. -/
theorem wakeUp_of_keepsRegistered (k : HandlerClass) (fd : Fd) {as : List SendAct}
    {t : SendHandler} (hrun : (machine k).run (created fd) as = some t)
    (hok : ∀ a ∈ as, ModifySucceeds a)
    (hkeeps : (machine k).Every (fun s a _ => s.KeepsRegistered a) (created fd) as) :
    t.WakeUp := by
  have hstep : ∀ s a s', s.WakeUpInv → (machine k).step s a = some s' →
      ModifySucceeds a ∧ s.KeepsRegistered a → s'.WakeUpInv :=
    fun s a s' h hs hc => step_wakeUpInv k h hc.1 hc.2 hs
  have hinv : t.WakeUpInv := (machine k).run_invariant_of_every hstep (wakeUpInv_created fd)
    ((machine k).every_and hok hkeeps) hrun
  exact hinv.wakeUp

def sendOnce : List SendAct :=
  [.push ⟨1, [7]⟩, .callEvents 0, .callModify 0 none, .handleWrite, .front, .send (.bytes 1),
    .remove 0, .front, .events, .modify none, .push ⟨2, [8]⟩, .callEvents 1, .callModify 1 none]

theorem wakeUp_sendOnce :
    ∃ t, (machine .tcpConnectionHandler).run (created 5) sendOnce = some t ∧
      (t.Quiescent ∧ t.isOpen = true ∧ t.sendQueue = [⟨2, [8]⟩]) ∧
      t.writeEventsEnabled = true ∧ hasEvent t.registered .write = true := by
  have hkeeps : (machine .tcpConnectionHandler).Every (fun s a _ => s.KeepsRegistered a)
      (created 5) sendOnce := by
    simp [sendOnce, Machine.Every, machine, step, created, queueSend, callEvents, callModify,
      setCall, modifyHandler, takeFront, sendFront, removeFront, DataBuffer.size, KeepsRegistered,
      Keeps]
  have hrun : (machine .tcpConnectionHandler).run (created 5) sendOnce = some _ := rfl
  refine ⟨_, hrun, by decide, ?_⟩
  exact wakeUp_of_keepsRegistered _ 5 hrun (by simp [sendOnce, ModifySucceeds]) hkeeps (by decide)
    rfl (by decide)

/-- The second buffer is queued between the `GetEvents` of the reactor thread, which finds
the flag off, and its `ModifyHandler`; the one of the second `QueueSend` changes nothing. -/
def staleMask : List SendAct :=
  [.push ⟨1, [7]⟩, .callEvents 0, .callModify 0 none, .handleWrite, .front, .send (.bytes 1),
    .remove 0, .front, .events, .push ⟨2, [8]⟩, .callEvents 1, .callModify 1 none, .modify none]

theorem staleMask_stranded :
    ¬ ∀ (k : HandlerClass) (fd : Fd) (as : List SendAct) (t : SendHandler),
      (machine k).run (created fd) as = some t → (∀ a ∈ as, ModifySucceeds a) → t.WakeUp := by
  intro h
  have ht := h .tcpConnectionHandler 5 staleMask _ rfl (by simp [staleMask, ModifySucceeds])
  exact absurd ht (by decide)

end SendHandler

end Lmnet.Darwin
