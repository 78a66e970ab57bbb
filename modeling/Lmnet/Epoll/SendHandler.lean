import Lmnet.Epoll.EventReactor
import Lmnet.Lib.Fifo

/-!
The send side of `TcpConnectionHandler` (tcp_server_impl.cpp) and
`TcpClientHandler` (tcp_client_impl.cpp): any number of `QueueSend` calls against
the one `ProcessSendQueue` of the reactor thread. A step is one critical section
of `sendMutex_`, one `send`, one access to `writeEventsEnabled_`, one evaluation
of `GetEvents` or one `ModifyHandler` call.
-/

set_option autoImplicit false

namespace Lmnet.Epoll

inductive HandlerClass where
  | tcpConnectionHandler | tcpClientHandler
  deriving DecidableEq, Repr

def HandlerClass.enableFailed : HandlerClass → String
  | .tcpConnectionHandler => "Failed to enable connection write events for fd"
  | .tcpClientHandler => "Failed to enable client write events for fd"

def HandlerClass.disableFailed : HandlerClass → String
  | .tcpConnectionHandler => "Failed to disable connection write events for fd"
  | .tcpClientHandler => "Failed to disable client write events for fd"

/-- What `send` returns: a count, or -1 with `EAGAIN`/`EWOULDBLOCK`, or -1 with
another error, when `owner` says whether `server_`/`client_` could be locked. -/
inductive SendResult where
  | bytes (n : Nat)
  | wouldBlock
  | error (owner : Bool)
  deriving DecidableEq, Repr

inductive Call where
  | testFlag
  | evalEvents
  | modify (events : Nat)
  | restoreFlag
  | closeConnection
  | returned
  deriving DecidableEq, Repr

inductive Consumer where
  | idle
  | front
  | send (buf : DataBuffer)
  | remove (buf : DataBuffer) (bytesSent : Nat)
  | testEmpty
  | testFlag
  | evalEvents
  | modify (events : Nat)
  deriving DecidableEq, Repr

/-- Bytes at the front of the queue that `send` has reported and the critical
section after it has not yet removed. -/
def Consumer.unremoved : Consumer → Nat
  | .remove _ n => n
  | _ => 0

def Consumer.holds (q : List DataBuffer) : Consumer → Prop
  | .send buf => ∃ rest, q = buf :: rest
  | .remove buf n => n ≤ buf.size ∧ ∃ rest, q = buf :: rest
  | _ => True

theorem Consumer.holds_append {q r : List DataBuffer} {c : Consumer} (h : c.holds q) :
    c.holds (q ++ r) := by
  cases c with
  | send buf =>
    obtain ⟨rest, rfl⟩ := h
    exact ⟨rest ++ r, rfl⟩
  | remove buf n =>
    obtain ⟨hn, rest, rfl⟩ := h
    exact ⟨hn, rest ++ r, rfl⟩
  | _ => trivial

theorem Consumer.unremoved_le {q : List DataBuffer} {c : Consumer} (h : c.holds q) :
    c.unremoved ≤ (bytesOf q).length := by
  cases c with
  | remove buf n =>
    obtain ⟨hn, rest, rfl⟩ := h
    simp only [unremoved, bytesOf_cons, List.length_append]
    exact Nat.le_trans hn (Nat.le_add_right _ _)
  | _ => exact Nat.zero_le _

/-- `accepted` is what the kernel has taken from this connection and
`registered` the mask epoll holds for `fd_`. -/
structure SendHandler where
  sendQueue : List DataBuffer
  writeEventsEnabled : Bool
  registered : Nat
  isOpen : Bool
  accepted : List UInt8
  calls : List Call
  consumer : Consumer
  log : List String
  deriving DecidableEq, Repr

inductive SendAct where
  | push (buf : DataBuffer)
  | enableTest (i : Nat)
  | enableEvents (i : Nat)
  | enableModify (i : Nat) (ok : Bool)
  | enableRestore (i : Nat)
  | enableClose (i : Nat) (owner : Bool)
  | handleWrite
  | front
  | send (r : SendResult)
  | remove (ptr : Nat)
  | testEmpty
  | disableTest
  | disableEvents
  | disableModify (ok : Bool)
  | handleConnectionClose
  deriving DecidableEq, Repr

namespace SendHandler

def created : SendHandler where
  sendQueue := []
  writeEventsEnabled := false
  registered := epollEvents (getEvents false)
  isOpen := true
  accepted := []
  calls := []
  consumer := .idle
  log := []

def queueSend (s : SendHandler) (buf : DataBuffer) : SendHandler :=
  if buf.size = 0 then s
  else { s with sendQueue := s.sendQueue ++ [buf], calls := s.calls ++ [.testFlag] }

def setCall (s : SendHandler) (i : Nat) (c : Call) : SendHandler :=
  { s with calls := s.calls.set i c }

/-! `EnableWriteEvents` inside the `i`-th call of `QueueSend`, one access at a time. -/

def enableTest (s : SendHandler) (i : Nat) : Option SendHandler :=
  if s.calls[i]? = some .testFlag then
    if s.writeEventsEnabled then some (s.setCall i .returned)
    else some { s.setCall i .evalEvents with writeEventsEnabled := true }
  else none

def enableEvents (s : SendHandler) (i : Nat) : Option SendHandler :=
  if s.calls[i]? = some .evalEvents then
    some (s.setCall i (.modify (getEvents s.writeEventsEnabled)))
  else none

def enableModify (s : SendHandler) (i : Nat) (ok : Bool) : Option SendHandler :=
  match s.calls[i]? with
  | some (.modify events) =>
    if ok then some { s.setCall i .returned with registered := epollEvents events }
    else some (s.setCall i .restoreFlag)
  | _ => none

def enableRestore (s : SendHandler) (k : HandlerClass) (i : Nat) : Option SendHandler :=
  if s.calls[i]? = some .restoreFlag then
    some { s.setCall i .closeConnection with
      writeEventsEnabled := false, log := s.log ++ [k.enableFailed] }
  else none

/-- `QueueSend` closes the connection when `EnableWriteEvents` has failed. -/
def enableClose (s : SendHandler) (i : Nat) (owner : Bool) : Option SendHandler :=
  if s.calls[i]? = some .closeConnection then
    some { s.setCall i .returned with isOpen := s.isOpen && !owner }
  else none

/-! `ProcessSendQueue` on the reactor thread. -/

def takeFront (s : SendHandler) : SendHandler :=
  match s.sendQueue with
  | [] => { s with consumer := .testEmpty }
  | buf :: _ => { s with consumer := .send buf }

def sendFront (s : SendHandler) (buf : DataBuffer) : SendResult → Option SendHandler
  | .bytes n =>
      if s.isOpen ∧ n ≤ buf.size then
        some { s with
          accepted := s.accepted ++ buf.bytes.take n
          consumer := if n = 0 then .front else .remove buf n }
      else none
  | .wouldBlock => if s.isOpen then some { s with consumer := .testEmpty } else none
  | .error owner =>
      some { s with
        consumer := .idle
        isOpen := s.isOpen && !owner
        log := s.log ++ ["Send error on fd"] }

/-- The critical section after a `send` of `bytesSent` bytes of `buf`; `ptr` is
where `PoolAlloc` puts the remainder. -/
def removeFront (s : SendHandler) (buf : DataBuffer) (bytesSent ptr : Nat) : SendHandler :=
  match s.sendQueue with
  | f :: rest =>
    if f.ptr = buf.ptr then
      if bytesSent = buf.size then { s with sendQueue := rest, consumer := .front }
      else { s with sendQueue := ⟨ptr, buf.bytes.drop bytesSent⟩ :: rest, consumer := .front }
    else { s with consumer := .front }
  | [] => { s with consumer := .front }

def testEmpty (s : SendHandler) : Option SendHandler :=
  if s.consumer = .testEmpty then
    some { s with consumer := if s.sendQueue.isEmpty then .testFlag else .idle }
  else none

/-! `DisableWriteEvents`. -/

def disableTest (s : SendHandler) : Option SendHandler :=
  if s.consumer = .testFlag then
    if s.writeEventsEnabled then
      some { s with writeEventsEnabled := false, consumer := .evalEvents }
    else some { s with consumer := .idle }
  else none

def disableEvents (s : SendHandler) : Option SendHandler :=
  if s.consumer = .evalEvents then
    some { s with consumer := .modify (getEvents s.writeEventsEnabled) }
  else none

def disableModify (s : SendHandler) (k : HandlerClass) (ok : Bool) : Option SendHandler :=
  match s.consumer with
  | .modify events =>
    if ok then some { s with registered := epollEvents events, consumer := .idle }
    else some { s with log := s.log ++ [k.disableFailed], consumer := .idle }
  | _ => none

def step (k : HandlerClass) (s : SendHandler) : SendAct → Option SendHandler
  | .push buf => some (s.queueSend buf)
  | .enableTest i => s.enableTest i
  | .enableEvents i => s.enableEvents i
  | .enableModify i ok => s.enableModify i ok
  | .enableRestore i => s.enableRestore k i
  | .enableClose i owner => s.enableClose i owner
  | .handleWrite => if s.consumer = .idle then some { s with consumer := .front } else none
  | .front => if s.consumer = .front then some s.takeFront else none
  | .send r =>
      match s.consumer with
      | .send buf => s.sendFront buf r
      | _ => none
  | .remove ptr =>
      match s.consumer with
      | .remove buf n => some (s.removeFront buf n ptr)
      | _ => none
  | .testEmpty => s.testEmpty
  | .disableTest => s.disableTest
  | .disableEvents => s.disableEvents
  | .disableModify ok => s.disableModify k ok
  | .handleConnectionClose => some { s with isOpen := false }

def machine (k : HandlerClass) : Machine SendHandler SendAct where
  init s := s = created
  step := step k

/-! The queue as a byte stream. -/

/-- The stream this handler implements: the kernel has `gone`, the rest is `held`. -/
def stream (s : SendHandler) : Fifo UInt8 :=
  ⟨s.accepted, (bytesOf s.sendQueue).drop s.consumer.unremoved⟩

/-- The stream actions of a step: `QueueSend` pushes and `send` passes. -/
def streamActs : SendAct → List (Fifo.Act UInt8)
  | .push buf => [.push buf.bytes]
  | .send (.bytes n) => [.pass n]
  | _ => []

def queuedBytes (as : List SendAct) : List UInt8 := Fifo.pushed (as.flatMap streamActs)

/-- A step that leaves queue, consumer and kernel alone is invisible in the stream. -/
theorem stream_frame {s s' : SendHandler} (hq : s'.sendQueue = s.sendQueue)
    (hc : s'.consumer = s.consumer) (ha : s'.accepted = s.accepted) :
    s'.stream = s.stream := by
  simp [stream, hq, hc, ha]

theorem queueSend_stream (s : SendHandler) (buf : DataBuffer) (h : s.consumer.holds s.sendQueue) :
    (s.queueSend buf).stream = { s.stream with held := s.stream.held ++ buf.bytes } := by
  unfold queueSend
  split
  · rename_i hz
    have hb : buf.bytes = [] := List.length_eq_zero_iff.mp hz
    simp [hb]
  · have hle := Consumer.unremoved_le h
    simp [stream, List.drop_append_of_le_length hle]

theorem sendFront_stream {s s' : SendHandler} {buf : DataBuffer} {r : SendResult}
    (hc : s.consumer = .send buf) (hq : s.consumer.holds s.sendQueue)
    (h : s.sendFront buf r = some s') :
    s'.consumer.holds s'.sendQueue ∧
      Fifo.machine.run s.stream (streamActs (.send r)) = some s'.stream := by
  obtain ⟨rest, hrest⟩ : ∃ rest, s.sendQueue = buf :: rest := by simpa [hc, Consumer.holds] using hq
  cases r with
  | bytes n =>
    simp only [sendFront] at h
    split at h
    · rename_i hn
      cases h
      have hlen : n ≤ buf.bytes.length := hn.2
      constructor
      · by_cases h0 : n = 0 <;> simp [h0, Consumer.holds, hrest, hn.2]
      · have hle : n ≤ s.stream.held.length := by
          simp only [stream, hc, Consumer.unremoved, hrest, bytesOf_cons, List.drop_zero,
            List.length_append]
          omega
        simp only [streamActs]
        rw [Fifo.run_pass hle]
        by_cases h0 : n = 0
        · simp [stream, hc, Consumer.unremoved, h0]
        · simp [stream, hc, Consumer.unremoved, h0, hrest, List.take_append_of_le_length hlen]
    · cases h
  | wouldBlock =>
    simp only [sendFront] at h
    split at h
    · cases h
      exact ⟨trivial, by simp [streamActs, stream, hc, Consumer.unremoved]⟩
    · cases h
  | error owner =>
    simp only [sendFront, Option.some.injEq] at h
    subst h
    exact ⟨trivial, by simp [streamActs, stream, hc, Consumer.unremoved]⟩

theorem removeFront_stream {s : SendHandler} {buf : DataBuffer} {n : Nat} (ptr : Nat)
    (hc : s.consumer = .remove buf n) (hq : s.consumer.holds s.sendQueue) :
    (s.removeFront buf n ptr).consumer.holds (s.removeFront buf n ptr).sendQueue ∧
      (s.removeFront buf n ptr).stream = s.stream := by
  obtain ⟨hn, rest, hrest⟩ : n ≤ buf.size ∧ ∃ rest, s.sendQueue = buf :: rest := by
    simpa [hc, Consumer.holds] using hq
  have hlen : n ≤ buf.bytes.length := hn
  simp only [removeFront, hrest, if_true]
  split
  · rename_i hall
    have hall' : n = buf.bytes.length := hall
    exact ⟨trivial, by simp [stream, hc, Consumer.unremoved, hrest, hall']⟩
  · exact ⟨trivial, by simp [stream, hc, Consumer.unremoved, hrest,
      List.drop_append_of_le_length hlen]⟩

structure SameStream (s s' : SendHandler) : Prop where
  sendQueue : s'.sendQueue = s.sendQueue
  consumer : s'.consumer = s.consumer
  accepted : s'.accepted = s.accepted

theorem enableTest_same {s s' : SendHandler} {i : Nat} (h : s.enableTest i = some s') :
    SameStream s s' := by
  unfold enableTest at h
  split at h
  · split at h <;> cases h <;> exact ⟨rfl, rfl, rfl⟩
  · cases h

theorem enableEvents_same {s s' : SendHandler} {i : Nat} (h : s.enableEvents i = some s') :
    SameStream s s' := by
  unfold enableEvents at h
  split at h
  · cases h
    exact ⟨rfl, rfl, rfl⟩
  · cases h

theorem enableModify_same {s s' : SendHandler} {i : Nat} {ok : Bool}
    (h : s.enableModify i ok = some s') : SameStream s s' := by
  unfold enableModify at h
  split at h
  · split at h <;> cases h <;> exact ⟨rfl, rfl, rfl⟩
  · cases h

theorem enableRestore_same {s s' : SendHandler} {k : HandlerClass} {i : Nat}
    (h : s.enableRestore k i = some s') : SameStream s s' := by
  unfold enableRestore at h
  split at h
  · cases h
    exact ⟨rfl, rfl, rfl⟩
  · cases h

theorem enableClose_same {s s' : SendHandler} {i : Nat} {owner : Bool}
    (h : s.enableClose i owner = some s') : SameStream s s' := by
  unfold enableClose at h
  split at h
  · cases h
    exact ⟨rfl, rfl, rfl⟩
  · cases h

theorem SameStream.refines {s s' : SendHandler} (h : SameStream s s')
    (hq : s.consumer.holds s.sendQueue) :
    s'.consumer.holds s'.sendQueue ∧ Fifo.machine.run s.stream [] = some s'.stream := by
  rw [h.consumer, h.sendQueue, stream_frame h.sendQueue h.consumer h.accepted]
  exact ⟨hq, rfl⟩

theorem control_refines {s s' : SendHandler} (hq : s'.sendQueue = s.sendQueue)
    (ha : s'.accepted = s.accepted) (hc : s.consumer.unremoved = 0)
    (hc' : s'.consumer.unremoved = 0) (hh : s'.consumer.holds s'.sendQueue) :
    s'.consumer.holds s'.sendQueue ∧ Fifo.machine.run s.stream [] = some s'.stream := by
  refine ⟨hh, ?_⟩
  simp [stream, hq, ha, hc, hc']

theorem takeFront_refines {s : SendHandler} (hc : s.consumer = .front) :
    s.takeFront.consumer.holds s.takeFront.sendQueue ∧
      Fifo.machine.run s.stream [] = some s.takeFront.stream := by
  unfold takeFront
  split
  · exact control_refines rfl rfl (by simp [hc, Consumer.unremoved]) rfl trivial
  · rename_i buf rest hq
    exact control_refines rfl rfl (by simp [hc, Consumer.unremoved]) rfl ⟨rest, hq⟩

theorem testEmpty_refines {s s' : SendHandler} (h : s.testEmpty = some s') :
    s'.consumer.holds s'.sendQueue ∧ Fifo.machine.run s.stream [] = some s'.stream := by
  unfold testEmpty at h
  split at h
  · rename_i hc
    cases h
    refine control_refines rfl rfl (by simp [hc, Consumer.unremoved]) ?_ ?_
    · by_cases he : s.sendQueue.isEmpty <;> simp [he, Consumer.unremoved]
    · by_cases he : s.sendQueue.isEmpty <;> simp [he, Consumer.holds]
  · cases h

theorem disableTest_refines {s s' : SendHandler} (h : s.disableTest = some s') :
    s'.consumer.holds s'.sendQueue ∧ Fifo.machine.run s.stream [] = some s'.stream := by
  unfold disableTest at h
  split at h
  · rename_i hc
    split at h <;> cases h <;>
      exact control_refines rfl rfl (by simp [hc, Consumer.unremoved]) rfl trivial
  · cases h

theorem disableEvents_refines {s s' : SendHandler} (h : s.disableEvents = some s') :
    s'.consumer.holds s'.sendQueue ∧ Fifo.machine.run s.stream [] = some s'.stream := by
  unfold disableEvents at h
  split at h
  · rename_i hc
    cases h
    exact control_refines rfl rfl (by simp [hc, Consumer.unremoved]) rfl trivial
  · cases h

theorem disableModify_refines {s s' : SendHandler} {k : HandlerClass} {ok : Bool}
    (h : s.disableModify k ok = some s') :
    s'.consumer.holds s'.sendQueue ∧ Fifo.machine.run s.stream [] = some s'.stream := by
  unfold disableModify at h
  split at h
  · rename_i events hc
    split at h <;> cases h <;>
      exact control_refines rfl rfl (by simp [hc, Consumer.unremoved]) rfl trivial
  · cases h

/-- Each step is the stream actions of its label. -/
theorem step_refines (k : HandlerClass) {s s' : SendHandler} {a : SendAct}
    (hq : s.consumer.holds s.sendQueue) (h : s.step k a = some s') :
    s'.consumer.holds s'.sendQueue ∧
      Fifo.machine.run s.stream (streamActs a) = some s'.stream := by
  cases a with
  | push buf =>
    simp only [step, Option.some.injEq] at h
    subst h
    refine ⟨?_, by rw [queueSend_stream s buf hq]; rfl⟩
    unfold queueSend
    split
    · exact hq
    · exact Consumer.holds_append hq
  | enableTest i => exact (enableTest_same h).refines hq
  | enableEvents i => exact (enableEvents_same h).refines hq
  | enableModify i ok => exact (enableModify_same h).refines hq
  | enableRestore i => exact (enableRestore_same h).refines hq
  | enableClose i owner => exact (enableClose_same h).refines hq
  | handleWrite =>
    simp only [step] at h
    split at h
    · rename_i hc
      cases h
      exact control_refines rfl rfl (by simp [hc, Consumer.unremoved]) rfl trivial
    · cases h
  | front =>
    simp only [step] at h
    split at h
    · rename_i hc
      cases h
      exact takeFront_refines hc
    · cases h
  | send r =>
    simp only [step] at h
    split at h
    · rename_i buf hc
      exact sendFront_stream hc hq h
    · cases h
  | remove ptr =>
    simp only [step] at h
    split at h
    · rename_i buf n hc
      cases h
      obtain ⟨hh, hs⟩ := removeFront_stream ptr hc hq
      exact ⟨hh, by rw [hs]; rfl⟩
    · cases h
  | testEmpty => exact testEmpty_refines h
  | disableTest => exact disableTest_refines h
  | disableEvents => exact disableEvents_refines h
  | disableModify ok => exact disableModify_refines h
  | handleConnectionClose =>
    simp only [step, Option.some.injEq] at h
    subst h
    exact ⟨hq, rfl⟩

/-- A run of the handler is a run of the stream. -/
theorem run_refines (k : HandlerClass) {t : SendHandler} {as : List SendAct}
    (h : (machine k).run created as = some t) :
    Fifo.machine.run created.stream (as.flatMap streamActs) = some t.stream :=
  (machine k).run_simulation Fifo.machine (I := fun s => s.consumer.holds s.sendQueue)
    stream streamActs (fun _ _ _ hs ha => step_refines k hs ha) trivial h

/-- At every moment of every run the bytes the kernel has accepted, followed by
the bytes the queue still holds, are the queued buffers in queueing order. Only
between a `send` and the critical section that removes what it reported are
those bytes also still in the queue. -/
theorem accepted_append_held (k : HandlerClass) {as : List SendAct} {t : SendHandler}
    (h : (machine k).run created as = some t) :
    t.accepted ++ (bytesOf t.sendQueue).drop t.consumer.unremoved = queuedBytes as ∧
      ((∀ buf n, t.consumer ≠ .remove buf n) →
        t.accepted ++ bytesOf t.sendQueue = queuedBytes as) := by
  have htotal : t.accepted ++ (bytesOf t.sendQueue).drop t.consumer.unremoved =
      queuedBytes as := by
    simpa [Fifo.total, stream, created, queuedBytes] using Fifo.run_total (run_refines k h)
  refine ⟨htotal, fun hne => ?_⟩
  have h0 : t.consumer.unremoved = 0 := by
    cases hc : t.consumer with
    | remove buf n => exact absurd hc (hne buf n)
    | _ => rfl
  simpa [h0] using htotal

def partialSend : List SendAct :=
  [.push ⟨1, [7, 8]⟩, .handleWrite, .front, .send (.bytes 1), .push ⟨2, [9]⟩, .remove 3]

theorem accepted_append_held_partialSend :
    ∃ t, (machine .tcpClientHandler).run created partialSend = some t ∧
      t.accepted ++ (bytesOf t.sendQueue).drop t.consumer.unremoved = [7, 8, 9] := by
  have hrun : (machine .tcpClientHandler).run created partialSend = some _ := rfl
  exact ⟨_, hrun, (accepted_append_held .tcpClientHandler hrun).1⟩

end SendHandler

end Lmnet.Epoll
