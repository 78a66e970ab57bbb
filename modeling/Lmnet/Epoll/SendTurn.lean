import Lmnet.Epoll.ClosedNumber
import Lmnet.Epoll.LifeCycle
import Lmnet.Epoll.SendHandler

/-!
`ProcessSendQueue` of the epoll `TcpConnectionHandler` as the models of it have it: a call of it
is a run of `SendHandler` in which the reactor thread is alone, and `tcpProcessSendQueue` makes the
same of the queue.
-/

set_option autoImplicit false

namespace Lmnet.Epoll

def unsent (buf : List UInt8) (rest : List (List UInt8)) (n : Nat) : List (List UInt8) :=
  if n < buf.length then buf.drop n :: rest else rest

theorem unsent_zero {buf : List UInt8} (rest : List (List UInt8)) (h : buf ≠ []) :
    unsent buf rest 0 = buf :: rest := by
  rw [unsent, if_pos (List.length_pos_iff.mpr h), List.drop_zero]

theorem unsent_ne_nil {buf : List UInt8} {rest : List (List UInt8)} {n : Nat}
    (h : ∀ b ∈ rest, b ≠ []) : ∀ b ∈ unsent buf rest n, b ≠ [] := by
  unfold unsent
  split
  · rename_i hn
    intro b hb
    rcases List.mem_cons.mp hb with rfl | hb
    · exact fun hnil => absurd (List.drop_eq_nil_iff.mp hnil) (Nat.not_le.mpr hn)
    · exact h b hb
  · exact h

namespace ServerLife

variable {c : Nat} {ctl : Option Int}

def setQueue (s : ServerLife) (c : Nat) (queue : List (List UInt8)) : ServerLife :=
  s.setClient c fun cl => { cl with sendQueue := queue }

/-- One round of the loop: `send` takes bytes of the front, would block, or fails. -/
theorem processSendQueue_cons {s s' : ServerLife} {cl : Client} {r : SendReturn}
    {rs : List SendReturn} (hcl : s.clients[c]? = some cl)
    (h : s.processSendQueue c ctl (r :: rs) = some s') :
    ∃ buf rest, cl.sendQueue = buf :: rest ∧
      ((∃ n, r = .bytes n ∧ n ≤ buf.length ∧
          (s.setQueue c (unsent buf rest n)).processSendQueue c ctl rs = some s') ∨
        (r = .wouldBlock ∧ rs = [] ∧ s' = s) ∨
        ∃ errno, r = .error errno ∧ rs = [] ∧
          s' = s.handleConnectionClose cl.fd (some (.errno errno))) := by
  simp only [processSendQueue, hcl] at h
  split at h
  · rename_i buf rest n hqueue
    refine ⟨buf, rest, hqueue, .inl ⟨n, rfl, ?_⟩⟩
    split at h
    · rename_i hn
      rw [unsent, if_pos hn]
      exact ⟨Nat.le_of_lt hn, h⟩
    · rename_i hn
      split at h
      · rename_i heq
        rw [unsent, if_neg hn]
        exact ⟨Nat.le_of_eq heq, h⟩
      · cases h
  · rename_i buf rest hqueue
    split at h
    · rename_i hrs
      cases h
      exact ⟨buf, rest, hqueue, .inr (.inl ⟨rfl, hrs, rfl⟩)⟩
    · cases h
  · rename_i buf rest errno hqueue
    split at h
    · rename_i hrs
      cases h
      exact ⟨buf, rest, hqueue, .inr (.inr ⟨errno, rfl, hrs, rfl⟩)⟩
    · cases h
  · cases h

theorem processSendQueue_nil {s s' : ServerLife} {cl : Client} (hcl : s.clients[c]? = some cl)
    (h : s.processSendQueue c ctl [] = some s') :
    cl.sendQueue = [] ∧ s' = s.disableWriteEvents c cl ctl := by
  simp only [processSendQueue, hcl] at h
  split at h
  · rename_i hqueue
    cases h
    exact ⟨hqueue, rfl⟩
  · cases h

theorem clients_setQueue {s : ServerLife} {cl : Client} (hcl : s.clients[c]? = some cl)
    (queue : List (List UInt8)) :
    (s.setQueue c queue).clients[c]? = some { cl with sendQueue := queue } := by
  simp [setQueue, setClient, hcl]

theorem Inv.setQueue {s : ServerLife} (h : s.Inv) (c : Nat) (queue : List (List UInt8)) :
    (s.setQueue c queue).Inv :=
  h.setClient c (fun _ => ⟨rfl, rfl⟩) fun _ => rfl

theorem Inv.closed {s : ServerLife} (h : s.Inv) {cl : Client} (hcl : s.clients[c]? = some cl)
    (hopen : cl.isOpen = true) (error : Option Reason) :
    (s.handleConnectionClose cl.fd error).clients[c]? = some cl.close := by
  rw [h.handleConnectionClose_eq (h.recorded_open hcl hopen).1]
  simp [hcl]

end ServerLife

def SendAct.ofReactor : SendAct → Bool
  | .front | .send _ | .remove _ | .testEmpty | .disableTest | .disableEvents
  | .disableModify _ => true
  | _ => false

namespace SendHandler

variable {k : HandlerClass}

structure Of (x : SendHandler) (s : ServerLife) (cl : Client) : Prop where
  sendQueue : x.sendQueue.map DataBuffer.bytes = cl.sendQueue
  writeEventsEnabled : x.writeEventsEnabled = cl.writeEventsEnabled
  isOpen : x.isOpen = cl.isOpen
  registered : cl.isOpen = true → s.reactor.interest.lookup cl.fd = some x.registered

structure Keeps (x x' : SendHandler) : Prop where
  writeEventsEnabled : x'.writeEventsEnabled = x.writeEventsEnabled
  isOpen : x'.isOpen = x.isOpen
  registered : x'.registered = x.registered

theorem Of.keep {x x' : SendHandler} {s s' : ServerLife} {cl : Client} (h : x.Of s cl)
    (hkeeps : x.Keeps x') (hreactor : s'.reactor = s.reactor) {queue : List (List UInt8)}
    (hqueue : x'.sendQueue.map DataBuffer.bytes = queue) :
    x'.Of s' { cl with sendQueue := queue } where
  sendQueue := hqueue
  writeEventsEnabled := hkeeps.writeEventsEnabled.trans h.writeEventsEnabled
  isOpen := hkeeps.isOpen.trans h.isOpen
  registered hopen := by rw [hkeeps.registered, hreactor, h.registered hopen]

theorem run_bytes {x : SendHandler} {buf : DataBuffer} {rest : List DataBuffer} {n : Nat}
    (hconsumer : x.consumer = .front) (hqueue : x.sendQueue = buf :: rest)
    (hopen : x.isOpen = true) (hne : buf.bytes ≠ []) (hn : n ≤ buf.bytes.length) :
    ∃ as x', (machine k).run x as = some x' ∧ (∀ a ∈ as, a.ofReactor = true) ∧
      x'.consumer = .front ∧ x.Keeps x' ∧
      x'.sendQueue.map DataBuffer.bytes = unsent buf.bytes (rest.map DataBuffer.bytes) n := by
  have hsize : n ≤ buf.size := hn
  by_cases hzero : n = 0
  · subst hzero
    refine ⟨[.front, .send (.bytes 0)], { x with accepted := x.accepted ++ [] }, ?_,
      by simp [SendAct.ofReactor], hconsumer, ⟨rfl, rfl, rfl⟩, ?_⟩
    · simp [machine, Machine.run, step, takeFront, sendFront, hconsumer, hqueue, hopen]
    · simp only [hqueue, List.map_cons, unsent_zero _ hne]
  · refine ⟨[.front, .send (.bytes n), .remove 0], { x with
        accepted := x.accepted ++ buf.bytes.take n
        sendQueue := if n = buf.size then rest else ⟨0, buf.bytes.drop n⟩ :: rest },
      ?_, by simp [SendAct.ofReactor], hconsumer, ⟨rfl, rfl, rfl⟩, ?_⟩
    · simp only [machine, Machine.run, step, takeFront, sendFront, hconsumer, hqueue, hopen, hsize,
        hzero, removeFront, if_true, if_false, and_self, Option.bind_some]
      split <;> simp [← hconsumer]
    · unfold unsent
      by_cases heq : n = buf.bytes.length
      · simp [DataBuffer.size, heq]
      · have hlt : n < buf.bytes.length := Nat.lt_of_le_of_ne hn heq
        simp [DataBuffer.size, heq, hlt]

theorem run_disable {x : SendHandler} (hconsumer : x.consumer = .front) (hqueue : x.sendQueue = [])
    (ok : Bool) :
    ∃ as x', (machine k).run x as = some x' ∧ (∀ a ∈ as, a.ofReactor = true) ∧
      x'.consumer = .idle ∧ x'.sendQueue = [] ∧ x'.isOpen = x.isOpen ∧
      x'.writeEventsEnabled = false ∧ x'.registered =
        if x.writeEventsEnabled && ok then epollEvents (getEvents false) else x.registered := by
  cases hflag : x.writeEventsEnabled with
  | false =>
    refine ⟨[.front, .testEmpty, .disableTest], { x with consumer := .idle }, ?_,
      by simp [SendAct.ofReactor], rfl, hqueue, rfl, hflag, rfl⟩
    simp [machine, Machine.run, step, takeFront, testEmpty, disableTest, hconsumer, hqueue, hflag]
  | true =>
    refine ⟨[.front, .testEmpty, .disableTest, .disableEvents, .disableModify ok], { x with
        consumer := .idle
        writeEventsEnabled := false
        registered := if ok then epollEvents (getEvents false) else x.registered
        log := if ok then x.log else x.log ++ [k.disableFailed] }, ?_,
      by simp [SendAct.ofReactor], rfl, hqueue, rfl, rfl, by simp⟩
    cases ok <;> simp [machine, Machine.run, step, takeFront, testEmpty, disableTest, disableEvents,
      disableModify, hconsumer, hqueue, hflag]

end SendHandler

namespace ServerLife

theorem disableWriteEvents_of {s : ServerLife} (hs : s.Inv) {c : Nat} {cl : Client}
    {ctl : Option Int} {x x' : SendHandler} (hcl : s.clients[c]? = some cl)
    (hopen : cl.isOpen = true) (hx : x.Of s cl)
    (hqueue : x'.sendQueue.map DataBuffer.bytes = cl.sendQueue) (hisOpen : x'.isOpen = x.isOpen)
    (hflag : x'.writeEventsEnabled = false) (hregistered : x'.registered =
      if x.writeEventsEnabled && ctl.isNone then epollEvents (getEvents false)
      else x.registered) :
    ∃ cl', (s.disableWriteEvents c cl ctl).clients[c]? = some cl' ∧
      x'.Of (s.disableWriteEvents c cl ctl) cl' := by
  have hsession := (hs.recorded_open hcl hopen).1
  have hmem : cl.fd ∈ s.reactor.handlers := by
    rw [← AList.lookup_isSome, hs.registered, if_neg (hs.ne_socket hsession), hsession]
    rfl
  have hmask := hx.registered hopen
  rw [hx.writeEventsEnabled] at hregistered
  unfold disableWriteEvents
  cases henabled : cl.writeEventsEnabled with
  | false =>
    rw [henabled] at hregistered
    refine ⟨cl, hcl, hqueue, hflag.trans henabled.symm, hisOpen.trans hx.isOpen, fun _ => ?_⟩
    simpa [hregistered] using hmask
  | true =>
    rw [henabled] at hregistered
    refine ⟨{ cl with writeEventsEnabled := false }, by simp [setClient, hcl], hqueue, hflag,
      hisOpen.trans hx.isOpen, fun _ => ?_⟩
    cases ctl <;> simp_all [EventReactor.modifyHandler, hs.running, setClient]

/-- A call of `ProcessSendQueue` on an open client, with no `QueueSend` in between. -/
theorem processSendQueue_run {s s' : ServerLife} (hs : s.Inv) {c : Nat} {cl : Client}
    {ctl : Option Int} {rs : List SendReturn} (k : HandlerClass) {x : SendHandler}
    (hcl : s.clients[c]? = some cl) (hopen : cl.isOpen = true)
    (hne : ∀ buf ∈ cl.sendQueue, buf ≠ []) (hx : x.Of s cl) (hconsumer : x.consumer = .front)
    (h : s.processSendQueue c ctl rs = some s') :
    ∃ as x' cl', (SendHandler.machine k).run x as = some x' ∧ (∀ a ∈ as, a.ofReactor = true) ∧
      x'.consumer = .idle ∧ s'.clients[c]? = some cl' ∧ x'.Of s' cl' := by
  induction rs generalizing s cl x with
  | nil =>
    obtain ⟨hqueue, rfl⟩ := processSendQueue_nil hcl h
    have hempty : x.sendQueue = [] := List.map_eq_nil_iff.mp (hx.sendQueue.trans hqueue)
    obtain ⟨as, x', hrun, has, hidle, hqueue', hisOpen, hflag, hregistered⟩ :=
      SendHandler.run_disable (k := k) hconsumer hempty ctl.isNone
    obtain ⟨cl', hcl', hx'⟩ := disableWriteEvents_of hs hcl hopen hx
      (by rw [hqueue', hqueue, List.map_nil]) hisOpen hflag hregistered
    exact ⟨as, x', cl', hrun, has, hidle, hcl', hx'⟩
  | cons r rs ih =>
    obtain ⟨buf, rest, hqueue, hcases⟩ := processSendQueue_cons hcl h
    obtain ⟨front, others, hfront, hbuf, hothers⟩ :=
      List.map_eq_cons_iff.mp (hx.sendQueue.trans hqueue)
    have hisOpen : x.isOpen = true := hx.isOpen.trans hopen
    rcases hcases with ⟨n, rfl, hn, hrest⟩ | ⟨rfl, rfl, rfl⟩ | ⟨errno, rfl, rfl, rfl⟩
    · have hrestne : ∀ b ∈ rest, b ≠ [] := fun b hb => hne b (by simp [hqueue, hb])
      have hbufne : buf ≠ [] := hne buf (by simp [hqueue])
      obtain ⟨as, x₁, hrun, has, hfront₁, hkeeps, hqueue₁⟩ := SendHandler.run_bytes (k := k)
        hconsumer hfront hisOpen (hbuf ▸ hbufne) (hbuf ▸ hn)
      rw [hbuf, hothers] at hqueue₁
      have hreactor : (s.setQueue c (unsent buf rest n)).reactor = s.reactor := rfl
      have hx₁ := hx.keep hkeeps hreactor hqueue₁
      obtain ⟨bs, x', cl', hrun', hbs, hfinal⟩ := ih (hs.setQueue c _)
        (clients_setQueue hcl (unsent buf rest n)) hopen (unsent_ne_nil hrestne)
        hx₁ hfront₁ hrest
      refine ⟨as ++ bs, x', cl', (SendHandler.machine k).run_append.mpr ⟨x₁, hrun, hrun'⟩, ?_,
        hfinal⟩
      intro a ha
      exact (List.mem_append.mp ha).elim (has a) (hbs a)
    · refine ⟨[.front, .send .wouldBlock, .testEmpty], { x with consumer := .idle }, cl, ?_,
        by simp [SendAct.ofReactor], rfl, hcl, hx.sendQueue, hx.writeEventsEnabled, hx.isOpen,
        hx.registered⟩
      simp [SendHandler.machine, Machine.run, SendHandler.step, SendHandler.takeFront,
        SendHandler.sendFront, SendHandler.testEmpty, hconsumer, hfront, hisOpen]
    · refine ⟨[.front, .send (.error true)], { x with
          consumer := .idle
          isOpen := false
          log := x.log ++ ["Send error on fd"] }, cl.close, ?_, by simp [SendAct.ofReactor], rfl,
        hs.closed hcl hopen _, hx.sendQueue, hx.writeEventsEnabled, rfl,
        fun hclosed => by cases hclosed⟩
      simp [SendHandler.machine, Machine.run, SendHandler.step, SendHandler.takeFront,
        SendHandler.sendFront, hconsumer, hfront]

structure Handles (s : ServerLife) (cl : Client) (y : ConnectionHandler (List UInt8)) : Prop where
  fd : y.fd = cl.fd
  ownerAlive : y.ownerAlive = true
  known : y.known = cl.isOpen
  sendQueue : y.sendQueue = cl.sendQueue
  writeEventsEnabled : y.writeEventsEnabled = cl.writeEventsEnabled

theorem processSendQueue_handles {s s' : ServerLife} (hs : s.Inv) {c : Nat} {cl : Client}
    {ctl : Option Int} {rs : List SendReturn} {y : ConnectionHandler (List UInt8)}
    (hcl : s.clients[c]? = some cl) (hopen : cl.isOpen = true)
    (hne : ∀ buf ∈ cl.sendQueue, buf ≠ []) (hy : s.Handles cl y)
    (h : s.processSendQueue c ctl rs = some s') :
    ∃ y' cl', y.tcpProcessSendQueue .server rs = some y' ∧ s'.clients[c]? = some cl' ∧
      s'.Handles cl' y' := by
  induction rs generalizing s cl y with
  | nil =>
    obtain ⟨hqueue, rfl⟩ := processSendQueue_nil hcl h
    simp only [ConnectionHandler.tcpProcessSendQueue, hy.sendQueue, hqueue, if_true]
    unfold disableWriteEvents ConnectionHandler.disableWriteEvents
    rw [hy.writeEventsEnabled]
    split
    · exact ⟨_, { cl with writeEventsEnabled := false }, rfl, by simp [setClient, hcl], hy.fd,
        hy.ownerAlive, hy.known, hy.sendQueue, rfl⟩
    · exact ⟨_, cl, rfl, hcl, hy.fd, hy.ownerAlive, hy.known, hy.sendQueue,
        hy.writeEventsEnabled⟩
  | cons r rs ih =>
    obtain ⟨buf, rest, hqueue, hcases⟩ := processSendQueue_cons hcl h
    have hqueue' : y.sendQueue = buf :: rest := hy.sendQueue.trans hqueue
    rcases hcases with ⟨n, rfl, hn, hrest⟩ | ⟨rfl, rfl, rfl⟩ | ⟨errno, rfl, rfl, rfl⟩
    · have hrestne : ∀ b ∈ rest, b ≠ [] := fun b hb => hne b (by simp [hqueue, hb])
      have hbufne : buf ≠ [] := hne buf (by simp [hqueue])
      have hy₁ : (s.setQueue c (unsent buf rest n)).Handles
          { cl with sendQueue := unsent buf rest n }
          { y.calling [.send y.fd] with sendQueue := unsent buf rest n } :=
        ⟨hy.fd, hy.ownerAlive, hy.known, rfl, hy.writeEventsEnabled⟩
      obtain ⟨y', cl', hsend, hfinal⟩ := ih (hs.setQueue c _)
        (clients_setQueue hcl (unsent buf rest n)) hopen (unsent_ne_nil hrestne) hy₁ hrest
      refine ⟨y', cl', ?_, hfinal⟩
      rw [← hsend]
      simp only [ConnectionHandler.tcpProcessSendQueue, hqueue']
      by_cases hzero : n = 0
      · subst hzero
        simp [unsent_zero rest hbufne, ConnectionHandler.calling, ← hqueue']
      · rcases Nat.lt_or_eq_of_le hn with hlt | heq
        · simp [unsent, hzero, hlt]
        · simp [unsent, heq, hbufne]
    · exact ⟨y.calling [.send y.fd], cl, by simp [ConnectionHandler.tcpProcessSendQueue, hqueue'],
        hcl, hy.fd, hy.ownerAlive, hy.known, hy.sendQueue, hy.writeEventsEnabled⟩
    · refine ⟨(y.calling [.send y.fd]).closeByOwner .server, cl.close,
        by simp [ConnectionHandler.tcpProcessSendQueue, hqueue'],
        hs.closed hcl hopen _, ?_⟩
      have hknown : y.known = true := hy.known.trans hopen
      simp only [ConnectionHandler.closeByOwner, ConnectionHandler.handleConnectionClose,
        ConnectionHandler.calling, hy.ownerAlive, hknown, if_true]
      exact ⟨hy.fd, rfl, rfl, hy.sendQueue, hy.writeEventsEnabled⟩

end ServerLife

end Lmnet.Epoll
