import Lmnet.Darwin.SendWakeUp

/-!
One call of `ProcessSendQueue` of the kqueue connection handlers, from any queue and with any
results of `send`, and what is left to bring about the next one when it returns.
-/

set_option autoImplicit false

namespace Lmnet.Darwin

open Lmnet.Epoll (getEvents)

def SendAct.inLoop : SendAct → Bool
  | .front | .send _ | .remove _ | .events | .modify _ => true
  | _ => false

def SendAct.result : SendAct → Option SendResult
  | .send r => some r
  | _ => none

def lastSend (as : List SendAct) : Option SendResult := (as.filterMap SendAct.result).getLast?

theorem lastSend_cons_result {a : SendAct} {r : SendResult} (h : a.result = some r)
    (as : List SendAct) : lastSend (a :: as) = some ((lastSend as).getD r) := by
  rw [lastSend, List.filterMap_cons_some h, List.getLast?_cons]
  rfl

theorem lastSend_cons {a : SendAct} (h : a.result = none) (as : List SendAct) :
    lastSend (a :: as) = lastSend as := by
  rw [lastSend, List.filterMap_cons_none h]
  rfl

namespace SendHandler

/-- The steps of a call of `ProcessSendQueue` from its entry to its return, in which a `send`
that transfers bytes transfers at least one. -/
structure IsCall (k : HandlerClass) (s : SendHandler) (as : List SendAct) (t : SendHandler) :
    Prop where
  run : (machine k).run s (.handleWrite :: as) = some t
  inLoop : ∀ a ∈ as, a.inLoop = true
  transfers : .send (.bytes 0) ∉ as
  returned : t.consumer = .idle

def ended (s : SendHandler) : Bool := !s.isOpen && s.notified

/-- Why `ProcessSendQueue` may return: the queue is empty, the socket has become unwritable with
the registration as it was, or the connection is over. -/
def HasReason (s : SendHandler) (as : List SendAct) (t : SendHandler) : Prop :=
  t.sendQueue = [] ∨
    (lastSend as = some .wouldBlock ∧ t.registered = s.registered) ∨ t.ended = true

/-- A `send` takes the whole buffer, or none of it. -/
def SendsWhole (s : SendHandler) (a : SendAct) : Prop :=
  ∀ buf r, s.consumer = .send buf → a = .send r → r = .bytes buf.size ∨ r = .wouldBlock

/-! ### One turn of the loop -/

/-- Where the thread stands in the loop determines its next step, but for what it gets. -/
theorem step_inLoop {k : HandlerClass} {s s' : SendHandler} {a : SendAct}
    (hloop : a.inLoop = true) (hs : (machine k).step s a = some s') :
    (s.consumer = .front ∧ a = .front ∧ s' = s.takeFront) ∨
    (∃ buf r, s.consumer = .send buf ∧ a = .send r ∧ s.sendFront k buf r = some s') ∨
    (∃ buf n ptr, s.consumer = .remove buf n ∧ a = .remove ptr ∧ s' = s.removeFront buf n ptr) ∨
    (s.consumer = .evalEvents ∧ a = .events ∧
      s' = { s with consumer := .modify (getEvents s.writeEventsEnabled) }) ∨
    (∃ events kevent, s.consumer = .modify events ∧ a = .modify kevent ∧
      s' = { s with consumer := .idle }.modifyHandler events kevent) := by
  cases a with
  | front =>
    simp only [machine, step] at hs
    split at hs
    · cases hs
      exact .inl ⟨‹_›, rfl, rfl⟩
    · cases hs
  | send r =>
    simp only [machine, step] at hs
    split at hs
    · exact .inr (.inl ⟨_, r, ‹_›, rfl, hs⟩)
    · cases hs
  | remove ptr =>
    simp only [machine, step] at hs
    split at hs
    · cases hs
      exact .inr (.inr (.inl ⟨_, _, ptr, ‹_›, rfl, rfl⟩))
    · cases hs
  | events =>
    simp only [machine, step] at hs
    split at hs
    · cases hs
      exact .inr (.inr (.inr (.inl ⟨‹_›, rfl, rfl⟩)))
    · cases hs
  | modify kevent =>
    simp only [machine, step] at hs
    split at hs
    · cases hs
      exact .inr (.inr (.inr (.inr ⟨_, kevent, ‹_›, rfl, rfl⟩)))
    · cases hs
  | _ => cases hloop

theorem run_next {k : HandlerClass} {s t : SendHandler} {as : List SendAct}
    (hloop : ∀ a ∈ as, a.inLoop = true) (hrun : (machine k).run s as = some t)
    (hinside : s.consumer ≠ t.consumer) :
    ∃ a bs s', as = a :: bs ∧ a.inLoop = true ∧ (∀ b ∈ bs, b.inLoop = true) ∧
      (machine k).step s a = some s' ∧ (machine k).run s' bs = some t := by
  cases as with
  | nil => exact absurd (congrArg consumer (Option.some.inj hrun)) hinside
  | cons a bs =>
    obtain ⟨s', ha, hbs⟩ := (machine k).run_cons.mp hrun
    exact ⟨a, bs, s', rfl, hloop a List.mem_cons_self,
      fun b hb => hloop b (List.mem_cons_of_mem a hb), ha, hbs⟩

theorem run_idle {k : HandlerClass} {s t : SendHandler} {as : List SendAct}
    (hidle : s.consumer = .idle) (hloop : ∀ a ∈ as, a.inLoop = true)
    (hrun : (machine k).run s as = some t) : as = [] ∧ t = s := by
  cases as with
  | nil => exact ⟨rfl, (Option.some.inj hrun).symm⟩
  | cons a as =>
    obtain ⟨s', ha, -⟩ := (machine k).run_cons.mp hrun
    have hstep := step_inLoop (hloop a List.mem_cons_self) ha
    simp [hidle] at hstep

theorem run_empty {k : HandlerClass} {s t : SendHandler} {as : List SendAct}
    (hconsumer : s.consumer = .idle ∨ s.consumer = .evalEvents)
    (hloop : ∀ a ∈ as, a.inLoop = true) (hreturned : t.consumer = .idle)
    (hrun : (machine k).run s as = some t) :
    t.sendQueue = s.sendQueue ∧ ∀ r, .send r ∉ as := by
  rcases hconsumer with hidle | hevents
  · obtain ⟨rfl, rfl⟩ := run_idle hidle hloop hrun
    exact ⟨rfl, fun _ => List.not_mem_nil⟩
  · obtain ⟨a, bs, u, rfl, ha, hbs, hstep, hrun⟩ :=
      run_next hloop hrun (by simp [hevents, hreturned])
    have hu := step_inLoop ha hstep
    simp only [hevents, reduceCtorEq, false_and, exists_false, true_and, false_or, or_false]
      at hu
    obtain ⟨rfl, rfl⟩ := hu
    obtain ⟨b, cs, v, rfl, hb, hcs, hstep', hrun⟩ :=
      run_next hbs hrun (by simp [hreturned])
    have hv := step_inLoop hb hstep'
    simp only [reduceCtorEq, false_and, exists_false, false_or] at hv
    obtain ⟨events, kevent, -, rfl, rfl⟩ := hv
    obtain ⟨rfl, rfl⟩ := run_idle (by rfl) hcs hrun
    exact ⟨rfl, by simp⟩

theorem run_front {k : HandlerClass} {s t : SendHandler} {as : List SendAct}
    (hfront : s.consumer = .front) (hloop : ∀ a ∈ as, a.inLoop = true)
    (htransfers : .send (.bytes 0) ∉ as) (hreturned : t.consumer = .idle)
    (hrun : (machine k).run s as = some t) :
    (t.sendQueue = [] ∧ ∀ r, .send r ∉ as) ∨
    ∃ buf rest, s.sendQueue = buf :: rest ∧
      ((as = [.front, .send .wouldBlock] ∧ t.registered = s.registered) ∨
       (as = [.front, .send .error] ∧ t.sendQueue ≠ [] ∧ t.ended = s.ended) ∨
       (∃ n ptr, n ≠ buf.size ∧ as = [.front, .send (.bytes n), .remove ptr] ∧
          t.sendQueue ≠ [] ∧ t.ended = s.ended) ∨
       (∃ ptr bs, as = [.front, .send (.bytes buf.size), .remove ptr] ++ bs ∧
          (∀ b ∈ bs, b.inLoop = true) ∧
          (machine k).run { s with sendQueue := rest, consumer := .front } bs = some t)) := by
  obtain ⟨a, bs, u, rfl, ha, hbs, hstep, hrun⟩ :=
    run_next hloop hrun (by simp [hfront, hreturned])
  have hu := step_inLoop ha hstep
  simp only [hfront, reduceCtorEq, false_and, exists_false, true_and, or_false] at hu
  obtain ⟨rfl, rfl⟩ := hu
  cases hqueue : s.sendQueue with
  | nil =>
    left
    have hconsumer : s.takeFront.consumer = .idle ∨ s.takeFront.consumer = .evalEvents := by
      simp only [takeFront, hqueue]
      split <;> simp
    obtain ⟨hempty, hsends⟩ := run_empty hconsumer hbs hreturned hrun
    have hnone : s.takeFront.sendQueue = [] := by simp only [takeFront, hqueue]
    exact ⟨hempty.trans hnone, by simpa using hsends⟩
  | cons buf rest =>
    refine .inr ⟨buf, rest, rfl, ?_⟩
    have htake : s.takeFront = { s with consumer := .send buf } := by
      simp only [takeFront, hqueue]
    rw [htake] at hrun
    obtain ⟨b, cs, v, rfl, hb, hcs, hstep', hrun⟩ :=
      run_next hbs hrun (by simp [hreturned])
    have hv := step_inLoop hb hstep'
    simp only [reduceCtorEq, false_and, exists_false, false_or, or_false] at hv
    obtain ⟨buf', r, hbuf, rfl, hsend⟩ := hv
    cases hbuf
    cases r with
    | wouldBlock =>
      cases hsend
      obtain ⟨rfl, rfl⟩ := run_idle (by rfl) hcs hrun
      exact .inl ⟨rfl, rfl⟩
    | error =>
      cases hsend
      obtain ⟨rfl, rfl⟩ := run_idle (by rfl) hcs hrun
      exact .inr (.inl ⟨rfl, by simp [hqueue], rfl⟩)
    | bytes n =>
      have hpos : n ≠ 0 := by
        rintro rfl
        simp at htransfers
      simp only [sendFront, if_neg hpos] at hsend
      split at hsend
      · cases hsend
        obtain ⟨c, ds, w, rfl, hc, hds, hstep'', hrun⟩ :=
          run_next hcs hrun (by simp [hreturned])
        have hw := step_inLoop hc hstep''
        simp only [reduceCtorEq, false_and, exists_false, false_or, or_false] at hw
        obtain ⟨buf', n', ptr, hremove, rfl, rfl⟩ := hw
        cases hremove
        by_cases hwhole : n = buf.size
        · subst hwhole
          refine .inr (.inr (.inr ⟨ptr, ds, rfl, hds, ?_⟩))
          simpa only [removeFront, hqueue, if_true] using hrun
        · simp only [removeFront, hqueue, if_neg hwhole] at hrun
          obtain ⟨rfl, rfl⟩ := run_idle (by rfl) hds hrun
          exact .inr (.inr (.inl ⟨n, ptr, hwhole, rfl, by simp, rfl⟩))
      · cases hsend

/-! ### The call -/

theorem step_front {k : HandlerClass} {s : SendHandler} {buf : DataBuffer}
    {rest : List DataBuffer} (hfront : s.consumer = .front) (hqueue : s.sendQueue = buf :: rest) :
    (machine k).step s .front = some { s with consumer := .send buf } := by
  simp only [machine, step, if_pos hfront, takeFront, hqueue]

theorem sendsWhole_first {k : HandlerClass} {s t : SendHandler} {buf : DataBuffer}
    {rest : List DataBuffer} {r : SendResult} {as : List SendAct} (hfront : s.consumer = .front)
    (hqueue : s.sendQueue = buf :: rest)
    (hrun : (machine k).run s (.front :: .send r :: as) = some t)
    (h : (machine k).Every (fun s a _ => s.SendsWhole a) s (.front :: .send r :: as)) :
    r = .bytes buf.size ∨ r = .wouldBlock := by
  obtain ⟨u, hu, hrun⟩ := (machine k).run_cons.mp hrun
  obtain ⟨v, hv, -⟩ := (machine k).run_cons.mp hrun
  obtain rfl := Option.some.inj ((step_front hfront hqueue).symm.trans hu)
  exact ((h _ hu).2 v hv).1 buf r rfl rfl

theorem run_whole {k : HandlerClass} {s : SendHandler} {buf : DataBuffer}
    {rest : List DataBuffer} (ptr : Nat) (hfront : s.consumer = .front)
    (hqueue : s.sendQueue = buf :: rest) (hsize : buf.size ≠ 0) :
    (machine k).run s [.front, .send (.bytes buf.size), .remove ptr] =
        some { s with sendQueue := rest, consumer := .front } ∧
      (machine k).Every (fun s a _ => s.SendsWhole a) s
        [.front, .send (.bytes buf.size), .remove ptr] := by
  have hsend : (machine k).step { s with consumer := .send buf } (.send (.bytes buf.size)) =
      some { s with consumer := .remove buf buf.size } := by
    simp only [machine, step, sendFront, if_neg hsize, Nat.le_refl, if_true]
  have hremove : (machine k).step { s with consumer := .remove buf buf.size } (.remove ptr) =
      some { s with sendQueue := rest, consumer := .front } := by
    simp only [machine, step, removeFront, hqueue, if_true]
  refine ⟨?_, ?_⟩
  · exact (machine k).run_cons.mpr ⟨_, step_front hfront hqueue,
      (machine k).run_cons.mpr ⟨_, hsend, (machine k).run_cons.mpr ⟨_, hremove, rfl⟩⟩⟩
  · rw [(machine k).every_cons (step_front hfront hqueue), (machine k).every_cons hsend,
      (machine k).every_cons hremove]
    refine ⟨fun _ _ _ ha => (by cases ha), fun buf' r hbuf ha => ?_,
      fun _ _ _ ha => (by cases ha), trivial⟩
    cases hbuf
    cases ha
    exact .inl rfl

theorem hasReason_iff_of_front {k : HandlerClass} {t : SendHandler}
    (hreturned : t.consumer = .idle) {n : Nat} {as : List SendAct} (hn : as.length = n)
    {s : SendHandler} (hfront : s.consumer = .front) (hopen : s.ended = false)
    (hloop : ∀ a ∈ as, a.inLoop = true) (htransfers : .send (.bytes 0) ∉ as)
    (hrun : (machine k).run s as = some t) :
    s.HasReason as t ↔ (machine k).Every (fun s a _ => s.SendsWhole a) s as := by
  induction n using Nat.strongRecOn generalizing as s with
  | ind n ih =>
    have hfailed : ∀ (r : SendResult) (bs : List SendAct), r ≠ .wouldBlock →
        as = .front :: .send r :: bs → t.sendQueue ≠ [] → t.ended = s.ended →
        lastSend bs = none → ¬ s.HasReason as t := by
      rintro r bs hne rfl hqueue hsame hlast (hempty | ⟨hblock, -⟩ | hclosed)
      · exact hqueue hempty
      · rw [lastSend_cons rfl, lastSend_cons_result rfl, hlast] at hblock
        exact hne (Option.some.inj hblock)
      · rw [hsame, hopen] at hclosed
        cases hclosed
    rcases run_front hfront hloop htransfers hreturned hrun with ⟨hempty, hsends⟩ |
      ⟨buf, rest, hqueue, ⟨rfl, hsame⟩ | ⟨rfl, hne, hended⟩ | ⟨m, ptr, hm, rfl, hne, hended⟩ |
        ⟨ptr, bs, rfl, hbs, hrun'⟩⟩
    · refine iff_of_true (.inl hempty) ((machine k).every_of_mem fun a ha u _ buf r _ hr => ?_)
      exact absurd (hr ▸ ha) (hsends r)
    · refine iff_of_true (.inr (.inl ⟨rfl, hsame⟩)) ?_
      refine (machine k).every_of_mem fun a ha u _ buf' r _ hr => ?_
      subst hr
      simpa using Or.inr (by simpa using ha)
    · refine iff_of_false (hfailed .error [] (by simp) rfl hne hended rfl) fun h => ?_
      have hwhole := sendsWhole_first hfront hqueue hrun h
      simp at hwhole
    · refine iff_of_false (hfailed (.bytes m) [_] (by simp) rfl hne hended rfl) fun h => ?_
      have hwhole := sendsWhole_first hfront hqueue hrun h
      simp [hm] at hwhole
    · have hsize : buf.size ≠ 0 := fun hzero => htransfers (by simp [hzero])
      obtain ⟨hturn, hwhole⟩ := run_whole (k := k) ptr hfront hqueue hsize
      have hshorter : bs.length < n := by
        rw [← hn, List.length_append]
        exact Nat.lt_add_of_pos_left (Nat.succ_pos _)
      have hrest := ih bs.length hshorter (s := { s with sendQueue := rest, consumer := .front })
        rfl rfl hopen hbs (fun hin => htransfers (List.mem_append_right _ hin)) hrun'
      have hlast : lastSend ([.front, .send (.bytes buf.size), .remove ptr] ++ bs) =
          some .wouldBlock ↔ lastSend bs = some .wouldBlock := by
        simp only [List.cons_append, List.nil_append]
        rw [lastSend_cons rfl, lastSend_cons_result rfl, lastSend_cons rfl]
        cases lastSend bs <;> simp
      rw [(machine k).every_append]
      simp only [HasReason, hlast]
      refine hrest.trans ⟨fun h => ⟨hwhole, fun u hu => ?_⟩, fun h => h.2 _ hturn⟩
      rwa [← Option.some.inj (hturn.symm.trans hu)]

theorem step_ended {k : HandlerClass} {s s' : SendHandler} {a : SendAct}
    (hloop : a.inLoop = true) (hs : (machine k).step s a = some s') : s'.ended = s.ended := by
  rcases step_inLoop hloop hs with ⟨-, -, rfl⟩ | ⟨buf, r, -, -, hsend⟩ | ⟨buf, n, ptr, -, -, rfl⟩ |
    ⟨-, -, rfl⟩ | ⟨events, kevent, -, -, rfl⟩
  · unfold takeFront
    split <;> rfl
  · cases r with
    | bytes n =>
      simp only [sendFront] at hsend
      split at hsend
      · cases hsend
        rfl
      · cases hsend
    | wouldBlock =>
      cases hsend
      rfl
    | error =>
      cases hsend
      rfl
  · unfold removeFront
    split
    · rfl
    · split <;> rfl
  · rfl
  · rfl

theorem run_ended {k : HandlerClass} {s t : SendHandler} {as : List SendAct}
    (hloop : ∀ a ∈ as, a.inLoop = true) (hrun : (machine k).run s as = some t) :
    t.ended = s.ended := by
  induction as generalizing s with
  | nil =>
    cases hrun
    rfl
  | cons a as ih =>
    obtain ⟨u, hu, hrun⟩ := (machine k).run_cons.mp hrun
    have hrest := ih (fun b hb => hloop b (List.mem_cons_of_mem a hb)) hrun
    exact hrest.trans (step_ended (hloop a List.mem_cons_self) hu)

/-- When a call returns, from any state and with any results of `send`, it has its reason
exactly if the connection was over before or each `send` took its whole buffer or none of it. -/
theorem hasReason_iff_sendsWhole {k : HandlerClass} {s t : SendHandler} {as : List SendAct}
    (hcall : IsCall k s as t) :
    s.HasReason as t ↔ s.ended = true ∨
      (machine k).Every (fun s a _ => s.SendsWhole a) s (.handleWrite :: as) := by
  obtain ⟨u, hu, hrun⟩ := (machine k).run_cons.mp hcall.run
  have hstart : u = { s with consumer := .front } := by
    simp only [machine, step] at hu
    split at hu
    · exact (Option.some.inj hu).symm
    · cases hu
  subst hstart
  cases hopen : s.ended with
  | true =>
    have hclosed : t.ended = true := (run_ended hcall.inLoop hrun).trans hopen
    exact iff_of_true (.inr (.inr hclosed)) (.inl rfl)
  | false =>
    have hstep : s.SendsWhole .handleWrite := fun _ _ _ ha => by cases ha
    have hstays : ¬ false = true := by simp
    rw [(machine k).every_cons hu, and_iff_right hstep, or_iff_right hstays]
    exact hasReason_iff_of_front (s := { s with consumer := .front }) hcall.returned rfl rfl
      hopen hcall.inLoop hcall.transfers hrun

def twoBytesQueued : SendHandler :=
  { created 5 with
    sendQueue := [⟨1, [7, 8]⟩]
    writeEventsEnabled := true
    calls := [.returned]
    reactor := ((created 5).reactor.modifyHandler 5 (getEvents true) none).1 }

example : (machine .tcpConnectionHandler).run (created 5)
    [.push ⟨1, [7, 8]⟩, .callEvents 0, .callModify 0 none] = some twoBytesQueued := rfl

/-- Both bytes are sent. -/
theorem hasReason_iff_sendsWhole_bothSent :
    ∃ as t, IsCall .tcpConnectionHandler twoBytesQueued as t ∧
      (twoBytesQueued.HasReason as t ↔ twoBytesQueued.ended = true ∨
        (machine .tcpConnectionHandler).Every (fun s a _ => s.SendsWhole a) twoBytesQueued
          (.handleWrite :: as)) := by
  have hcall : IsCall .tcpConnectionHandler twoBytesQueued
      [.front, .send (.bytes 2), .remove 0, .front, .events, .modify none] _ :=
    ⟨rfl, by decide, by decide, rfl⟩
  exact ⟨_, _, hcall, hasReason_iff_sendsWhole hcall⟩

/-- The first byte is sent, and the call returns with the second in the queue. -/
theorem oneByteSent_noReason :
    ¬ ∀ (k : HandlerClass) (s t : SendHandler) (as : List SendAct),
      IsCall k s as t → s.HasReason as t := by
  intro h
  have hcall : IsCall .tcpConnectionHandler twoBytesQueued
      [.front, .send (.bytes 1), .remove 2] _ := ⟨rfl, by decide, by decide, rfl⟩
  rcases h _ _ _ _ hcall with hempty | ⟨hblock, -⟩ | hclosed
  · cases hempty
  · exact absurd hblock (by decide)
  · cases hclosed

end SendHandler

end Lmnet.Darwin
