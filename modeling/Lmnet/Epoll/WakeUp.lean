import Lmnet.Epoll.SendHandler

set_option autoImplicit false

namespace Lmnet.Epoll

def Call.armed : Call → Bool
  | .evalEvents => true
  | .modify events => hasEvent events .write
  | _ => false

def Consumer.armed : Consumer → Bool
  | .evalEvents => true
  | .modify events => hasEvent events .write
  | _ => false

namespace SendHandler

def quiescent (s : SendHandler) : Prop :=
  (∀ c ∈ s.calls, c = .returned) ∧ s.consumer = .idle

instance (s : SendHandler) : Decidable s.quiescent :=
  inferInstanceAs (Decidable (_ ∧ _))

/-- No queued message is stranded. -/
def WakeUp (s : SendHandler) : Prop :=
  s.quiescent → s.isOpen = true → s.sendQueue ≠ [] →
    includesWrite s.registered = true ∧ s.writeEventsEnabled = true

instance (s : SendHandler) : Decidable s.WakeUp :=
  inferInstanceAs (Decidable (_ → _ → _ → _ ∧ _))

def armed (s : SendHandler) : Bool := s.calls.any Call.armed || s.consumer.armed

/-- `ModifyHandler` succeeds wherever it is called. -/
def ModifySucceeds : SendAct → Prop
  | .enableModify _ ok => ok = true
  | .disableModify ok => ok = true
  | _ => True

/-- `ModifyHandler` is not about to take `WRITE` away while the flag is set and
no other thread will put it back. `s` is the state with the caller out of it. -/
def KeepsRegistration (s : SendHandler) (events : Nat) : Prop :=
  hasEvent events .write = true ∨ s.writeEventsEnabled = false ∨ s.armed = true

/-- The condition on a step under which no wake-up is lost. When
`DisableWriteEvents` clears the flag, the queue is empty or a pusher has yet to
test the flag; and no `ModifyHandler` drops a registration that the flag claims. -/
def KeepsWakeUp (s : SendHandler) : SendAct → Prop
  | .disableTest =>
      s.writeEventsEnabled = true → s.sendQueue = [] ∨ Call.testFlag ∈ s.calls
  | .enableModify i _ =>
      ∀ events, s.calls[i]? = some (.modify events) →
        (s.setCall i .returned).KeepsRegistration events
  | .disableModify _ =>
      ∀ events, s.consumer = .modify events →
        ({ s with consumer := .idle } : SendHandler).KeepsRegistration events
  | _ => True

/-- Every queued message has the flag set or a pusher about to test it, and a
set flag has its registration or a thread about to make it. -/
structure WakeUpInv (s : SendHandler) : Prop where
  flagged : s.sendQueue ≠ [] → s.writeEventsEnabled = true ∨ Call.testFlag ∈ s.calls
  registered : s.writeEventsEnabled = true →
    includesWrite s.registered = true ∨ s.armed = true
  noRestore : Call.restoreFlag ∉ s.calls

theorem WakeUpInv.wakeUp {s : SendHandler} (h : s.WakeUpInv) : s.WakeUp := by
  intro ⟨hcalls, hc⟩ _ hq
  have hflag : s.writeEventsEnabled = true := by
    rcases h.flagged hq with hf | hm
    · exact hf
    · exact absurd (hcalls _ hm) (by decide)
  refine ⟨?_, hflag⟩
  rcases h.registered hflag with hr | ha
  · exact hr
  · simp only [armed, hc, Consumer.armed, Bool.or_false, List.any_eq_true] at ha
    obtain ⟨c, hm, hca⟩ := ha
    rw [hcalls c hm] at hca
    exact absurd hca (by decide)

theorem wakeUpInv_created : created.WakeUpInv :=
  ⟨fun h => absurd rfl h, fun h => absurd h (by decide), by decide⟩

theorem mem_setCall {s : SendHandler} {i : Nat} {b c d : Call} (h : c ∈ s.calls)
    (hi : s.calls[i]? = some b) (hne : b ≠ c) : c ∈ (s.setCall i d).calls := by
  obtain ⟨j, hj⟩ := List.mem_iff_getElem?.mp h
  refine List.mem_iff_getElem?.mpr ⟨j, ?_⟩
  have hij : i ≠ j := by
    rintro rfl
    rw [hi] at hj
    exact hne (Option.some.inj hj)
  simp [setCall, List.getElem?_set_ne hij, hj]

theorem setCall_mem {s : SendHandler} {i : Nat} {b : Call} (d : Call)
    (hi : s.calls[i]? = some b) : d ∈ (s.setCall i d).calls := by
  obtain ⟨hlt, -⟩ := List.getElem?_eq_some_iff.mp hi
  exact List.mem_iff_getElem?.mpr ⟨i, by simp [setCall, hlt]⟩

theorem armed_setCall {s : SendHandler} {i : Nat} {b : Call} (d : Call) (h : s.armed = true)
    (hi : s.calls[i]? = some b) (hb : b.armed = false) : (s.setCall i d).armed = true := by
  simp only [armed, Bool.or_eq_true, List.any_eq_true] at h ⊢
  rcases h with ⟨c, hm, hc⟩ | hc
  · refine .inl ⟨c, mem_setCall hm hi ?_, hc⟩
    rintro rfl
    rw [hb] at hc
    cases hc
  · exact .inr hc

theorem armed_of_mem {s : SendHandler} {c : Call} (hm : c ∈ s.calls) (hc : c.armed = true) :
    s.armed = true := by
  simp only [armed, Bool.or_eq_true, List.any_eq_true]
  exact .inl ⟨c, hm, hc⟩

theorem not_mem_setCall {s : SendHandler} {i : Nat} {c d : Call} (h : c ∉ s.calls)
    (hne : d ≠ c) : c ∉ (s.setCall i d).calls := by
  intro hm
  rcases List.mem_or_eq_of_mem_set hm with hm | hm
  · exact h hm
  · exact hne hm.symm

theorem queueSend_wakeUpInv {s : SendHandler} (buf : DataBuffer) (h : s.WakeUpInv) :
    (s.queueSend buf).WakeUpInv := by
  unfold queueSend
  split
  · exact h
  · refine ⟨fun _ => .inr (by simp), fun hf => ?_, by simpa using h.noRestore⟩
    rcases h.registered hf with hr | ha
    · exact .inl hr
    · right
      simp only [armed, List.any_append, Bool.or_eq_true] at ha ⊢
      rcases ha with ha | ha
      · exact .inl (.inl ha)
      · exact .inr ha

theorem enableTest_wakeUpInv {s s' : SendHandler} {i : Nat} (h : s.WakeUpInv)
    (hs : s.enableTest i = some s') : s'.WakeUpInv := by
  unfold enableTest at hs
  split at hs
  · rename_i hi
    split at hs
    · rename_i hf
      cases hs
      refine ⟨fun _ => .inl hf, fun _ => ?_, not_mem_setCall h.noRestore (by decide)⟩
      exact (h.registered hf).imp id fun ha => armed_setCall _ ha hi rfl
    · cases hs
      exact ⟨fun _ => .inl rfl, fun _ => .inr (armed_of_mem (setCall_mem .evalEvents hi) rfl),
        not_mem_setCall h.noRestore (by decide)⟩
  · cases hs

theorem enableEvents_wakeUpInv {s s' : SendHandler} {i : Nat} (h : s.WakeUpInv)
    (hs : s.enableEvents i = some s') : s'.WakeUpInv := by
  unfold enableEvents at hs
  split at hs
  · rename_i hi
    cases hs
    refine ⟨fun hq => ?_, fun hf => ?_, not_mem_setCall h.noRestore (by simp)⟩
    · exact (h.flagged hq).imp id fun hm => mem_setCall hm hi (by decide)
    · right
      refine armed_of_mem (setCall_mem _ hi) ?_
      have hf' : s.writeEventsEnabled = true := hf
      simp [Call.armed, hf']
  · cases hs

theorem enableModify_wakeUpInv {s s' : SendHandler} {i : Nat} (h : s.WakeUpInv)
    (hC : s.KeepsWakeUp (.enableModify i true)) (hs : s.enableModify i true = some s') :
    s'.WakeUpInv := by
  unfold enableModify at hs
  split at hs
  · rename_i events hi
    cases hs
    refine ⟨fun hq => ?_, fun hf => ?_, not_mem_setCall h.noRestore (by decide)⟩
    · exact (h.flagged hq).imp id fun hm => mem_setCall hm hi (by simp)
    · rcases hC events hi with hw | hoff | ha
      · exact .inl (by simpa using hw)
      · exact absurd hf (by simp [hoff])
      · exact .inr ha
  · cases hs

theorem enableRestore_wakeUpInv {s s' : SendHandler} {k : HandlerClass} {i : Nat}
    (h : s.WakeUpInv) (hs : s.enableRestore k i = some s') : s'.WakeUpInv := by
  unfold enableRestore at hs
  split at hs
  · rename_i hi
    exact absurd (List.mem_iff_getElem?.mpr ⟨i, hi⟩) h.noRestore
  · cases hs

theorem enableClose_wakeUpInv {s s' : SendHandler} {i : Nat} {owner : Bool}
    (h : s.WakeUpInv) (hs : s.enableClose i owner = some s') : s'.WakeUpInv := by
  unfold enableClose at hs
  split at hs
  · rename_i hi
    cases hs
    refine ⟨fun hq => ?_, fun hf => ?_, not_mem_setCall h.noRestore (by decide)⟩
    · exact (h.flagged hq).imp id fun hm => mem_setCall hm hi (by decide)
    · exact (h.registered hf).imp id fun ha => armed_setCall _ ha hi rfl
  · cases hs

structure Unflagged (s s' : SendHandler) : Prop where
  sendQueue : s'.sendQueue ≠ [] → s.sendQueue ≠ []
  writeEventsEnabled : s'.writeEventsEnabled = s.writeEventsEnabled
  registered : s'.registered = s.registered
  calls : s'.calls = s.calls
  consumer : s.consumer.armed = true → s'.consumer.armed = true

theorem WakeUpInv.frame {s s' : SendHandler} (h : s.WakeUpInv) (hs : Unflagged s s') :
    s'.WakeUpInv := by
  refine ⟨fun hq => ?_, fun hf => ?_, by rw [hs.calls]; exact h.noRestore⟩
  · rw [hs.writeEventsEnabled, hs.calls]
    exact h.flagged (hs.sendQueue hq)
  · rw [hs.writeEventsEnabled] at hf
    rw [hs.registered]
    refine (h.registered hf).imp id fun ha => ?_
    simp only [armed, hs.calls, Bool.or_eq_true] at ha ⊢
    exact ha.imp id hs.consumer

theorem takeFront_unflagged {s : SendHandler} (hc : s.consumer = .front) :
    Unflagged s s.takeFront := by
  have hna : s.consumer.armed = true → False := by simp [hc, Consumer.armed]
  unfold takeFront
  split <;> exact ⟨fun hq => hq, rfl, rfl, rfl, fun ha => (hna ha).elim⟩

theorem sendFront_unflagged {s s' : SendHandler} {buf : DataBuffer} {r : SendResult}
    (hc : s.consumer = .send buf) (hs : s.sendFront buf r = some s') : Unflagged s s' := by
  have hna : s.consumer.armed = true → False := by simp [hc, Consumer.armed]
  cases r with
  | bytes n =>
    simp only [sendFront] at hs
    split at hs
    · cases hs
      exact ⟨fun hq => hq, rfl, rfl, rfl, fun ha => (hna ha).elim⟩
    · cases hs
  | wouldBlock =>
    simp only [sendFront] at hs
    split at hs
    · cases hs
      exact ⟨fun hq => hq, rfl, rfl, rfl, fun ha => (hna ha).elim⟩
    · cases hs
  | error owner =>
    simp only [sendFront, Option.some.injEq] at hs
    subst hs
    exact ⟨fun hq => hq, rfl, rfl, rfl, fun ha => (hna ha).elim⟩

theorem removeFront_unflagged {s : SendHandler} {buf : DataBuffer} {n : Nat} (ptr : Nat)
    (hc : s.consumer = .remove buf n) : Unflagged s (s.removeFront buf n ptr) := by
  have hna : s.consumer.armed = true → False := by simp [hc, Consumer.armed]
  unfold removeFront
  split
  · rename_i f rest hq
    have hne : s.sendQueue ≠ [] := by simp [hq]
    split
    · split <;> exact ⟨fun _ => hne, rfl, rfl, rfl, fun ha => (hna ha).elim⟩
    · exact ⟨fun _ => hne, rfl, rfl, rfl, fun ha => (hna ha).elim⟩
  · exact ⟨fun hq => hq, rfl, rfl, rfl, fun ha => (hna ha).elim⟩

theorem testEmpty_unflagged {s s' : SendHandler} (hs : s.testEmpty = some s') :
    Unflagged s s' := by
  unfold testEmpty at hs
  split at hs
  · rename_i hc
    cases hs
    exact ⟨fun hq => hq, rfl, rfl, rfl, by simp [hc, Consumer.armed]⟩
  · cases hs

theorem disableTest_wakeUpInv {s s' : SendHandler} (h : s.WakeUpInv)
    (hC : s.KeepsWakeUp .disableTest) (hs : s.disableTest = some s') : s'.WakeUpInv := by
  unfold disableTest at hs
  split at hs
  · rename_i hc
    split at hs
    · rename_i hf
      cases hs
      refine ⟨fun hq => ?_, fun hoff => absurd hoff (by simp), h.noRestore⟩
      rcases hC hf with hempty | hm
      · exact absurd hempty hq
      · exact .inr hm
    · cases hs
      exact h.frame ⟨fun hq => hq, rfl, rfl, rfl, by simp [hc, Consumer.armed]⟩
  · cases hs

theorem disableEvents_wakeUpInv {s s' : SendHandler} (h : s.WakeUpInv)
    (hs : s.disableEvents = some s') : s'.WakeUpInv := by
  unfold disableEvents at hs
  split at hs
  · cases hs
    refine ⟨h.flagged, fun hf => ?_, h.noRestore⟩
    have hf' : s.writeEventsEnabled = true := hf
    exact .inr (by simp [armed, Consumer.armed, hf'])
  · cases hs

theorem disableModify_wakeUpInv {s s' : SendHandler} {k : HandlerClass} (h : s.WakeUpInv)
    (hC : s.KeepsWakeUp (.disableModify true)) (hs : s.disableModify k true = some s') :
    s'.WakeUpInv := by
  unfold disableModify at hs
  split at hs
  · rename_i events hc
    cases hs
    refine ⟨h.flagged, fun hf => ?_, h.noRestore⟩
    rcases hC events hc with hw | hoff | ha
    · exact .inl (by simpa using hw)
    · exact absurd (hoff.symm.trans hf) (by simp)
    · exact .inr ha
  · cases hs

theorem step_wakeUpInv (k : HandlerClass) {s s' : SendHandler} {a : SendAct} (h : s.WakeUpInv)
    (hok : ModifySucceeds a) (hC : s.KeepsWakeUp a) (hs : s.step k a = some s') :
    s'.WakeUpInv := by
  cases a with
  | push buf =>
    simp only [step, Option.some.injEq] at hs
    subst hs
    exact queueSend_wakeUpInv buf h
  | enableTest i => exact enableTest_wakeUpInv h hs
  | enableEvents i => exact enableEvents_wakeUpInv h hs
  | enableModify i ok =>
    cases hok
    exact enableModify_wakeUpInv h hC hs
  | enableRestore i => exact enableRestore_wakeUpInv h hs
  | enableClose i owner => exact enableClose_wakeUpInv h hs
  | handleWrite =>
    simp only [step] at hs
    split at hs
    · rename_i hc
      cases hs
      exact h.frame ⟨fun hq => hq, rfl, rfl, rfl, by simp [hc, Consumer.armed]⟩
    · cases hs
  | front =>
    simp only [step] at hs
    split at hs
    · rename_i hc
      cases hs
      exact h.frame (takeFront_unflagged hc)
    · cases hs
  | send r =>
    simp only [step] at hs
    split at hs
    · rename_i buf hc
      exact h.frame (sendFront_unflagged hc hs)
    · cases hs
  | remove ptr =>
    simp only [step] at hs
    split at hs
    · rename_i buf n hc
      cases hs
      exact h.frame (removeFront_unflagged ptr hc)
    · cases hs
  | testEmpty => exact h.frame (testEmpty_unflagged hs)
  | disableTest => exact disableTest_wakeUpInv h hC hs
  | disableEvents => exact disableEvents_wakeUpInv h hs
  | disableModify ok =>
    cases hok
    exact disableModify_wakeUpInv h hC hs
  | handleConnectionClose =>
    simp only [step, Option.some.injEq] at hs
    subst hs
    exact h.frame ⟨fun hq => hq, rfl, rfl, rfl, fun ha => ha⟩

/-- Along every run in which `ModifyHandler` succeeds and each step meets
`KeepsWakeUp`, no queued message is stranded. -/
theorem wakeUp_of_keepsWakeUp (k : HandlerClass) {as : List SendAct} {t : SendHandler}
    (hrun : (machine k).run created as = some t)
    (hok : ∀ a ∈ as, ModifySucceeds a)
    (hC : (machine k).Every (fun s a _ => s.KeepsWakeUp a) created as) : t.WakeUp := by
  have hstep : ∀ s a s', s.WakeUpInv → (machine k).step s a = some s' →
      ModifySucceeds a ∧ s.KeepsWakeUp a → s'.WakeUpInv :=
    fun s a s' h hs hc => step_wakeUpInv k h hc.1 hc.2 hs
  have hinv : t.WakeUpInv := (machine k).run_invariant_of_every hstep wakeUpInv_created
    ((machine k).every_and hok hC) hrun
  exact hinv.wakeUp

def sendTwice : List SendAct :=
  [.push ⟨1, [7]⟩, .enableTest 0, .enableEvents 0, .enableModify 0 true, .push ⟨2, [8]⟩,
    .enableTest 1, .handleWrite, .front, .send (.bytes 1), .remove 0, .front, .send .wouldBlock,
    .testEmpty]

theorem wakeUp_sendTwice :
    ∃ t, (machine .tcpConnectionHandler).run created sendTwice = some t ∧
      (t.quiescent ∧ t.isOpen = true ∧ t.sendQueue = [⟨2, [8]⟩]) ∧
      includesWrite t.registered = true ∧ t.writeEventsEnabled = true := by
  have hC : (machine .tcpConnectionHandler).Every (fun s a _ => s.KeepsWakeUp a) created
      sendTwice := by
    simp [sendTwice, Machine.Every, machine, step, created, queueSend, enableTest, enableEvents,
      enableModify, setCall, takeFront, sendFront, removeFront, testEmpty, DataBuffer.size,
      KeepsWakeUp, KeepsRegistration]
  have hrun : (machine .tcpConnectionHandler).run created sendTwice = some _ := rfl
  refine ⟨_, hrun, by decide, ?_⟩
  exact wakeUp_of_keepsWakeUp _ hrun (by simp [sendTwice, ModifySucceeds]) hC (by decide) rfl
    (by decide)

/-- The second buffer arrives after `ProcessSendQueue` has seen the queue empty
and before it clears the flag, so its `EnableWriteEvents` does nothing. -/
def lostWakeUp : List SendAct :=
  [.push ⟨1, [7]⟩, .enableTest 0, .enableEvents 0, .enableModify 0 true,
    .handleWrite, .front, .send (.bytes 1), .remove 0, .front, .testEmpty,
    .push ⟨2, [8]⟩, .enableTest 1, .disableTest, .disableEvents, .disableModify true]

theorem lostWakeUp_stranded :
    ¬ ∀ (k : HandlerClass) (as : List SendAct) (t : SendHandler),
      (machine k).run created as = some t → (∀ a ∈ as, ModifySucceeds a) → t.WakeUp := by
  intro h
  have ht := h .tcpConnectionHandler lostWakeUp _ rfl (by simp [lostWakeUp, ModifySucceeds])
  exact absurd ht (by decide)

end SendHandler

end Lmnet.Epoll
