import Lmnet.Epoll.LifeCycle
import Lmnet.Epoll.SessionIsolation
import Lmnet.Reactor.HandleAccept

/-!
`HandleAccept` and `HandleConnectionClose` of the epoll `TcpServerImpl` as the models of it have
them: whatever a run with all its handler calls makes of the maps, a run of accepts and closes of
`TcpServer` makes of them too.
-/

set_option autoImplicit false

namespace Lmnet.Epoll

open TcpServer (ServerInv)

namespace TcpServer

structure Settled (t : TcpServer) : Prop where
  inv : t.ServerInv
  phases : ∀ (c : Nat) (conn : Connection),
    t.conns[c]? = some conn → conn.phase = .live ∨ conn.phase = .closed
  registered : ∀ fd, t.reactor.handlers.lookup fd = t.sessions.lookup fd
  running : t.reactor.running = true
  idle : t.dispatching = none

theorem created_settled : created.Settled where
  inv := serverInv_created
  phases := by simp [created]
  registered fd := rfl
  running := rfl
  idle := rfl

theorem Settled.owner_eq_none {t : TcpServer} (ht : t.Settled) {fd : Fd}
    (h : t.sessions.lookup fd = none) : t.owner fd = none := by
  refine TcpServer.owner_eq_none.mpr fun c conn hc hown => ?_
  obtain ⟨hfd, hphase⟩ := Connection.owns_iff.mp hown
  have hlive := (ht.phases c conn hc).resolve_right hphase
  have hconn : conn = ⟨fd, .live⟩ := by
    cases conn
    simp_all
  rw [ht.inv.live fd c (hconn ▸ hc)] at h
  cases h

theorem Settled.accept {t : TcpServer} (ht : t.Settled) {fd : Fd}
    (h : t.sessions.lookup fd = none) :
    ∃ t', machine.run t [.handleAccept fd none] = some t' ∧ t'.Settled ∧
      t'.sessions = t.sessions.insert fd t.conns.length ∧
      t'.conns.length = t.conns.length + 1 := by
  have hreactor : fd ∉ t.reactor.handlers := by
    rw [← AList.lookup_eq_none, ht.registered, h]
  have hsessions : fd ∉ t.sessions := AList.lookup_eq_none.mp h
  let t' : TcpServer := { t with
    conns := t.conns ++ [⟨fd, .live⟩]
    sendQueues := t.sendQueues ++ [[]]
    reactor := { t.reactor with
      handlers := t.reactor.handlers.insert fd t.conns.length
      interest := t.reactor.interest.insert fd (epollEvents baseEvents) }
    connectionHandlers := t.connectionHandlers.insert fd t.conns.length
    sessions := t.sessions.insert fd t.conns.length }
  have hstep : t.step (.handleAccept fd none) = some t' := by
    simp [step, handleAccept, EventReactor.registerHandler, ht.idle, ht.owner_eq_none h,
      ht.running, hreactor, hsessions, t']
  refine ⟨t', machine.run_cons.mpr ⟨t', hstep, rfl⟩, ?_, rfl, List.length_append⟩
  refine ⟨step_serverInv ht.inv hstep, fun c conn hc => ?_, fun fd' => ?_, ht.running, ht.idle⟩
  · rcases List.getElem?_concat_some hc with hold | ⟨-, rfl⟩
    · exact ht.phases c conn hold
    · exact .inl rfl
  · simp only [t', AList.lookup_insert_eq_ite, ht.registered]

/-- `HandleConnectionClose` from its critical section to `close`. -/
theorem Settled.close {t : TcpServer} (ht : t.Settled) (fd : Fd) :
    ∃ as t', machine.run t as = some t' ∧ t'.Settled ∧ t'.sessions = t.sessions.erase fd ∧
      t'.conns.length = t.conns.length := by
  cases hsession : t.sessions.lookup fd with
  | none =>
    exact ⟨[], t, rfl, ht, (AList.erase_of_notMem (AList.lookup_eq_none.mp hsession)).symm, rfl⟩
  | some c =>
    have hc : t.conns[c]? = some ⟨fd, .live⟩ := ht.inv.session fd c hsession
    have hmem : fd ∈ t.reactor.handlers := by
      rw [← AList.lookup_isSome, ht.registered, hsession]
      rfl
    let t₁ : TcpServer := { t.setPhase c .removing with
      sessions := t.sessions.erase fd
      connectionHandlers := t.connectionHandlers.erase fd }
    have hc₁ : t₁.conns[c]? = some ⟨fd, .removing⟩ := by simp [t₁, setPhase, hc]
    have hstep₁ : t.step (.handleConnectionClose fd) = some t₁ := by
      simp [step, handleConnectionClose, hsession, t₁]
    let t₂ : TcpServer := { t₁.setPhase c .closing with
      reactor := (t.reactor.removeHandler fd none).1 }
    have hc₂ : t₂.conns[c]? = some ⟨fd, .closing⟩ := by simp [t₂, setPhase, hc₁]
    have hstep₂ : t₁.step (.removeHandler c none) = some t₂ := by
      simp only [step, removeHandler, hc₁]
      rfl
    let t₃ : TcpServer := { t₂.setPhase c .closed with reactor := t₂.reactor.onClose fd }
    have hstep₃ : t₂.step (.close c) = some t₃ := by
      simp only [step, TcpServer.close, hc₂]
      rfl
    refine ⟨[.handleConnectionClose fd, .removeHandler c none, .close c], t₃, ?_, ?_, rfl, ?_⟩
    · exact machine.run_cons.mpr ⟨t₁, hstep₁, machine.run_cons.mpr ⟨t₂, hstep₂,
        machine.run_cons.mpr ⟨t₃, hstep₃, rfl⟩⟩⟩
    · have hinv := step_serverInv (step_serverInv (step_serverInv ht.inv hstep₁) hstep₂) hstep₃
      have hreactor : (t.reactor.removeHandler fd none).1 = { t.reactor with
          handlers := t.reactor.handlers.erase fd, interest := t.reactor.interest.erase fd } := by
        simp [EventReactor.removeHandler, hmem, ht.running]
      have hregistered : ∀ fd', t₃.reactor.handlers.lookup fd' = t₃.sessions.lookup fd' := by
        intro fd'
        simp only [t₃, t₂, t₁, setPhase, EventReactor.onClose, hreactor,
          AList.lookup_erase_eq_ite, ht.registered]
      refine ⟨hinv, fun d conn hd => ?_, hregistered, ?_, ht.idle⟩
      · by_cases hcd : c = d
        · subst hcd
          simp only [t₃, getElem?_setPhase, hc₂, if_true, Option.map_some,
            Option.some.injEq] at hd
          exact .inr (by rw [← hd])
        · refine ht.phases d conn ?_
          simpa [t₃, t₂, t₁, setPhase, List.getElem?_modify, hcd] using hd
      · simp only [t₃, t₂, EventReactor.onClose, hreactor]
        exact ht.running
    · simp [t₃, t₂, t₁, setPhase]

end TcpServer

namespace ServerLife

/-- The numbers of the sessions, as `t` has them after accepts and closes alone; its connections
are the clients `client` that got a session. -/
structure Shown (s : ServerLife) (t : TcpServer) (client : List Nat) : Prop where
  settled : t.Settled
  length : client.length = t.conns.length
  sessions : ∀ fd, s.sessions.lookup fd = (t.sessions.lookup fd).bind (client[·]?)

/-- One handler call takes at most one session out. -/
def Erases (s s' : ServerLife) : Prop :=
  s'.sessions = s.sessions ∨ ∃ fd, s'.sessions = s.sessions.erase fd

theorem handleConnectionClose_sessions (s : ServerLife) (fd : Fd) (error : Option Reason) :
    (s.handleConnectionClose fd error).sessions = s.sessions.erase fd := by
  cases hsession : s.sessions.lookup fd with
  | none =>
    simp only [handleConnectionClose, hsession]
    exact (AList.erase_of_notMem (AList.lookup_eq_none.mp hsession)).symm
  | some c => simp only [handleConnectionClose, hsession, enqueueTask, close]

theorem erases_handleConnectionClose (s : ServerLife) (fd : Fd) (error : Option Reason) :
    s.Erases (s.handleConnectionClose fd error) :=
  .inr ⟨fd, s.handleConnectionClose_sessions fd error⟩

theorem receiveData_sessions {s s' : ServerLife} {fd : Fd} {data : List UInt8}
    (h : s.receiveData fd data = some s') : s'.sessions = s.sessions := by
  simp only [receiveData] at h
  split at h
  · cases h
  · obtain ⟨c, -, rfl⟩ := Option.map_eq_some_iff.mp h
    split <;> rfl

theorem erases_handleReceive {s s' : ServerLife} {fd : Fd} {rs : List RecvReturn}
    (h : s.handleReceive fd rs = some s') : s.Erases s' := by
  fun_induction handleReceive s fd rs with
  | case1 s data rs ih =>
    obtain ⟨s₁, hs₁, hrest⟩ := Option.bind_eq_some_iff.mp h
    have hsessions := receiveData_sessions hs₁
    simpa only [Erases, hsessions] using ih s₁ hrest
  | case2 s =>
    cases h
    exact .inl rfl
  | case3 s errno herrno =>
    cases h
    exact .inl rfl
  | case4 s errno herrno =>
    cases h
    exact s.erases_handleConnectionClose fd _
  | case5 => cases h

theorem erases_enableWriteEvents (s : ServerLife) (c : Nat) (cl : Client) (ctl : Option Int) :
    s.Erases (s.enableWriteEvents c cl ctl) := by
  unfold enableWriteEvents
  split
  · exact .inl rfl
  · split
    · exact .inl rfl
    · exact s.erases_handleConnectionClose cl.fd _

theorem disableWriteEvents_sessions (s : ServerLife) (c : Nat) (cl : Client) (ctl : Option Int) :
    (s.disableWriteEvents c cl ctl).sessions = s.sessions := by
  unfold disableWriteEvents
  split <;> rfl

theorem erases_sessionSend {s s' : ServerLife} {session : Nat} {buffer : List UInt8}
    {ctl : Option Int} (h : s.sessionSend session buffer ctl = some s') : s.Erases s' := by
  unfold sessionSend at h
  split at h
  · cases h
  · split at h
    · cases h
      exact .inl rfl
    · split at h
      · cases h
        exact .inl rfl
      · cases h
        unfold queueSend
        split
        · exact .inl rfl
        · exact erases_enableWriteEvents _ _ _ _

theorem erases_processSendQueue {s s' : ServerLife} {c : Nat} {ctl : Option Int}
    {rs : List SendReturn} (h : s.processSendQueue c ctl rs = some s') : s.Erases s' := by
  induction rs generalizing s with
  | nil =>
    simp only [processSendQueue] at h
    split at h
    · cases h
    · split at h
      · cases h
        exact .inl (disableWriteEvents_sessions ..)
      · cases h
  | cons r rs ih =>
    simp only [processSendQueue] at h
    split at h
    · cases h
    · rename_i cl hcl
      split at h
      · split at h
        · exact ih (s := s.setClient c _) h
        · split at h
          · exact ih (s := s.setClient c _) h
          · cases h
      · split at h
        · cases h
          exact .inl rfl
        · cases h
      · split at h
        · cases h
          exact s.erases_handleConnectionClose cl.fd _
        · cases h
      · cases h

theorem handlerCall_sessions {s s' : ServerLife} {handler : Handler} {fd : Fd}
    {call : HandlerCall} {answers : Answers}
    (h : s.handlerCall handler fd call answers = some s') :
    s.Erases s' ∨ ∃ clientSocket ctl, s.handleAccept clientSocket ctl = some s' := by
  unfold handlerCall at h
  split at h
  · exact .inr ⟨_, _, h⟩
  · cases h
    exact .inl (.inl rfl)
  · cases h
    exact .inl (.inl rfl)
  · cases h
    exact .inl (.inl rfl)
  · exact .inl (erases_handleReceive h)
  · exact .inl (erases_processSendQueue h)
  · cases h
    exact .inl (s.erases_handleConnectionClose fd _)
  · cases h
    exact .inl (s.erases_handleConnectionClose fd _)
  · cases h

theorem Inv.handleAccept_sessions {s s' : ServerLife} (h : s.Inv) {clientSocket : Option Fd}
    {ctl : Option Int} (hs : s.handleAccept clientSocket ctl = some s') :
    s'.sessions = s.sessions ∨ ∃ fd, s.sessions.lookup fd = none ∧
      s'.sessions = s.sessions.insert fd s.clients.length := by
  unfold ServerLife.handleAccept at hs
  split at hs
  · cases hs
    exact .inl rfl
  · rename_i fd
    split at hs
    · cases hs
    · rename_i hfree
      have hnone : s.sessions.lookup fd = none := by
        rw [← h.owner]
        exact not_not.mp fun hne => hfree (.inr hne)
      simp only at hs
      split at hs
      · cases hs
        exact .inl rfl
      · cases hs
        refine .inr ⟨fd, hnone, ?_⟩
        simp [enqueueTask, AList.lookup_eq_none.mp hnone]

theorem Shown.erased {s s' : ServerLife} {t : TcpServer} {client : List Nat}
    (h : s.Shown t client) (hs : s.Erases s') :
    ∃ as t', TcpServer.machine.run t as = some t' ∧ s'.Shown t' client := by
  rcases hs with hsame | ⟨fd, herase⟩
  · exact ⟨[], t, rfl, h.settled, h.length, fun fd => by rw [hsame, h.sessions]⟩
  · obtain ⟨as, t', hrun, hsettled, hsessions, hlength⟩ := h.settled.close fd
    refine ⟨as, t', hrun, hsettled, h.length.trans hlength.symm, fun fd' => ?_⟩
    rw [herase, hsessions, AList.lookup_erase_eq_ite, AList.lookup_erase_eq_ite, h.sessions]
    split <;> rfl

theorem Shown.accepted {s s' : ServerLife} {t : TcpServer} {client : List Nat}
    (h : s.Shown t client) {fd : Fd} {c : Nat} (hnone : s.sessions.lookup fd = none)
    (hs : s'.sessions = s.sessions.insert fd c) :
    ∃ as t', TcpServer.machine.run t as = some t' ∧ s'.Shown t' (client ++ [c]) := by
  have hbelow : ∀ fd' d, t.sessions.lookup fd' = some d → d < client.length := by
    intro fd' d hd
    rw [h.length]
    exact (List.getElem?_eq_some_iff.mp (h.settled.inv.session fd' d hd)).1
  have hfree : t.sessions.lookup fd = none := by
    cases hd : t.sessions.lookup fd with
    | none => rfl
    | some d =>
      have hshown := h.sessions fd
      simp [hnone, hd, List.getElem?_eq_getElem (hbelow fd d hd)] at hshown
  obtain ⟨t', hrun, hsettled, hsessions, hlength⟩ := h.settled.accept hfree
  refine ⟨_, t', hrun, hsettled, by simp [h.length, hlength], fun fd' => ?_⟩
  rw [hs, hsessions, AList.lookup_insert_eq_ite, AList.lookup_insert_eq_ite]
  split
  · simp [← h.length]
  · rw [h.sessions]
    cases hd : t.sessions.lookup fd' with
    | none => rfl
    | some d => exact (List.getElem?_append_left (hbelow fd' d hd)).symm

/-- One step with all its handler calls is no step, an accept or a close of the server as
`TcpServer` has it. -/
theorem step_shown {s s' : ServerLife} {a : LifeAct} {t : TcpServer} {client : List Nat}
    (hs : s.Inv) (h : s.Shown t client) (hstep : s.step a = some s') :
    ∃ as t' client', TcpServer.machine.run t as = some t' ∧ s'.Shown t' client' := by
  have herased : ∀ {u : ServerLife}, s.Erases u →
      ∃ as t' client', TcpServer.machine.run t as = some t' ∧ u.Shown t' client' := by
    intro u hu
    obtain ⟨as, t', hrun, hshown⟩ := h.erased hu
    exact ⟨as, t', client, hrun, hshown⟩
  cases a with
  | dispatchEvent fd events =>
    simp only [step] at hstep
    split at hstep
    · cases hstep
    · split at hstep <;> cases hstep <;> exact herased (.inl rfl)
  | handlerCall answers =>
    simp only [step] at hstep
    split at hstep
    · cases hstep
    · split at hstep
      · cases hstep
        exact herased (.inl rfl)
      · cases hstep
    · obtain ⟨u, hu, rfl⟩ := Option.map_eq_some_iff.mp hstep
      -- `dispatching` is not shown
      rcases handlerCall_sessions hu with herases | ⟨clientSocket, ctl, haccept⟩
      · exact herased herases
      · rcases hs.handleAccept_sessions haccept with hsame | ⟨fd, hnone, hinsert⟩
        · exact herased (.inl hsame)
        · obtain ⟨as, t', hrun, hshown⟩ := h.accepted hnone hinsert
          exact ⟨as, t', _, hrun, hshown.settled, hshown.length, hshown.sessions⟩
  | sessionSend session buffer ctl => exact herased (erases_sessionSend hstep)

/-- The maps of every run of the server are those of a run of `TcpServer`. -/
theorem run_shown (socket : Fd) {as : List LifeAct} {s : ServerLife}
    (h : machine.run (started socket) as = some s) :
    ∃ (bs : List ServerAct) (t : TcpServer) (client : List Nat),
      TcpServer.machine.run .created bs = some t ∧ ∀ fd,
      s.sessions.lookup fd = (t.sessions.lookup fd).bind (client[·]?) ∧
      s.connectionHandlers.lookup fd = (t.connectionHandlers.lookup fd).bind (client[·]?) := by
  have hstarted : (started socket).Shown .created [] :=
    ⟨TcpServer.created_settled, rfl, fun fd => rfl⟩
  obtain ⟨bs, t, hrun, hinv, client, hshown⟩ := machine.run_matched TcpServer.machine
    (R := fun s t => s.Inv ∧ ∃ client, s.Shown t client)
    (fun s a s' t ⟨hinv, client, hshown⟩ hstep => by
      obtain ⟨bs, t', client', hrun, hshown'⟩ := step_shown hinv hshown hstep
      exact ⟨bs, t', hrun, hinv.step hstep, client', hshown'⟩)
    ⟨started_inv socket, [], hstarted⟩ h
  refine ⟨bs, t, client, hrun, fun fd => ⟨hshown.sessions fd, ?_⟩⟩
  rw [hinv.maps, hshown.settled.inv.handlers, hshown.sessions]

end ServerLife

end Lmnet.Epoll

namespace Lmnet.Reactor.Listener

open Lmnet.Epoll (TcpServer)

/-- What `HandleAccept` does to the maps, against `TcpServer`'s. -/
theorem addConnection_handleAccept {l : Listener} {t t' : TcpServer} {fd : Fd}
    {ctl : Option Int} (hsessions : l.sessions = t.sessions)
    (hhandlers : l.connectionHandlers = t.connectionHandlers)
    (h : t.handleAccept fd ctl = some t') :
    t' = t ∨ ((l.addConnection epollTcpServer fd t.conns.length).sessions = t'.sessions ∧
      (l.addConnection epollTcpServer fd t.conns.length).connectionHandlers =
        t'.connectionHandlers) := by
  unfold TcpServer.handleAccept at h
  split at h
  · simp only at h
    split at h
    · cases h
      exact .inl rfl
    · cases h
      refine .inr ⟨?_, ?_⟩
      · simp [addConnection, epollTcpServer, hsessions]
      · simp [addConnection, hhandlers]
  · cases h

end Lmnet.Reactor.Listener
