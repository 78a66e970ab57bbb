import Lmnet.Epoll.TcpServer
import Lmnet.Lib.Lists

set_option autoImplicit false

namespace Lmnet.Epoll.TcpServer

def Only (s : TcpServer) (fd : Fd) (c : Nat) : Prop :=
  ∀ d conn, s.conns[d]? = some conn → conn.owns fd = true → d = c

def Holds (s : TcpServer) (fd : Fd) (c : Nat) : Prop :=
  (∃ p, s.conns[c]? = some ⟨fd, p⟩) ∧ s.Only fd c

/-- What the two maps and the reactor say about the connections, whatever the
order of accepts, closes and sends. -/
structure ServerInv (s : TcpServer) : Prop where
  session : ∀ fd c, s.sessions.lookup fd = some c → s.conns[c]? = some ⟨fd, .live⟩
  live : ∀ fd c, s.conns[c]? = some ⟨fd, .live⟩ → s.sessions.lookup fd = some c
  handlers : ∀ fd, s.connectionHandlers.lookup fd = s.sessions.lookup fd
  registered : ∀ fd c, s.reactor.handlers.lookup fd = some c → s.Holds fd c
  dispatched : ∀ c, s.dispatching = some c → ∃ fd, s.Holds fd c

theorem serverInv_created : created.ServerInv :=
  ⟨by simp [created], by simp [created], by simp [created], by simp [created], by simp [created]⟩

theorem getElem?_setPhase (s : TcpServer) (c d : Nat) (p : Phase) :
    (s.setPhase c p).conns[d]? =
      (s.conns[d]?).map fun conn => if c = d then { conn with phase := p } else conn := by
  simp [setPhase, List.getElem?_modify]

/-- A connection on its way to being closed frees numbers and takes none. -/
theorem Only.setPhase {s : TcpServer} {fd fd' : Fd} {c e : Nat} {p q : Phase}
    (h : s.Only fd e) (hc : s.conns[c]? = some ⟨fd', q⟩) (hq : q ≠ .closed) :
    (s.setPhase c p).Only fd e := by
  intro d conn hd hown
  rw [getElem?_setPhase, Option.map_eq_some_iff] at hd
  obtain ⟨x, hx, rfl⟩ := hd
  split at hown
  · rename_i hcd
    subst hcd
    rw [hc, Option.some.injEq] at hx
    subst hx
    exact h _ _ hc (by simp_all)
  · exact h _ _ hx hown

theorem Holds.setPhase {s : TcpServer} {fd fd' : Fd} {c e : Nat} {p q : Phase}
    (h : s.Holds fd e) (hc : s.conns[c]? = some ⟨fd', q⟩) (hq : q ≠ .closed) :
    (s.setPhase c p).Holds fd e := by
  obtain ⟨⟨p', he⟩, honly⟩ := h
  refine ⟨?_, honly.setPhase hc hq⟩
  rw [getElem?_setPhase, he]
  by_cases hce : c = e <;> simp [hce]

theorem live_setPhase {s : TcpServer} {c d : Nat} {p : Phase} {fd : Fd} (hp : p ≠ .live) :
    (s.setPhase c p).conns[d]? = some ⟨fd, .live⟩ ↔ c ≠ d ∧ s.conns[d]? = some ⟨fd, .live⟩ := by
  rw [getElem?_setPhase, Option.map_eq_some_iff]
  constructor
  · rintro ⟨x, hx, h⟩
    split at h
    · simp at h
      exact absurd h.2 hp
    · subst h
      exact ⟨‹_›, hx⟩
  · rintro ⟨hne, h⟩
    exact ⟨_, h, by simp [hne]⟩

theorem owner_eq_none {s : TcpServer} {fd : Fd} :
    s.owner fd = none ↔
      ∀ (c : Nat) (conn : Connection), s.conns[c]? = some conn → ¬ conn.owns fd = true := by
  simp only [owner, List.findIdx?_eq_none_iff]
  constructor
  · intro h c conn hc
    simp [h conn (List.mem_of_getElem? hc)]
  · intro h conn hm
    obtain ⟨c, hc⟩ := List.mem_iff_getElem?.mp hm
    exact Bool.eq_false_iff.mpr (h c conn hc)

theorem owner_eq_some {s : TcpServer} {fd : Fd} {c : Nat} (h : s.owner fd = some c) :
    ∃ conn, s.conns[c]? = some conn ∧ conn.owns fd = true := by
  obtain ⟨hlt, hp, -⟩ := List.findIdx?_eq_some_iff_getElem.mp h
  exact ⟨_, List.getElem?_eq_getElem hlt, hp⟩

theorem ServerInv.not_mem_sessions {s : TcpServer} {fd : Fd} (h : s.ServerInv)
    (hfree : s.owner fd = none) : fd ∉ s.sessions := by
  intro hm
  obtain ⟨c, hc⟩ := Option.isSome_iff_exists.mp (AList.lookup_isSome.mpr hm)
  exact owner_eq_none.mp hfree c _ (h.session fd c hc) (by simp)

theorem handleAccept_cases {s s' : TcpServer} {fd : Fd} {ctl : Option Int}
    (h : s.ServerInv) (hs : s.handleAccept fd ctl = some s') :
    s' = s ∨ (s.dispatching = none ∧ s.owner fd = none ∧ ∃ r : EventReactor Nat,
      fd ∉ s.reactor.handlers ∧ r.handlers = s.reactor.handlers.insert fd s.conns.length ∧
      s' = { s with
        conns := s.conns ++ [⟨fd, .live⟩]
        sendQueues := s.sendQueues ++ [[]]
        reactor := r
        connectionHandlers := s.connectionHandlers.insert fd s.conns.length
        sessions := s.sessions.insert fd s.conns.length }) := by
  unfold handleAccept at hs
  split at hs
  · rename_i hcond
    obtain ⟨hidle, hfree⟩ := hcond
    rcases hr : s.reactor.registerHandler fd baseEvents s.conns.length ctl with ⟨r, ok⟩
    simp only [hr] at hs
    cases ok with
    | false =>
      cases hs
      exact .inl rfl
    | true =>
      obtain ⟨hnew, rfl⟩ := EventReactor.registerHandler_eq_true hr
      simp only [h.not_mem_sessions hfree, if_false, Option.some.injEq] at hs
      exact .inr ⟨hidle, hfree, _, hnew, rfl, hs.symm⟩
  · cases hs

theorem handleAccept_serverInv {s s' : TcpServer} {fd : Fd} {ctl : Option Int}
    (h : s.ServerInv) (hs : s.handleAccept fd ctl = some s') : s'.ServerInv := by
  obtain rfl | ⟨hidle, hfree, r, hnew, hhandlers, rfl⟩ := handleAccept_cases h hs
  · exact h
  · have hnone := owner_eq_none.mp hfree
    refine ⟨fun fd' c hc => ?_, fun fd' c hc => ?_, fun fd' => ?_, fun fd' c hc => ?_, ?_⟩
    · rcases AList.lookup_insert_cases hc with ⟨rfl, rfl⟩ | ⟨-, hc⟩
      · simp
      · have hc' := h.session fd' c hc
        rwa [List.getElem?_append_left (List.getElem?_eq_some_iff.mp hc').1]
    · rcases List.getElem?_concat_some hc with hold | ⟨rfl, heq⟩
      · have hfd : fd' ≠ fd := by
          rintro rfl
          exact hnone c _ hold (by simp)
        rw [AList.lookup_insert_ne hfd]
        exact h.live fd' c hold
      · cases heq
        exact AList.lookup_insert _
    · rw [AList.lookup_insert_eq_ite, AList.lookup_insert_eq_ite, h.handlers]
    · simp only [hhandlers] at hc
      rcases AList.lookup_insert_cases hc with ⟨rfl, rfl⟩ | ⟨hfd, hc⟩
      · refine ⟨⟨.live, by simp⟩, fun d conn hd hown => ?_⟩
        rcases List.getElem?_concat_some hd with hold | ⟨rfl, -⟩
        · exact absurd hown (hnone d conn hold)
        · rfl
      · obtain ⟨⟨p, hp⟩, honly⟩ := h.registered fd' c hc
        refine ⟨⟨p, ?_⟩, fun d conn hd hown => ?_⟩
        · rwa [List.getElem?_append_left (List.getElem?_eq_some_iff.mp hp).1]
        · rcases List.getElem?_concat_some hd with hold | ⟨-, rfl⟩
          · exact honly d conn hold hown
          · simp only [Connection.owns_iff] at hown
            exact absurd hown.1.symm hfd
    · simp [hidle]

theorem handleConnectionClose_serverInv {s : TcpServer} (fd : Fd) (h : s.ServerInv) :
    (s.handleConnectionClose fd).ServerInv := by
  unfold handleConnectionClose
  split
  · exact h
  · rename_i c hlook
    have hc := h.session fd c hlook
    refine ⟨fun fd' d hd => ?_, fun fd' d hd => ?_, fun fd' => ?_, fun fd' d hd => ?_,
      fun d hd => ?_⟩
    · obtain ⟨hfd, hd⟩ := AList.lookup_of_lookup_erase hd
      have hold := h.session fd' d hd
      refine (live_setPhase (by decide)).mpr ⟨?_, hold⟩
      rintro rfl
      rw [hc] at hold
      simp only [Option.some.injEq, Connection.mk.injEq] at hold
      exact hfd hold.1.symm
    · obtain ⟨hne, hold⟩ := (live_setPhase (by decide)).mp hd
      have hlook' := h.live fd' d hold
      have hfd : fd' ≠ fd := by
        rintro rfl
        rw [hlook, Option.some.injEq] at hlook'
        exact hne hlook'
      rwa [AList.lookup_erase_ne hfd]
    · rw [AList.lookup_erase_eq_ite, AList.lookup_erase_eq_ite, h.handlers]
    · exact (h.registered fd' d hd).setPhase hc (by decide)
    · obtain ⟨fd', hholds⟩ := h.dispatched d hd
      exact ⟨fd', hholds.setPhase hc (by decide)⟩

theorem setPhase_serverInv {s : TcpServer} {c : Nat} {fd : Fd} {p q : Phase}
    {r : EventReactor Nat} (h : s.ServerInv) (hc : s.conns[c]? = some ⟨fd, q⟩)
    (hq : q ≠ .live) (hq' : q ≠ .closed) (hp : p ≠ .live)
    (hr : ∀ fd' d, r.handlers.lookup fd' = some d → s.reactor.handlers.lookup fd' = some d) :
    ({ s.setPhase c p with reactor := r } : TcpServer).ServerInv := by
  refine ⟨fun fd' d hd => ?_, fun fd' d hd => ?_, h.handlers, fun fd' d hd => ?_,
    fun d hd => ?_⟩
  · have hold := h.session fd' d hd
    refine (live_setPhase hp).mpr ⟨?_, hold⟩
    rintro rfl
    rw [hc] at hold
    simp only [Option.some.injEq, Connection.mk.injEq] at hold
    exact hq hold.2
  · exact h.live fd' d ((live_setPhase hp).mp hd).2
  · exact (h.registered fd' d (hr fd' d hd)).setPhase hc hq'
  · obtain ⟨fd', hholds⟩ := h.dispatched d hd
    exact ⟨fd', hholds.setPhase hc hq'⟩

theorem lookup_removeHandler {η : Type} {r : EventReactor η} {fd fd' : Fd} {ctl : Option Int}
    {d : η} (h : (r.removeHandler fd ctl).1.handlers.lookup fd' = some d) :
    r.handlers.lookup fd' = some d := by
  have herase : (r.handlers.erase fd).lookup fd' = some d → r.handlers.lookup fd' = some d :=
    fun he => (AList.lookup_of_lookup_erase he).2
  unfold EventReactor.removeHandler at h
  split at h
  · split at h
    · split at h
      · exact herase h
      · split at h
        · exact h
        · exact herase h
    · exact herase h
  · exact h

theorem removeHandler_serverInv {s s' : TcpServer} {c : Nat} {ctl : Option Int}
    (h : s.ServerInv) (hs : s.removeHandler c ctl = some s') : s'.ServerInv := by
  unfold removeHandler at hs
  split at hs
  · rename_i fd hc
    cases hs
    exact setPhase_serverInv h hc (by decide) (by decide) (by decide)
      fun _ _ hd => lookup_removeHandler hd
  · cases hs

theorem close_serverInv {s s' : TcpServer} {c : Nat} (h : s.ServerInv)
    (hs : s.close c = some s') : s'.ServerInv := by
  unfold close at hs
  split at hs
  · rename_i fd hc
    cases hs
    exact setPhase_serverInv h hc (by decide) (by decide) (by decide) fun _ _ hd => hd
  · cases hs

/-- A step that leaves connections, maps and reactor alone. -/
theorem ServerInv.frame {s s' : TcpServer} (h : s.ServerInv) (hconns : s'.conns = s.conns)
    (hsessions : s'.sessions = s.sessions)
    (hhandlers : s'.connectionHandlers = s.connectionHandlers) (hreactor : s'.reactor = s.reactor)
    (hdispatching : s'.dispatching = s.dispatching ∨ s'.dispatching = none) : s'.ServerInv := by
  refine ⟨?_, ?_, ?_, ?_, ?_⟩
  · simpa only [hconns, hsessions] using h.session
  · simpa only [hconns, hsessions] using h.live
  · simpa only [hhandlers, hsessions] using h.handlers
  · simpa only [Holds, Only, hconns, hreactor] using h.registered
  · rcases hdispatching with hd | hd
    · simpa only [Holds, Only, hconns, hd] using h.dispatched
    · simp [hd]

theorem sessionSend_cases {s s' : TcpServer} {session : Nat} {alive : Bool}
    {buffer : Option (List UInt8)} (hs : s.sessionSend session alive buffer = some s') :
    ∃ conn, s.conns[session]? = some conn ∧
      s' = { s with
        sends := s.sends ++ [⟨session, conn.phase ≠ .live, s.sendVia conn.fd alive buffer⟩]
        sending := s.sending ++ ((s.sendVia conn.fd alive buffer).map fun h =>
          (h, Message.mk session (buffer.getD []))).toList } := by
  unfold sessionSend at hs
  split at hs
  · cases hs
  · cases hs
    exact ⟨_, ‹_›, rfl⟩

theorem queueSend_cases {s s' : TcpServer} {i : Nat} (hs : s.queueSend i = some s') :
    ∃ h m, (h, m) ∈ s.sending ∧
      s' = { s with
        sending := s.sending.eraseIdx i
        sendQueues := s.sendQueues.modify h (· ++ [m]) } := by
  unfold queueSend at hs
  split at hs
  · rename_i h m hi
    cases hs
    exact ⟨h, m, List.mem_of_getElem? hi, rfl⟩
  · cases hs

/-- A round of `ProcessSendQueue` meets a closed descriptor, or sends from the
front of the handler's queue to the owner of the handler's number. -/
theorem processSend_cases {s s' : TcpServer} {n : Nat} (hs : s.processSend n = some s') :
    ∃ c conn m rest, s.dispatching = some c ∧ s.conns[c]? = some conn ∧
      s.sendQueues[c]? = some (m :: rest) ∧
      ((s' = { s.handleConnectionClose conn.fd with dispatching := none }) ∨
        ∃ d, s.owner conn.fd = some d ∧ s' = { s with
          sendQueues := s.sendQueues.set c
            (if n = m.bytes.length then rest
              else { m with bytes := m.bytes.drop n } :: rest)
          deliveries := s.deliveries ++ [⟨{ m with bytes := m.bytes.take n }, d⟩] }) := by
  unfold processSend at hs
  split at hs
  · cases hs
  · rename_i c hdisp
    split at hs
    · rename_i conn m rest hconn hq
      refine ⟨c, conn, m, rest, hdisp, hconn, hq, ?_⟩
      split at hs
      · cases hs
        exact .inl rfl
      · rename_i d hown
        split at hs
        · cases hs
          exact .inr ⟨d, hown, rfl⟩
        · cases hs
    · cases hs

theorem step_serverInv {s s' : TcpServer} {a : ServerAct} (h : s.ServerInv)
    (hs : s.step a = some s') : s'.ServerInv := by
  cases a with
  | handleAccept fd ctl => exact handleAccept_serverInv h hs
  | handleConnectionClose fd =>
    cases hs
    exact handleConnectionClose_serverInv fd h
  | removeHandler c ctl => exact removeHandler_serverInv h hs
  | close c => exact close_serverInv h hs
  | sessionSend session alive buffer =>
    obtain ⟨conn, -, rfl⟩ := sessionSend_cases hs
    exact h.frame rfl rfl rfl rfl (.inl rfl)
  | queueSend i =>
    obtain ⟨_, m, -, rfl⟩ := queueSend_cases hs
    exact h.frame rfl rfl rfl rfl (.inl rfl)
  | dispatchEvent fd =>
    simp only [step, dispatchEvent] at hs
    split at hs
    · cases hs
      exact ⟨h.session, h.live, h.handlers, h.registered, fun c hc => ⟨fd, h.registered fd c hc⟩⟩
    · cases hs
  | processSend n =>
    obtain ⟨c, conn, m, rest, -, -, -, rfl | ⟨d, -, rfl⟩⟩ := processSend_cases hs
    · exact (handleConnectionClose_serverInv conn.fd h).frame rfl rfl rfl rfl (.inr rfl)
    · exact h.frame rfl rfl rfl rfl (.inl rfl)
  | returnToLoop =>
    cases hs
    exact h.frame rfl rfl rfl rfl (.inr rfl)

/-- Every `Send` that returned true put its buffer on the way to its own
connection, which was open; queues hold and sockets got only what was sent on
their own session. -/
structure Isolated (s : TcpServer) : Prop where
  sends : ∀ r ∈ s.sends, ∀ c, r.handler = some c → c = r.session ∧ r.closed = false
  queued : ∀ (c : Nat) q, s.sendQueues[c]? = some q → ∀ m ∈ q, m.session = c
  delivered : ∀ d ∈ s.deliveries, d.connection = d.message.session

/-- `sessions_` holds nobody else under the number of the session. -/
def OwnNumber (s : TcpServer) : ServerAct → Prop
  | .sessionSend session alive buffer =>
      alive = true → ∀ bytes, buffer = some bytes → bytes ≠ [] →
        ∀ conn, s.conns[session]? = some conn →
          ∀ c, s.sessions.lookup conn.fd = some c → c = session
  | _ => True

theorem send_eq_some {s : TcpServer} {fd : Fd} {bytes : List UInt8} {c : Nat}
    (h : s.ServerInv) :
    s.send fd bytes = some c ↔ bytes ≠ [] ∧ s.sessions.lookup fd = some c := by
  unfold send
  split
  · rename_i h0
    simp [List.length_eq_zero_iff.mp h0]
  · rename_i h0
    have hne : bytes ≠ [] := fun he => h0 (by simp [he])
    split
    · simp [hne, h.handlers fd]
    · rename_i hm
      simp [AList.lookup_eq_none.mpr hm]

theorem sendVia_eq_some {s : TcpServer} {fd : Fd} {alive : Bool}
    {buffer : Option (List UInt8)} {c : Nat} (h : s.ServerInv) :
    s.sendVia fd alive buffer = some c ↔
      alive = true ∧ ∃ bytes, buffer = some bytes ∧ bytes ≠ [] ∧
        s.sessions.lookup fd = some c := by
  unfold sendVia
  split
  · simp [*, Option.bind_eq_some_iff, send_eq_some h]
  · simp [*]

structure IsolatedInv (s : TcpServer) : Prop extends s.Isolated where
  sending : ∀ p ∈ s.sending, p.1 = p.2.session

theorem isolatedInv_created : created.IsolatedInv :=
  ⟨⟨by simp [created], by simp [created], by simp [created]⟩, by simp [created]⟩

structure NoBuffer (s s' : TcpServer) : Prop where
  sends : s'.sends = s.sends
  sendQueues : s'.sendQueues = s.sendQueues
  deliveries : s'.deliveries = s.deliveries
  sending : s'.sending = s.sending

theorem IsolatedInv.frame {s s' : TcpServer} (h : s.IsolatedInv) (hs : NoBuffer s s') :
    s'.IsolatedInv := by
  refine ⟨⟨?_, ?_, ?_⟩, ?_⟩
  · simpa only [hs.sends] using h.sends
  · simpa only [hs.sendQueues] using h.queued
  · simpa only [hs.deliveries] using h.delivered
  · simpa only [hs.sending] using h.sending

theorem handleConnectionClose_noBuffer (s : TcpServer) (fd : Fd) :
    NoBuffer s (s.handleConnectionClose fd) := by
  unfold handleConnectionClose
  split <;> exact ⟨rfl, rfl, rfl, rfl⟩

theorem removeHandler_noBuffer {s s' : TcpServer} {c : Nat} {ctl : Option Int}
    (hs : s.removeHandler c ctl = some s') : NoBuffer s s' := by
  unfold removeHandler at hs
  split at hs <;> cases hs
  exact ⟨rfl, rfl, rfl, rfl⟩

theorem close_noBuffer {s s' : TcpServer} {c : Nat} (hs : s.close c = some s') :
    NoBuffer s s' := by
  unfold close at hs
  split at hs <;> cases hs
  exact ⟨rfl, rfl, rfl, rfl⟩

theorem dispatchEvent_noBuffer {s s' : TcpServer} {fd : Fd}
    (hs : s.dispatchEvent fd = some s') : NoBuffer s s' := by
  unfold dispatchEvent at hs
  split at hs <;> cases hs
  exact ⟨rfl, rfl, rfl, rfl⟩

theorem handleAccept_isolatedInv {s s' : TcpServer} {fd : Fd} {ctl : Option Int}
    (hinv : s.ServerInv) (h : s.IsolatedInv) (hs : s.handleAccept fd ctl = some s') :
    s'.IsolatedInv := by
  obtain rfl | ⟨-, -, r, -, -, rfl⟩ := handleAccept_cases hinv hs
  · exact h
  · refine ⟨⟨h.sends, fun c q hq m hm => ?_, h.delivered⟩, h.sending⟩
    rcases List.getElem?_concat_some hq with hq | ⟨-, rfl⟩
    · exact h.queued c q hq m hm
    · cases hm

theorem sessionSend_isolatedInv {s s' : TcpServer} {session : Nat} {alive : Bool}
    {buffer : Option (List UInt8)} (hinv : s.ServerInv) (h : s.IsolatedInv)
    (hC : s.OwnNumber (.sessionSend session alive buffer))
    (hs : s.sessionSend session alive buffer = some s') : s'.IsolatedInv := by
  obtain ⟨conn, hconn, rfl⟩ := sessionSend_cases hs
  have hown : ∀ c, s.sendVia conn.fd alive buffer = some c →
      c = session ∧ s.sessions.lookup conn.fd = some c := by
    intro c hc
    obtain ⟨halive, bytes, hbuf, hne, hlook⟩ := (sendVia_eq_some hinv).mp hc
    exact ⟨hC halive bytes hbuf hne conn hconn c hlook, hlook⟩
  refine ⟨⟨fun r hr c hc => ?_, h.queued, h.delivered⟩, fun p hp => ?_⟩
  · rcases List.mem_append.mp hr with hr | hr
    · exact h.sends r hr c hc
    · obtain rfl := List.mem_singleton.mp hr
      obtain ⟨rfl, hlook⟩ := hown c hc
      refine ⟨rfl, ?_⟩
      have hlive := hinv.session _ _ hlook
      rw [hconn, Option.some.injEq] at hlive
      rw [hlive]
      rfl
  · rcases List.mem_append.mp hp with hp | hp
    · exact h.sending p hp
    · simp only [Option.mem_toList, Option.map_eq_some_iff] at hp
      obtain ⟨c, hc, rfl⟩ := hp
      exact (hown c hc).1

theorem queueSend_isolatedInv {s s' : TcpServer} {i : Nat} (h : s.IsolatedInv)
    (hs : s.queueSend i = some s') : s'.IsolatedInv := by
  obtain ⟨c, m, hm, rfl⟩ := queueSend_cases hs
  refine ⟨⟨h.sends, fun d q hq m' hm' => ?_, h.delivered⟩, fun p hp => ?_⟩
  · rw [List.getElem?_modify] at hq
    obtain ⟨q', hq', rfl⟩ := Option.map_eq_some_iff.mp hq
    split at hm'
    · rename_i hcd
      subst hcd
      rcases List.mem_append.mp hm' with hm' | hm'
      · exact h.queued c q' hq' m' hm'
      · obtain rfl := List.mem_singleton.mp hm'
        exact (h.sending _ hm).symm
    · exact h.queued d q' hq' m' hm'
  · exact h.sending p (List.mem_of_mem_eraseIdx hp)

theorem processSend_isolatedInv {s s' : TcpServer} {n : Nat} (hinv : s.ServerInv)
    (h : s.IsolatedInv) (hs : s.processSend n = some s') : s'.IsolatedInv := by
  obtain ⟨c, conn, m, rest, hdisp, hconn, hq, rfl | ⟨d, hown, rfl⟩⟩ := processSend_cases hs
  · have hb := handleConnectionClose_noBuffer s conn.fd
    exact h.frame ⟨hb.sends, hb.sendQueues, hb.deliveries, hb.sending⟩
  · have hmem : ∀ m' ∈ m :: rest, m'.session = c := h.queued c _ hq
    refine ⟨⟨h.sends, fun e q he m' hm' => ?_, fun r hr => ?_⟩, h.sending⟩
    · rw [List.getElem?_set] at he
      split at he
      · rename_i hce
        subst hce
        split at he
        · cases he
          split at hm'
          · exact hmem m' (List.mem_cons_of_mem m hm')
          · rcases List.mem_cons.mp hm' with rfl | hm'
            · exact hmem m List.mem_cons_self
            · exact hmem m' (List.mem_cons_of_mem m hm')
        · cases he
      · exact h.queued e q he m' hm'
    · rcases List.mem_append.mp hr with hr | hr
      · exact h.delivered r hr
      · obtain rfl := List.mem_singleton.mp hr
        obtain ⟨fd, ⟨p, hp⟩, honly⟩ := hinv.dispatched c hdisp
        obtain ⟨owner, howner, howns⟩ := owner_eq_some hown
        rw [hconn, Option.some.injEq] at hp
        subst hp
        exact (honly d owner howner howns).trans (hmem m List.mem_cons_self).symm

theorem step_isolatedInv {s s' : TcpServer} {a : ServerAct} (hinv : s.ServerInv)
    (h : s.IsolatedInv) (hC : s.OwnNumber a) (hs : s.step a = some s') : s'.IsolatedInv := by
  cases a with
  | handleAccept fd ctl => exact handleAccept_isolatedInv hinv h hs
  | handleConnectionClose fd =>
    cases hs
    exact h.frame (handleConnectionClose_noBuffer s fd)
  | removeHandler c ctl => exact h.frame (removeHandler_noBuffer hs)
  | close c => exact h.frame (close_noBuffer hs)
  | sessionSend session alive buffer => exact sessionSend_isolatedInv hinv h hC hs
  | queueSend i => exact queueSend_isolatedInv h hs
  | dispatchEvent fd => exact h.frame (dispatchEvent_noBuffer hs)
  | processSend n => exact processSend_isolatedInv hinv h hs
  | returnToLoop =>
    cases hs
    exact h.frame ⟨rfl, rfl, rfl, rfl⟩

/-- The calls of `Send` made so far stay on record, and a call that found another
session's handler shows. -/
theorem ownNumber_of_sends {s s' : TcpServer} {a : ServerAct} (hinv : s.ServerInv)
    (hs : s.step a = some s')
    (h : ∀ r ∈ s'.sends, ∀ c, r.handler = some c → c = r.session) :
    (∀ r ∈ s.sends, ∀ c, r.handler = some c → c = r.session) ∧ s.OwnNumber a := by
  cases a with
  | sessionSend session alive buffer =>
    obtain ⟨conn, hconn, rfl⟩ := sessionSend_cases hs
    refine ⟨fun r hr => h r (List.mem_append_left _ hr), ?_⟩
    intro halive bytes hbuf hne conn' hconn' c hlook
    rw [hconn, Option.some.injEq] at hconn'
    subst hconn'
    have hvia := (sendVia_eq_some hinv).mpr ⟨halive, bytes, hbuf, hne, hlook⟩
    exact h _ (List.mem_append_right _ (List.mem_singleton.mpr rfl)) c hvia
  | handleAccept fd ctl =>
    refine ⟨?_, trivial⟩
    obtain rfl | ⟨-, -, r, -, -, rfl⟩ := handleAccept_cases hinv hs
    · exact h
    · exact h
  | handleConnectionClose fd =>
    cases hs
    rw [(handleConnectionClose_noBuffer s fd).sends] at h
    exact ⟨h, trivial⟩
  | removeHandler c ctl =>
    rw [(removeHandler_noBuffer hs).sends] at h
    exact ⟨h, trivial⟩
  | close c =>
    rw [(close_noBuffer hs).sends] at h
    exact ⟨h, trivial⟩
  | queueSend i =>
    obtain ⟨_, m, -, rfl⟩ := queueSend_cases hs
    exact ⟨h, trivial⟩
  | dispatchEvent fd =>
    rw [(dispatchEvent_noBuffer hs).sends] at h
    exact ⟨h, trivial⟩
  | processSend n =>
    refine ⟨?_, trivial⟩
    obtain ⟨c, conn, m, rest, -, -, -, rfl | ⟨d, -, rfl⟩⟩ := processSend_cases hs
    · simpa only [(handleConnectionClose_noBuffer s conn.fd).sends] using h
    · exact h
  | returnToLoop =>
    cases hs
    exact ⟨h, trivial⟩

/-- Sessions are isolated along a run exactly when no `Send` of it met a number
that had passed to another session. -/
theorem isolated_iff_ownNumber {as : List ServerAct} {t : TcpServer}
    (hrun : machine.run created as = some t) :
    t.Isolated ↔ machine.Every (fun s a _ => s.OwnNumber a) created as := by
  constructor
  · intro h
    exact (machine.every_of_final (A := fun _ => True)
      (fun s a s' _ hinv hs => step_serverInv hinv hs)
      (fun s a s' _ hinv hs hQ => ownNumber_of_sends hinv hs hQ)
      (fun _ _ => trivial) serverInv_created hrun
      (fun r hr c hc => (h.sends r hr c hc).1)).2
  · intro hC
    have hinv : t.ServerInv ∧ t.IsolatedInv :=
      machine.run_invariant_of_every (I := fun s => s.ServerInv ∧ s.IsolatedInv)
        (fun s a s' h hs hc => ⟨step_serverInv h.1 hs, step_isolatedInv h.1 h.2 hc hs⟩)
        ⟨serverInv_created, isolatedInv_created⟩ hC hrun
    exact hinv.2.toIsolated

def twoClients : List ServerAct :=
  [.handleAccept 5 none, .handleAccept 6 none, .sessionSend 0 true (some [7, 8]), .queueSend 0,
    .dispatchEvent 5, .processSend 1, .processSend 1, .returnToLoop]

theorem isolated_iff_ownNumber_twoClients :
    ∃ t, machine.run created twoClients = some t ∧
      (t.Isolated ↔ machine.Every (fun s a _ => s.OwnNumber a) created twoClients) := by
  have hrun : machine.run created twoClients = some _ := rfl
  exact ⟨_, hrun, isolated_iff_ownNumber hrun⟩

/-- The first session is used again after its connection was closed and its
number given to a second client. -/
def reusedNumber : List ServerAct :=
  [.handleAccept 5 none, .handleConnectionClose 5, .removeHandler 0 none, .close 0,
    .handleAccept 5 none, .sessionSend 0 true (some [7]), .queueSend 0,
    .dispatchEvent 5, .processSend 1]

theorem reusedNumber_not_isolated :
    ¬ ∀ (as : List ServerAct) (t : TcpServer), machine.run created as = some t → t.Isolated := by
  intro h
  have ht := h reusedNumber _ rfl
  exact absurd (ht.delivered ⟨⟨0, [7]⟩, 1⟩ (by decide)) (by decide)

end Lmnet.Epoll.TcpServer
