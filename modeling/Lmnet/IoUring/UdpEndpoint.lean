import Lmnet.IoUring.Chain

set_option autoImplicit false

namespace Lmnet.IoUring

inductive UdpKind where
  | server | client
  deriving DecidableEq, Repr

/-- `received` are the sizes of the datagrams that `OnReceive` was called with. -/
structure UdpEndpoint where
  isRunning : Bool
  socket : Fd
  received : List Nat
  deriving DecidableEq, Repr

/-- Operations of the endpoint, and of the other users of the manager. -/
inductive UdpOp where
  | receive
  | send
  | close
  | other
  deriving DecidableEq, Repr

inductive UdpCode where
  | startReceive
  | onReceive (size : Nat)
  | restart
  | stop
  | directClose
  | send
  | sessionSend (fd : Fd)
  | other (type : RequestType) (fd : Fd)
  deriving DecidableEq, Repr

namespace UdpEndpoint

def initialised (fd : Fd) : UdpEndpoint := ⟨true, fd, []⟩

def stop (st : UdpEndpoint) : UdpEndpoint × List (Call UdpOp UdpCode) :=
  if st.isRunning then
    ({ st with isRunning := false, socket := invalidSocket },
      if st.socket ≠ invalidSocket then [.submit .close st.socket .close] else [])
  else (st, [])

def startReceive (st : UdpEndpoint) : List (Call UdpOp UdpCode) :=
  if st.isRunning then [.submit .recvFrom st.socket .receive] else []

def handleReceive (st : UdpEndpoint) (bytesRead : Int) :
    UdpEndpoint × List (Call UdpOp UdpCode) :=
  if 0 < bytesRead then (st, [.code (.onReceive bytesRead.toNat), .code .restart])
  else if bytesRead < 0 then
    if st.isRunning then
      if isFatalSubmissionError bytesRead then st.stop else (st, [.code .restart])
    else (st, [])
  else (st, [])

def send (st : UdpEndpoint) : List (Call UdpOp UdpCode) :=
  if st.isRunning then [.submit .write st.socket .send] else []

def code (st : UdpEndpoint) : UdpCode → UdpEndpoint × List (Call UdpOp UdpCode)
  | .startReceive => (st, st.startReceive)
  | .onReceive size => ({ st with received := st.received ++ [size] }, [])
  | .restart => (st, if st.isRunning then [.code .startReceive] else [])
  | .stop => st.stop
  | .directClose => (st, [])
  | .send => (st, st.send)
  -- the session handed to `OnReceive` keeps the socket number, and sends with it
  | .sessionSend fd => (st, [.submit .write fd .send])
  | .other type fd => (st, [.submit type fd .other])

/-- The callback of a send only logs, and a close has none. -/
def callback (st : UdpEndpoint) (op : UdpOp) (result : Int) :
    UdpEndpoint × List (Call UdpOp UdpCode) :=
  match op with
  | .receive => st.handleReceive result
  | .send | .close | .other => (st, [])

def onFail : UdpOp → List UdpCode
  | .close => [.directClose]
  | .receive | .send | .other => []

def api : UdpKind → UdpCode → Bool
  | _, .stop | _, .other _ _ => true
  | .server, .sessionSend _ => true
  | .client, .send => true
  | _, _ => false

def component (kind : UdpKind) : Component UdpOp UdpCode UdpEndpoint where
  callback := callback
  onFail := onFail
  code := code
  kernel st _ _ := some st
  api := api kind

/-- `StartReceive` has returned true on an endpoint that was just initialised,
whatever the other users of the manager have under way. -/
def Started (s : Loop UdpOp UdpCode UdpEndpoint) : Prop :=
  ∃ (s₀ : Loop UdpOp UdpCode UdpEndpoint) (fd : Fd) (o : RingOutcome) (m : Manager UdpOp),
    s₀.Sound ∧ s₀.stack = [] ∧ s₀.state = initialised fd ∧
      (∀ q ∈ s₀.manager.inflight, q.op = .other) ∧ (∀ c ∈ s₀.cq, c.1.op = .other) ∧
      s₀.manager.submitOperation .recvFrom fd .receive o = (m, none) ∧
      s = { s₀ with manager := m }

def machine (kind : UdpKind) : Machine (Loop UdpOp UdpCode UdpEndpoint) (LoopAct UdpCode) :=
  (component kind).machine Started

def receives (s : Loop UdpOp UdpCode UdpEndpoint) : Nat :=
  s.manager.inflight.countP (·.op == .receive) + s.cq.countP (·.1.op == .receive)

/-- No receive that the worker handles in this step read zero bytes. -/
def NonEmpty (s : Loop UdpOp UdpCode UdpEndpoint) : LoopAct UdpCode → Prop
  | .worker => ∀ q result rest, s.cq = (q, result) :: rest → q.op = .receive → result ≠ 0
  | _ => True

def receiving (kind : UdpKind) : Chain (component kind) where
  running := UdpEndpoint.isRunning
  op := (· == .receive)
  breaks _ result := result == 0
  code
    | .startReceive | .restart => true
    | _ => false

theorem stop_not_running (st : UdpEndpoint) : st.stop.1.isRunning = false := by
  unfold stop
  split
  · rfl
  · simpa using ‹¬ st.isRunning = true›

theorem handleReceive_links {st : UdpEndpoint} {kind : UdpKind} {bytesRead : Int}
    (h : (st.handleReceive bytesRead).1.isRunning = true) :
    st.isRunning = true ∧ (receiving kind).tally.calls (st.handleReceive bytesRead).2 =
      (!(bytesRead == 0)).toNat := by
  by_cases hpos : 0 < bytesRead
  · have hne : (bytesRead == 0) = false := beq_false_of_ne (by omega)
    simp only [handleReceive, hpos, if_true, hne] at h ⊢
    exact ⟨h, rfl⟩
  · by_cases hneg : bytesRead < 0
    · have hne : (bytesRead == 0) = false := beq_false_of_ne (by omega)
      simp only [handleReceive, hpos, hneg, if_true, if_false, hne] at h ⊢
      cases hrun : st.isRunning with
      | false => simp [hrun] at h
      | true =>
        cases hfatal : isFatalSubmissionError bytesRead with
        | true => simp [hrun, hfatal, stop_not_running] at h
        | false => exact ⟨rfl, rfl⟩
    · have hzero : bytesRead = 0 := by omega
      simp only [handleReceive, hpos, hneg, if_false] at h ⊢
      exact ⟨h, by simp [hzero]⟩

theorem receiving_lawful (kind : UdpKind) : (receiving kind).Lawful where
  kernel := by
    intro st o result st' h
    cases h
    rfl
  callback := by
    intro st o result h
    cases o with
    | receive => exact handleReceive_links h
    | send | close | other => exact ⟨h, rfl⟩
  run := by
    intro st f h
    cases f with
    | startReceive =>
      have hrun : st.isRunning = true := h
      exact ⟨hrun, by simp [component, code, startReceive, hrun, receiving, Chain.tally]⟩
    | restart =>
      have hrun : st.isRunning = true := h
      exact ⟨hrun, by simp [component, code, hrun, receiving, Chain.tally]⟩
    | stop => exact absurd ((stop_not_running st).symm.trans h) Bool.false_ne_true
    | send =>
      have hrun : st.isRunning = true := h
      exact ⟨hrun, by simp [component, code, send, hrun, receiving, Chain.tally]⟩
    | onReceive | directClose | sessionSend | other => exact ⟨h, rfl⟩
  api := by
    intro f h
    cases f <;> first | rfl | cases kind <;> cases h
  onFail := by
    intro o f h
    cases o <;> simp [component, onFail] at h
    subst h
    rfl

theorem linked_started (kind : UdpKind) {s : Loop UdpOp UdpCode UdpEndpoint} (h : Started s) :
    s.Sound ∧ (receiving kind).Linked s := by
  obtain ⟨s₀, fd, o, m, hsound, hstack, hstate, hinflight, hcq, hsub, rfl⟩ := h
  refine Chain.linked_of_accepted (receiving kind) (receiving_lawful kind) hsound ?_ ?_ rfl hsub
  · rw [hstate]
    rfl
  · have hkernel : s₀.manager.inflight.countP (fun q => (receiving kind).op q.op) = 0 := by
      rw [List.countP_eq_zero]
      intro q hq
      simp [receiving, hinflight q hq]
    have hposted : s₀.cq.countP (fun c => (receiving kind).op c.1.op) = 0 := by
      rw [List.countP_eq_zero]
      intro c hc
      simp [receiving, hcq c hc]
    simp only [Tally.count, Chain.tally, hstack, List.countP_nil, hkernel, hposted]

theorem nonEmpty_iff_continues (kind : UdpKind) (s : Loop UdpOp UdpCode UdpEndpoint)
    (a : LoopAct UdpCode) : (receiving kind).Continues s a ↔ NonEmpty s a := by
  cases a with
  | worker => simp [Chain.Continues, NonEmpty, receiving]
  | kernel | call => exact Iff.rfl
  | frame o =>
    refine iff_of_true ?_ trivial
    rintro type fd op rest m error r - - hsub
    have herror := (Manager.submitOperation_refused hsub).1
    have hne : error ≠ 0 := by omega
    simpa [receiving] using hne

/-- An endpoint that runs has a receive under way whenever the worker is between
two rounds, if and only if no datagram it has handled was empty. -/
theorem receives_eq_one_iff (kind : UdpKind) {s t : Loop UdpOp UdpCode UdpEndpoint}
    {as : List (LoopAct UdpCode)} (hs : Started s) (hsubmit : ∀ a ∈ as, a.Succeeds)
    (hrun : (machine kind).run s as = some t) (hidle : t.stack = [])
    (hrunning : t.state.isRunning = true) :
    receives t = 1 ↔ (machine kind).Every (fun s a _ => NonEmpty s a) s as := by
  obtain ⟨hsound, hlinked⟩ := linked_started kind hs
  have hlawful := receiving_lawful kind
  have hiff := Chain.linked_run_iff hlawful (Chain.single_of_linked _ hsound hlinked) hlinked
    hsubmit hrun hrunning
  have hidle := Chain.linked_iff_outstanding (receiving kind) hidle hrunning
  simp only [nonEmpty_iff_continues] at hiff
  exact hidle.symm.trans hiff

def socketThree : Loop UdpOp UdpCode UdpEndpoint :=
  ⟨((Manager.init 2).submitOperation .recvFrom 3 .receive (.submit 1)).1, [], [], initialised 3⟩

theorem socketThree_started : Started socketThree :=
  ⟨⟨Manager.init 2, [], [], initialised 3⟩, 3, .submit 1, _, Loop.sound_init 2 _, rfl, rfl,
    by simp [Manager.init], by simp, rfl, rfl⟩

theorem receives_eq_one_iff_fiveBytes :
    ∃ t, (machine .client).run socketThree
        [.kernel 0 5, .worker, .frame (.submit 1), .frame (.submit 1), .frame (.submit 1),
          .frame (.submit 1), .frame (.submit 1), .frame (.submit 1)] = some t ∧
      t.state.received = [5] ∧
      (receives t = 1 ↔ (machine .client).Every (fun s a _ => NonEmpty s a) socketThree
        [.kernel 0 5, .worker, .frame (.submit 1), .frame (.submit 1), .frame (.submit 1),
          .frame (.submit 1), .frame (.submit 1), .frame (.submit 1)]) := by
  have hrun : (machine .client).run socketThree
      [.kernel 0 5, .worker, .frame (.submit 1), .frame (.submit 1), .frame (.submit 1),
        .frame (.submit 1), .frame (.submit 1), .frame (.submit 1)] = some _ := rfl
  exact ⟨_, hrun, rfl, receives_eq_one_iff .client socketThree_started
    (by simp [LoopAct.Succeeds, RingOutcome.Succeeds]) hrun rfl rfl⟩

/-- Whatever the peer sends, an endpoint that runs has a receive under way. -/
def ReceivesForever (kind : UdpKind) : Prop :=
  ∀ s t as, Started s → (∀ a ∈ as, a.Succeeds) → (machine kind).run s as = some t →
    t.stack = [] → t.state.isRunning = true → receives t = 1

theorem emptyDatagram_ends_receiving :
    ¬ ReceivesForever .server ∧ ¬ ReceivesForever .client := by
  have hrun : ∀ kind, (machine kind).run socketThree
      [.kernel 0 0, .worker, .frame .noSqe, .frame .noSqe] = some
        ⟨{ isRunning := true, requestPool := [.cleared, ⟨.recvFrom, 3, some .receive⟩],
           freeRequests := [1, 0], prepared := [], inflight := [] }, [], [], initialised 3⟩ := by
    intro kind
    rfl
  have hends : ∀ kind, ¬ ReceivesForever kind := by
    intro kind hforever
    have hone := hforever _ _ _ socketThree_started
      (by simp [LoopAct.Succeeds, RingOutcome.Succeeds]) (hrun kind) rfl rfl
    simp [receives] at hone
  exact ⟨hends _, hends _⟩

end UdpEndpoint

end Lmnet.IoUring
