import Lmnet.IoUring.Chain
import Lmnet.IoUring.TcpServer
import Lmnet.IoUring.UnixServer

set_option autoImplicit false

namespace Lmnet.IoUring

section

variable {κ φ σ : Type} [DecidableEq κ] (accept other : κ)

def accepts (s : Loop κ φ σ) : Nat :=
  s.manager.inflight.countP (·.op == accept) + s.cq.countP (·.1.op == accept)

/-- `Start` has returned true on a server that was just initialised, whatever
operations the other users of the manager have under way. -/
def AcceptStarted (initialised : Fd → σ) (s : Loop κ φ σ) : Prop :=
  ∃ (s₀ : Loop κ φ σ) (fd : Fd) (o : RingOutcome) (m : Manager κ),
    s₀.Sound ∧ s₀.stack = [] ∧ s₀.state = initialised fd ∧
      (∀ q ∈ s₀.manager.inflight, q.op = other) ∧ (∀ c ∈ s₀.cq, c.1.op = other) ∧
      s₀.manager.submitOperation .accept fd accept o = (m, none) ∧ s = { s₀ with manager := m }

omit [DecidableEq κ] in
theorem AcceptStarted.underWay (comp : Component κ φ σ) {accept other : κ}
    {initialised : Fd → σ} {s : Loop κ φ σ} (h : AcceptStarted accept other initialised s) :
    s.Sound ∧ s.stack = [] ∧ (∃ fd, s.state = initialised fd) ∧
      (∀ q ∈ s.manager.inflight, q.op = accept ∨ q.op = other) ∧ ∀ c ∈ s.cq, c.1.op = other := by
  obtain ⟨s₀, fd, o, m, hsound, hstack, hstate, hinflight, hcq, hsub, rfl⟩ := h
  have ho := Manager.succeeds_of_accepted hsub
  let s₁ : Loop κ φ σ := { s₀ with stack := [.call (.submit .accept fd accept)] }
  have hsound₁ : s₁.Sound := hsound.frame fun r => by simp [hstack, Loop.Frame.puts]
  have hstep : s₁.step comp (.frame o) = some { s₀ with manager := m } := by
    simp [s₁, Loop.step, Loop.frame, hsub, hstack]
  refine ⟨(Loop.step_moves hsound₁ (a := .frame o) ho hstep).2, hstack, ⟨fd, hstate⟩, ?_, hcq⟩
  have hcases := Manager.submitOperation_cases .accept fd accept hsound.prepared ho
  rw [hsub] at hcases
  cases hcases with
  | accepted r m' hfree hrefs hinflight' =>
    intro q hq
    simp only [hinflight'] at hq
    obtain hq | hq := List.mem_append.mp hq
    · exact .inr (hinflight q hq)
    · exact .inl (congrArg Sqe.op (List.mem_singleton.mp hq))

/-- An accept that the worker handles in this step did not fail for want of memory
or by a shutdown or a cancellation, and one that is submitted in it finds a free
request and an entry in the ring. -/
def AcceptGoesOn (s : Loop κ φ σ) : LoopAct φ → Prop
  | .worker => ∀ q result rest, s.cq = (q, result) :: rest → q.op = accept →
      shouldResubmitAccept result = true
  | .frame o => ∀ type fd rest, s.stack = .call (.submit type fd accept) :: rest →
      s.manager.isRunning = true ∧ s.manager.freeRequests ≠ [] ∧ o ≠ .noSqe
  | _ => True

/-- Accepting, up to a result after which `ShouldResubmitAccept` is false. -/
def accepting (comp : Component κ φ σ) (running : σ → Bool) (code : φ → Bool) : Chain comp where
  running := running
  op := (· == accept)
  breaks _ result := !shouldResubmitAccept result
  code := code

variable {accept other} {comp : Component κ φ σ} {running : σ → Bool} {code : φ → Bool}

/-- A component keeps the chain of its accepts if its callbacks and all code but that of `Stop`
leave it running as it was, and put one step of the chain in the place of another. -/
theorem accepting_lawful_of (stop : φ)
    (hkernel : ∀ {st o result st'}, comp.kernel st o result = some st' → running st' = running st)
    (hcallback : ∀ st o result, running (comp.callback st o result).1 = running st ∧
      (accepting accept comp running code).tally.calls (comp.callback st o result).2 =
        (o == accept && shouldResubmitAccept result).toNat)
    (hstop : ∀ st, running (comp.code st stop).1 = false)
    (hcode : ∀ st {f}, f ≠ stop → running (comp.code st f).1 = running st ∧
      (running st = true → (accepting accept comp running code).tally.calls (comp.code st f).2 =
        (code f).toNat))
    (hapi : ∀ {f}, comp.api f = true → code f = false)
    (honFail : ∀ {o f}, f ∈ comp.onFail o → code f = false) :
    (accepting accept comp running code).Lawful where
  kernel := hkernel
  callback := by
    intro st o result h
    obtain ⟨hrun, hcalls⟩ := hcallback st o result
    refine ⟨hrun.symm.trans h, hcalls.trans ?_⟩
    simp [accepting, Chain.tally]
  run := by
    intro st f h
    by_cases hf : f = stop
    · subst hf
      exact absurd ((hstop st).symm.trans h) Bool.false_ne_true
    · obtain ⟨hsame, hcalls⟩ := hcode st hf
      have hrun : running st = true := hsame.symm.trans h
      exact ⟨hrun, hcalls hrun⟩
  api := hapi
  onFail := honFail

theorem linked_of_started {initialised : Fd → σ} {s : Loop κ φ σ}
    (hlawful : (accepting accept comp running code).Lawful)
    (hinit : ∀ fd, running (initialised fd) = true) (hother : other ≠ accept)
    (h : AcceptStarted accept other initialised s) :
    s.Sound ∧ (accepting accept comp running code).Linked s := by
  obtain ⟨s₀, fd, o, m, hsound, hstack, hstate, hinflight, hcq, hsub, rfl⟩ := h
  refine Chain.linked_of_accepted _ hlawful hsound ?_ ?_ (beq_self_eq_true accept) hsub
  · rw [hstate]
    exact hinit fd
  · have hkernel : s₀.manager.inflight.countP (·.op == accept) = 0 := by
      rw [List.countP_eq_zero]
      intro q hq
      simpa [hinflight q hq] using hother
    have hposted : s₀.cq.countP (·.1.op == accept) = 0 := by
      rw [List.countP_eq_zero]
      intro c hc
      simpa [hcq c hc] using hother
    simp only [Tally.count, Chain.tally, accepting, hstack, List.countP_nil, hkernel, hposted]

theorem continues_iff_goesOn {s : Loop κ φ σ} {a : LoopAct φ} (ha : a.Succeeds) :
    (accepting accept comp running code).Continues s a ↔ AcceptGoesOn accept s a := by
  cases a with
  | kernel | call => exact Iff.rfl
  | worker => simp [Chain.Continues, AcceptGoesOn, accepting]
  | frame o =>
    constructor
    · intro hcont type fd rest hstack
      rcases hsub : s.manager.submitOperation type fd accept o with ⟨m, _ | ⟨error, r⟩⟩
      · obtain ⟨hrun, hfree, hresult⟩ := Manager.submitOperation_accepted hsub
        refine ⟨hrun, hfree, ?_⟩
        rintro rfl
        exact absurd hresult (by decide)
      · have hgoes : (!shouldResubmitAccept error) = false :=
          hcont _ _ _ _ _ _ _ hstack (beq_self_eq_true accept) hsub
        rcases (Manager.submitOperation_refused hsub).2 ha with rfl | rfl
        · exact absurd hgoes (by decide)
        · exact absurd hgoes (by decide)
    · intro hgoes type fd op rest m error r hstack hop hsub
      obtain rfl : op = accept := by simpa [accepting] using hop
      obtain ⟨hrun, hfree, hentry⟩ := hgoes type fd rest hstack
      have hnone := Manager.submitOperation_of_free type fd op hrun hfree hentry ha
      rw [hsub] at hnone
      cases hnone

/-- A server that still runs after a run has an accept under way whenever the
worker is between two rounds, if and only if every accept on the way went on. -/
theorem accepts_pos_iff {initialised : Fd → σ}
    (hlawful : (accepting accept comp running code).Lawful)
    (hinit : ∀ fd, running (initialised fd) = true) (hother : other ≠ accept)
    {s t : Loop κ φ σ} {as : List (LoopAct φ)}
    (hs : AcceptStarted accept other initialised s) (hsubmit : ∀ a ∈ as, a.Succeeds)
    (hrun : (comp.machine (AcceptStarted accept other initialised)).run s as = some t)
    (hidle : t.stack = []) (hrunning : running t.state = true) :
    0 < accepts accept t ↔ (comp.machine (AcceptStarted accept other initialised)).Every
      (fun s a _ => AcceptGoesOn accept s a) s as := by
  obtain ⟨hsound, hlinked⟩ := linked_of_started hlawful hinit hother hs
  have hsingle := Chain.single_of_linked _ hsound hlinked
  have hiff := Chain.linked_run_iff hlawful hsingle hlinked hsubmit hrun hrunning
  have hone := Chain.linked_iff_outstanding (accepting accept comp running code) hidle hrunning
  have hle : accepts accept t ≤ 1 := by
    have hcount := (hsingle.run hlawful hsubmit hrun).count hrunning
    rw [Tally.count, hidle, List.countP_nil] at hcount
    exact hcount
  have hpos : 0 < accepts accept t ↔ (accepting accept comp running code).outstanding t = 1 := by
    have houtstanding : (accepting accept comp running code).outstanding t = accepts accept t := rfl
    omega
  rw [hpos, ← hone, hiff]
  exact (comp.machine (AcceptStarted accept other initialised)).every_congr (A := LoopAct.Succeeds)
    (fun _ _ _ ha => continues_iff_goesOn ha) hsubmit

end

namespace TcpServer

def acceptCode : TcpCode → Bool
  | .submitAccept => true
  | .resubmitAccept result => shouldResubmitAccept result
  | _ => false

theorem kernel_isRunning {st st' : TcpServer} {op : TcpOp} {result : Int}
    (h : st.kernel op result = some st') : st'.isRunning = st.isRunning := by
  cases op with
  | accept =>
    simp only [kernel] at h
    split at h
    · cases h
      rfl
    · split at h
      · cases h
      · cases h
        rfl
  | close c | closeDisconnected c =>
    simp only [kernel, Option.some.injEq] at h
    subst h
    split
    · exact closeNumber_isRunning st c
    · rfl
  | closeListener =>
    simp only [kernel, Option.some.injEq] at h
    subst h
    split <;> rfl
  | read | write | other =>
    cases h
    rfl

/-- In a server that runs, code on the way to the next accept puts one step in its
place, and other code puts none. -/
theorem code_links (st : TcpServer) {f : TcpCode} (hstop : f ≠ .stop) :
    (st.code f).1.isRunning = st.isRunning ∧ (st.isRunning = true →
      (accepting TcpOp.accept component TcpServer.isRunning acceptCode).tally.calls
        (st.code f).2 = (acceptCode f).toNat) := by
  cases f with
  | submitAccept =>
    refine ⟨rfl, fun hrun => ?_⟩
    simp [code, submitAccept, hrun, accepting, Chain.tally, acceptCode]
  | stop => exact absurd rfl hstop
  | handleAccept clientFd =>
    simp only [code, handleAccept]
    split <;> exact ⟨rfl, fun _ => rfl⟩
  | resubmitAccept result =>
    refine ⟨rfl, fun hrun => ?_⟩
    cases hresult : shouldResubmitAccept result <;>
      simp [code, resubmitAccept, hrun, hresult, accepting, Chain.tally, acceptCode]
  | submitRead c =>
    refine ⟨rfl, fun _ => ?_⟩
    simp only [code, submitRead]
    split <;> rfl
  | handleConnectionClose c closeFd isError =>
    simp only [code, handleConnectionClose]
    cases closeFd <;> split <;> exact ⟨rfl, fun _ => rfl⟩
  | disconnect c =>
    simp only [code, disconnect]
    split
    · exact ⟨rfl, fun _ => rfl⟩
    · split <;> exact ⟨rfl, fun _ => rfl⟩
  | closeSessions =>
    refine ⟨rfl, fun _ => ?_⟩
    simp only [code, closeSessions, Tally.calls_append]
    have hnone : (accepting TcpOp.accept component TcpServer.isRunning acceptCode).tally.calls
        (st.sessions.entries.map fun e => .code (.closeClient e.2)) = 0 := by
      rw [Tally.calls, List.countP_map]
      exact List.countP_eq_zero.mpr fun _ _ => Bool.false_ne_true
    rw [hnone]
    rfl
  | send c buffer =>
    refine ⟨rfl, fun _ => ?_⟩
    simp only [code]
    split <;> rfl
  | queueStreamWrite c buffer =>
    simp only [code, queueStreamWrite]
    split
    · exact ⟨rfl, fun _ => rfl⟩
    · rename_i stream hsession
      cases hnext : (stream.queueStreamWrite buffer).2 <;> exact ⟨rfl, fun _ => rfl⟩
  | submitNextStreamWrite c =>
    simp only [code, submitNextStreamWrite]
    split
    · exact ⟨rfl, fun _ => rfl⟩
    · split <;> exact ⟨rfl, fun _ => rfl⟩
  | failStreamWrite c =>
    simp only [code, failStreamWrite]
    split <;> exact ⟨rfl, fun _ => rfl⟩
  | directClose c => exact ⟨closeNumber_isRunning st c, fun _ => rfl⟩
  | closeClient | clearSessions | directCloseListener | other => exact ⟨rfl, fun _ => rfl⟩

theorem callback_links (st : TcpServer) (op : TcpOp) (result : Int) :
    (st.callback op result).1.isRunning = st.isRunning ∧
      (accepting TcpOp.accept component TcpServer.isRunning acceptCode).tally.calls
        (st.callback op result).2 = (op == .accept && shouldResubmitAccept result).toNat := by
  cases op with
  | accept =>
    refine ⟨rfl, ?_⟩
    simp only [callback, onAccepted]
    split <;> simp [accepting, Chain.tally, acceptCode]
  | read c =>
    simp only [callback, handleReceive]
    split
    · exact ⟨rfl, rfl⟩
    · split <;> exact ⟨rfl, rfl⟩
  | write c =>
    simp only [callback, handleStreamWriteComplete]
    split
    · exact ⟨rfl, rfl⟩
    · rename_i stream hsession
      cases hnext : (stream.handleStreamWriteComplete result).2 <;> exact ⟨rfl, rfl⟩
  | close | closeDisconnected | closeListener | other => exact ⟨rfl, rfl⟩

theorem accepting_lawful :
    (accepting TcpOp.accept component TcpServer.isRunning acceptCode).Lawful := by
  refine accepting_lawful_of .stop kernel_isRunning callback_links stop_not_running code_links
    (fun {f} h => ?_) (fun {o f} h => ?_)
  · cases f <;> first | rfl | cases h
  · cases o <;> simp [component, onFail] at h
    all_goals first | (subst h; rfl) | (rcases h with rfl | rfl <;> rfl)

end TcpServer

namespace UnixServer

def acceptCode : UnixCode → Bool
  | .submitAccept => true
  | .resubmitAccept result => shouldResubmitAccept result
  | _ => false

theorem stop_not_running (st : UnixServer) : st.stop.1.isRunning = false := by
  unfold stop
  split
  · rfl
  · simpa using ‹¬ st.isRunning = true›

theorem code_links (st : UnixServer) {f : UnixCode} (hstop : f ≠ .stop) :
    (st.code f).1.isRunning = st.isRunning ∧ (st.isRunning = true →
      (accepting UnixOp.accept component UnixServer.isRunning acceptCode).tally.calls
        (st.code f).2 = (acceptCode f).toNat) := by
  cases f with
  | submitAccept =>
    refine ⟨rfl, fun hrun => ?_⟩
    simp [code, submitAccept, hrun, accepting, Chain.tally, acceptCode]
  | stop => exact absurd rfl hstop
  | handleAccept clientFd =>
    simp only [code, handleAccept]
    split <;> exact ⟨rfl, fun _ => rfl⟩
  | resubmitAccept result =>
    refine ⟨rfl, fun hrun => ?_⟩
    cases hresult : shouldResubmitAccept result <;>
      simp [code, resubmitAccept, hrun, hresult, accepting, Chain.tally, acceptCode]
  | submitRead clientFd =>
    refine ⟨rfl, fun _ => ?_⟩
    simp only [code, submitRead]
    split <;> rfl
  | handleConnectionClose clientFd =>
    simp only [code, handleConnectionClose]
    split <;> exact ⟨rfl, fun _ => rfl⟩
  | send c buffer =>
    refine ⟨rfl, fun _ => ?_⟩
    simp only [code]
    split <;> rfl
  | sendUnixMessage c buffer =>
    refine ⟨rfl, fun _ => ?_⟩
    simp only [code, sendUnixMessage]
    split <;> rfl
  | queueStreamWrite c buffer again =>
    simp only [code, queueStreamWrite]
    split
    · exact ⟨rfl, fun _ => rfl⟩
    · rename_i x hx
      cases hnext : (x.stream.queueStreamWrite buffer).2 <;> exact ⟨rfl, fun _ => rfl⟩
  | submitNextStreamWrite c again =>
    simp only [code, submitNextStreamWrite]
    split
    · exact ⟨rfl, fun _ => rfl⟩
    · split <;> exact ⟨rfl, fun _ => rfl⟩
  | failStreamWrite c =>
    simp only [code, failStreamWrite]
    split <;> exact ⟨rfl, fun _ => rfl⟩
  | directClose | expire | other => exact ⟨rfl, fun _ => rfl⟩

theorem callback_links (st : UnixServer) (op : UnixOp) (result : Int) :
    (st.callback op result).1.isRunning = st.isRunning ∧
      (accepting UnixOp.accept component UnixServer.isRunning acceptCode).tally.calls
        (st.callback op result).2 = (op == .accept && shouldResubmitAccept result).toNat := by
  cases op with
  | accept =>
    refine ⟨rfl, ?_⟩
    simp [callback, accepting, Chain.tally, acceptCode]
  | recvMsg clientFd =>
    simp only [callback, handleReceiveWithFds]
    split
    · exact ⟨rfl, rfl⟩
    · split
      · exact ⟨rfl, rfl⟩
      · split
        · exact ⟨rfl, rfl⟩
        · split
          · exact ⟨rfl, rfl⟩
          · split <;> exact ⟨rfl, rfl⟩
  | write c again =>
    simp only [callback, handleStreamWriteComplete]
    split
    · exact ⟨rfl, rfl⟩
    · rename_i x hx
      cases hnext : (x.stream.handleStreamWriteComplete result).2 <;> exact ⟨rfl, rfl⟩
  | sendMsg c buffer =>
    simp only [callback, sendMsgComplete]
    split
    · exact ⟨rfl, rfl⟩
    · split
      · exact ⟨rfl, rfl⟩
      · split
        · exact ⟨rfl, rfl⟩
        · split <;> exact ⟨rfl, rfl⟩
  | close | other => exact ⟨rfl, rfl⟩

theorem accepting_lawful :
    (accepting UnixOp.accept component UnixServer.isRunning acceptCode).Lawful := by
  refine accepting_lawful_of .stop (fun {st o result st'} h => ?_) callback_links stop_not_running
    code_links (fun {f} h => ?_) (fun {o f} h => ?_)
  · cases h
    rfl
  · cases f <;> first | rfl | cases h
  · cases o <;> simp [component, onFail] at h
    · rcases h with rfl | ⟨-, rfl⟩ <;> rfl
    · subst h
      rfl

end UnixServer

def TcpServer.machine : Machine (Loop TcpOp TcpCode TcpServer) (LoopAct TcpCode) :=
  component.machine (AcceptStarted .accept .other initialised)

def UnixServer.machine : Machine (Loop UnixOp UnixCode UnixServer) (LoopAct UnixCode) :=
  component.machine (AcceptStarted .accept .other initialised)

/-- A server that runs has an accept under way whenever the worker is between two
rounds, if and only if every accept it handled or submitted went on. -/
theorem accept_underWay_iff {s t : Loop TcpOp TcpCode TcpServer} {as : List (LoopAct TcpCode)}
    {u v : Loop UnixOp UnixCode UnixServer} {bs : List (LoopAct UnixCode)} :
    (AcceptStarted .accept .other TcpServer.initialised s → (∀ a ∈ as, a.Succeeds) →
      TcpServer.machine.run s as = some t → t.stack = [] → t.state.isRunning = true →
      (0 < accepts .accept t ↔
        TcpServer.machine.Every (fun s a _ => AcceptGoesOn .accept s a) s as)) ∧
    (AcceptStarted .accept .other UnixServer.initialised u → (∀ a ∈ bs, a.Succeeds) →
      UnixServer.machine.run u bs = some v → v.stack = [] → v.state.isRunning = true →
      (0 < accepts .accept v ↔
        UnixServer.machine.Every (fun s a _ => AcceptGoesOn .accept s a) u bs)) := by
  constructor
  · intro hs hsubmit hrun hidle hrunning
    exact accepts_pos_iff TcpServer.accepting_lawful (fun _ => rfl) (by simp) hs hsubmit hrun hidle
      hrunning
  · intro hs hsubmit hrun hidle hrunning
    exact accepts_pos_iff UnixServer.accepting_lawful (fun _ => rfl) (by simp) hs hsubmit hrun hidle
      hrunning

def listeningOnThree {κ φ σ : Type} (accept : κ) (initialised : Fd → σ) (entries : Nat) :
    Loop κ φ σ :=
  ⟨((Manager.init entries).submitOperation .accept 3 accept (.submit 1)).1, [], [],
    initialised 3⟩

theorem listeningOnThree_started {κ φ σ : Type} (accept other : κ) (initialised : Fd → σ)
    {entries : Nat} (h : 0 < entries) :
    AcceptStarted accept other initialised (listeningOnThree accept initialised entries :
      Loop κ φ σ) := by
  have hfree : (Manager.init entries : Manager κ).freeRequests ≠ [] := by
    simp [Manager.init, List.range_eq_nil]
    omega
  have hnone : ((Manager.init entries).submitOperation .accept 3 accept (.submit 1)).2 = none :=
    Manager.submitOperation_of_free .accept 3 accept rfl hfree (by simp)
      (by simp [RingOutcome.Succeeds])
  exact ⟨⟨Manager.init entries, [], [], initialised 3⟩, 3, .submit 1, _,
    Loop.sound_init entries _, rfl, rfl, by simp [Manager.init], by simp,
    Prod.ext rfl hnone, rfl⟩

def acceptFive {φ : Type} : List (LoopAct φ) :=
  [.kernel 0 5, .worker] ++ List.replicate 8 (.frame (.submit 1))

theorem acceptFive_succeeds {φ : Type} : ∀ a ∈ (acceptFive : List (LoopAct φ)), a.Succeeds := by
  simp [acceptFive, LoopAct.Succeeds, RingOutcome.Succeeds]

theorem accept_underWay_iff_threeRequests :
    (∃ t, TcpServer.machine.run (listeningOnThree .accept .initialised 3) acceptFive = some t ∧
      (0 < accepts .accept t ↔ TcpServer.machine.Every (fun s a _ => AcceptGoesOn .accept s a)
        (listeningOnThree .accept .initialised 3) acceptFive)) ∧
    (∃ t, UnixServer.machine.run (listeningOnThree .accept .initialised 3) acceptFive = some t ∧
      (0 < accepts .accept t ↔ UnixServer.machine.Every (fun s a _ => AcceptGoesOn .accept s a)
        (listeningOnThree .accept .initialised 3) acceptFive)) := by
  have htcp : TcpServer.machine.run (listeningOnThree .accept .initialised 3) acceptFive =
      some _ := rfl
  have hunix : UnixServer.machine.run (listeningOnThree .accept .initialised 3) acceptFive =
      some _ := rfl
  obtain ⟨htcpIff, hunixIff⟩ := accept_underWay_iff (s := listeningOnThree .accept .initialised 3)
    (u := listeningOnThree .accept .initialised 3)
  exact ⟨⟨_, htcp, htcpIff (listeningOnThree_started _ _ _ (by decide)) acceptFive_succeeds htcp
      rfl rfl⟩,
    ⟨_, hunix, hunixIff (listeningOnThree_started _ _ _ (by decide)) acceptFive_succeeds hunix
      rfl rfl⟩⟩

/-- A server that runs has an accept under way, whatever happened. -/
def TcpServer.NeverDeaf : Prop :=
  ∀ s t as, AcceptStarted .accept .other initialised s → (∀ a ∈ as, a.Succeeds) →
    machine.run s as = some t → t.stack = [] → t.state.isRunning = true → 0 < accepts .accept t

def UnixServer.NeverDeaf : Prop :=
  ∀ s t as, AcceptStarted .accept .other initialised s → (∀ a ∈ as, a.Succeeds) →
    machine.run s as = some t → t.stack = [] → t.state.isRunning = true → 0 < accepts .accept t

/-- With two requests the read of the new connection takes the last one. -/
theorem fullPool_ends_accepting : ¬ TcpServer.NeverDeaf ∧ ¬ UnixServer.NeverDeaf := by
  constructor
  · intro hnever
    have hrun : TcpServer.machine.run (listeningOnThree .accept .initialised 2)
      (acceptFive ++ [.frame .noSqe, .frame .noSqe]) = some _ := rfl
    have hpos := hnever _ _ _ (listeningOnThree_started _ _ _ (by decide))
      (by simp [acceptFive, LoopAct.Succeeds, RingOutcome.Succeeds]) hrun rfl rfl
    exact absurd hpos (by decide)
  · intro hnever
    have hrun : UnixServer.machine.run (listeningOnThree .accept .initialised 2)
      (acceptFive ++ [.frame .noSqe, .frame .noSqe, .frame .noSqe]) = some _ := rfl
    have hpos := hnever _ _ _ (listeningOnThree_started _ _ _ (by decide))
      (by simp [acceptFive, LoopAct.Succeeds, RingOutcome.Succeeds]) hrun rfl rfl
    exact absurd hpos (by decide)

end Lmnet.IoUring
