import Lmnet.Windows.IocpPool

set_option autoImplicit false

namespace Lmnet.Windows

def IocpWorker.waitsLong : IocpWorker → Bool
  | .waiting long => long
  | .loop | .woken | .stopSeen | .notForced | .handling _ _ _ | .recycling _ | .exited => false

def Stopping.left : Stopping → Nat
  | .posting left => left
  | .notCalled | .joined | .cleared => 0

namespace IocpManager

def infinite (s : IocpManager) : Nat := s.workers.countP IocpWorker.waitsLong

def wakeUps (s : IocpManager) : Nat := s.packets.countP (· == .wakeUp) + s.stopping.left

/-- `Stop` waits for a worker that nothing will wake. -/
def Hung (s : IocpManager) : Prop :=
  s.stopping = .posting 0 ∧ s.outstanding = [] ∧ s.packets = [] ∧
    IocpWorker.waiting true ∈ s.workers

instance (s : IocpManager) : Decidable s.Hung :=
  inferInstanceAs (Decidable (_ ∧ _ ∧ _ ∧ _))

/-- A worker whose wait has a timeout takes a wake-up only if there are more of them than
workers that wait without one. -/
def SparesWakeUp (s : IocpManager) : IocpAct → Prop
  | .take w j => s.workers[w]? = some (.waiting false) → s.packets[j]? = some .wakeUp →
      s.infinite < s.wakeUps
  | _ => True

instance (s : IocpManager) (a : IocpAct) : Decidable (s.SparesWakeUp a) := by
  cases a with
  | take w j => exact inferInstanceAs (Decidable (_ → _ → _))
  | _ => exact inferInstanceAs (Decidable True)

/-- Once `isRunning_` is false there is a wake-up for each worker that needs one. -/
def Covered (s : IocpManager) : Prop := s.isRunning = false → s.infinite ≤ s.wakeUps

theorem Covered.not_hung {s : IocpManager} (hs : s.Covered) (htimely : s.Timely) :
    ¬ s.Hung := by
  rintro ⟨hstopping, -, hpackets, hworker⟩
  have hrunning : s.isRunning = false := by
    cases h : s.isRunning with
    | false => rfl
    | true =>
      have hnot := htimely.mp h
      rw [hstopping] at hnot
      cases hnot
  have hle := hs hrunning
  have hpos : 0 < s.infinite := List.countP_pos_iff.mpr ⟨_, hworker, rfl⟩
  simp only [wakeUps, hpackets, hstopping, Stopping.left, List.countP_nil] at hle
  omega

theorem WorkerStep.infinite_le {s t : IocpManager} (h : s.WorkerStep t)
    (hrunning : s.isRunning = false) : t.infinite ≤ s.infinite := by
  cases h with
  | none hsame =>
    rw [infinite, hsame]
    exact Nat.le_refl _
  | @moved w old new hold hmove hnew hexited =>
    have hset := List.countP_set_add (p := IocpWorker.waitsLong) (a := new) hold
    have hshort : new.waitsLong = false := by
      cases hmove with
      | wait => rw [hrunning]; rfl
      | wake | take | goOn | seeStop | force | drain | leave | stay | resubmit | call
      | recycle => rfl
    rw [hshort] at hset
    rw [infinite, infinite, hnew]
    simp only [Bool.toNat_false] at hset
    omega

/-- A wake-up that is taken leaves enough for the workers that need one. -/
theorem Covered.take {s t : IocpManager} {w j : Nat} (hs : s.Covered)
    (hspare : s.SparesWakeUp (.take w j)) (h : s.take w j = some t) : t.Covered := by
  intro hrunning
  unfold IocpManager.take at h
  split at h
  · rename_i long hworker hpacket
    cases h
    have hle := hs hrunning
    have hset := List.countP_set_add (p := IocpWorker.waitsLong) (a := .woken) hworker
    have herase := List.countP_eraseIdx_add (p := (· == Packet.wakeUp)) hpacket
    simp only [IocpWorker.waitsLong, Bool.toNat_false, beq_self_eq_true, Bool.toNat_true]
      at hset herase
    simp only [infinite, wakeUps, IocpManager.setWorker] at hle ⊢
    cases long with
    | true =>
      simp only [Bool.toNat_true] at hset
      omega
    | false =>
      have hlt := hspare hworker hpacket
      simp only [Bool.toNat_false] at hset
      simp only [infinite, wakeUps] at hlt
      omega
  · rename_i long o bytes error hworker hpacket
    cases h
    have hle := hs hrunning
    have hset := List.countP_set_add (p := IocpWorker.waitsLong) (a := .handling o bytes error)
      hworker
    have herase := List.countP_eraseIdx_add (p := (· == Packet.wakeUp)) hpacket
    have hnot : (Packet.completion o bytes error == Packet.wakeUp) = false := rfl
    simp only [IocpWorker.waitsLong, Bool.toNat_false, hnot] at hset herase
    simp only [infinite, wakeUps, IocpManager.setWorker] at hle ⊢
    omega
  · cases h

theorem Covered.keep {s t : IocpManager} {a : IocpAct} (hs : s.Covered)
    (h : s.step a = some t) (hrunning : t.isRunning = s.isRunning)
    (hwakeUps : t.wakeUps = s.wakeUps) : t.Covered := by
  intro hstopped
  rw [hrunning] at hstopped
  have hle := (step_workerStep h).infinite_le hstopped
  have hcovered := hs hstopped
  omega

theorem Submits.wakeUps {s t : IocpManager} (h : s.Submits t) : t.wakeUps = s.wakeUps := by
  rw [IocpManager.wakeUps, IocpManager.wakeUps, h.packets, h.stopping]

theorem step_covered {s t : IocpManager} {a : IocpAct} (hs : s.Covered)
    (hspare : s.SparesWakeUp a) (h : s.step a = some t) : t.Covered := by
  cases a with
  | submitOperation type extensions size =>
    have hstep := h
    simp only [step] at h
    split at h
    · cases h
    · cases h
      have hsub := s.submitOperation_submits type extensions size
      exact hs.keep hstep hsub.isRunning hsub.wakeUps
  | post i success => exact hs.keep h (post_submits h).isRunning (post_submits h).wakeUps
  | submitCloseRequest valid =>
    have hsub := s.submitCloseRequest_submits valid
    have hstep := h
    cases h
    exact hs.keep hstep hsub.isRunning hsub.wakeUps
  | closesocket i success =>
    exact hs.keep h (closesocket_submits h).isRunning (closesocket_submits h).wakeUps
  | putRequest i =>
    exact hs.keep h (returnRequest_submits h).isRunning (returnRequest_submits h).wakeUps
  | complete k bytes error =>
    have hstep := h
    obtain ⟨o, -, rfl⟩ := Option.map_eq_some_iff.mp h
    refine hs.keep hstep rfl ?_
    simp [wakeUps]
  | take w j => exact hs.take hspare h
  | noPacket w =>
    have hstep := h
    simp only [step] at h
    split at h
    · cases h
      exact hs.keep hstep rfl rfl
    · cases h
  | work w wsaError =>
    have hstep := h
    obtain ⟨worker, -, hwork⟩ := Option.bind_eq_some_iff.mp h
    cases worker with
    | handling o bytes error =>
      obtain ⟨req, -, rfl⟩ := Option.map_eq_some_iff.mp hwork
      refine hs.keep hstep ?_ ?_
      · split <;> rfl
      · split <;> rfl
    | loop | woken | stopSeen | notForced | recycling =>
      cases hwork
      exact hs.keep hstep rfl rfl
    | waiting | exited => cases hwork
  | exit =>
    have hstep := h
    cases h
    exact hs.keep hstep rfl rfl
  | stop =>
    cases h
    unfold IocpManager.stop
    split
    · intro _
      have hlen : s.infinite ≤ s.workers.length := List.countP_le_length
      simp only [infinite, wakeUps, Stopping.left] at hlen ⊢
      omega
    · exact hs
  | postWakeUp =>
    simp only [step] at h
    split at h
    · rename_i left hstopping
      cases h
      intro hrunning
      have hle := hs hrunning
      simp only [infinite, wakeUps, hstopping, Stopping.left, List.countP_append,
        List.countP_cons, List.countP_nil, beq_self_eq_true, if_true] at hle ⊢
      omega
    · cases h
  | join =>
    have hstep := h
    simp only [step] at h
    split at h
    · rename_i hjoin
      cases h
      refine hs.keep hstep rfl ?_
      simp [wakeUps, hjoin.1, Stopping.left]
    · cases h
  | clear =>
    have hstep := h
    simp only [step] at h
    split at h
    · rename_i hjoined
      cases h
      refine hs.keep hstep rfl ?_
      simp [wakeUps, hjoined, Stopping.left]
    · cases h

/-- `Stop` does not hang in a run in which no worker takes a wake-up that another one
needs. -/
theorem not_hung_of_spares {s₀ t : IocpManager} {as : List IocpAct} (hinit : machine.init s₀)
    (hrun : machine.run s₀ as = some t)
    (hspare : machine.Every (fun s a _ => s.SparesWakeUp a) s₀ as) : ¬ t.Hung := by
  have hstart : s₀.Covered := by
    obtain ⟨entries, workerThreads, numberOfProcessors, rfl⟩ := hinit
    intro hrunning
    cases hrunning
  have hcovered : t.Covered := machine.run_invariant_of_every
    (fun s a s' hs h hc => step_covered hs hc h) hstart hspare hrun
  exact hcovered.not_hung (run_poolInv hinit hrun).timely

def shareWakeUps : List IocpAct :=
  [.submitOperation .read true 8, .post 0 true, .work 0 none, .work 1 none, .stop, .postWakeUp,
    .postWakeUp, .take 1 0, .take 0 0, .complete 0 8 0, .work 1 none, .work 1 none, .work 1 none,
    .work 1 none, .take 1 0, .work 1 none, .work 1 none]

theorem not_hung_shareWakeUps :
    ∃ t, machine.run (init 1 2 8) shareWakeUps = some t ∧ ¬ t.Hung := by
  have hspare : machine.Every (fun s a _ => s.SparesWakeUp a) (init 1 2 8) shareWakeUps :=
    machine.every_of_check (by decide)
  have hrun : machine.run (init 1 2 8) shareWakeUps =
      some ((machine.run (init 1 2 8) shareWakeUps).get (by decide)) := by simp
  exact ⟨_, hrun, not_hung_of_spares ⟨1, 2, 8, rfl⟩ hrun hspare⟩

/-- Of two workers the one that was woken first also takes the second wake-up, and then the
completion of a read. -/
def takeBothWakeUps : List IocpAct :=
  [.submitOperation .read true 8, .post 0 true, .work 0 none, .work 1 none, .stop, .postWakeUp,
    .postWakeUp, .take 1 0, .work 1 none, .work 1 none, .work 1 none, .work 1 none, .take 1 0,
    .work 1 none, .work 1 none, .work 1 none, .work 1 none, .complete 0 8 0, .take 1 0,
    .work 1 none, .work 1 none, .work 1 none, .noPacket 1, .work 1 none, .work 1 none,
    .work 1 none]

theorem takeBothWakeUps_hung :
    ¬ ∀ (s₀ t : IocpManager) (as : List IocpAct), machine.init s₀ →
      machine.run s₀ as = some t → ¬ t.Hung := by
  intro h
  have hrun : machine.run (init 1 2 8) takeBothWakeUps =
      some ((machine.run (init 1 2 8) takeBothWakeUps).get (by decide)) := by simp
  exact absurd (by decide) (h _ _ _ ⟨1, 2, 8, rfl⟩ hrun)

def obtains (s : IocpManager) : IocpAct → Bool
  | .submitOperation type extensions _ =>
      !decide ((type = .connect ∨ type = .accept) ∧ extensions = false) && s.getRequest.isSome
  | .submitCloseRequest valid => valid && s.getRequest.isSome
  | _ => false

/-- A request is handed out only while some worker is in its loop. -/
def Attended (s : IocpManager) (a : IocpAct) : Prop :=
  s.obtains a = true → ∃ worker ∈ s.workers, worker ≠ .exited

instance (s : IocpManager) (a : IocpAct) : Decidable (s.Attended a) :=
  inferInstanceAs (Decidable (_ → _))

/-- When the pool is cleared nothing is outstanding, in Windows or elsewhere, and no request
comes out of it afterwards. -/
structure SafeRelease (s : IocpManager) (a : IocpAct) : Prop where
  released : a = .clear → s.activeRequests = 0 ∧ s.outstanding = [] ∧ s.posted = [] ∧
    ∀ packet ∈ s.packets, packet = .wakeUp
  gone : s.stopping = .cleared → s.obtains a = false

structure Drained (s : IocpManager) : Prop where
  forceStop : s.forceStop = false
  left : (∀ worker ∈ s.workers, worker = .exited) → s.activeRequests = 0
  joined : s.stopping = .joined ∨ s.stopping = .cleared → ∀ worker ∈ s.workers, worker = .exited
  gone : s.stopping = .cleared → s.freeRequests = [] ∧ s.maxEntries = 0

theorem PoolInv.outstanding_eq_nil {s : IocpManager} (hs : s.PoolInv)
    (h : s.activeRequests = 0) : s.outstanding = [] := by
  have hcounted := hs.counted
  exact List.eq_nil_of_length_eq_zero (by omega)

theorem Drained.safeRelease {s t : IocpManager} {a : IocpAct} (hs : s.Drained)
    (hpool : s.PoolInv) (h : s.step a = some t) : s.SafeRelease a := by
  constructor
  · rintro rfl
    cases step_phase h with
    | kept hrunning hforce hstopping hclear => exact absurd rfl hclear
    | cleared hstopping =>
      have hactive := hs.left (hs.joined (.inl hstopping))
      have hnone := hpool.outstanding_eq_nil hactive
      refine ⟨hactive, hnone, ?_, fun packet hpacket => ?_⟩
      · simp only [outstanding, List.append_eq_nil_iff, List.map_eq_nil_iff] at hnone
        exact hnone.1.1.2
      · simp only [outstanding, List.append_eq_nil_iff, List.filterMap_eq_nil_iff] at hnone
        have hp := hnone.1.2 packet hpacket
        cases packet with
        | wakeUp => rfl
        | completion o bytes error => cases hp
  · intro hcleared
    obtain ⟨hfree, hmax⟩ := hs.gone hcleared
    have hget : s.getRequest = none := by simp [getRequest, hfree, hmax]
    cases a <;> simp [obtains, hget]

theorem pool_of_idle {s t : IocpManager} {a : IocpAct} (hnone : s.outstanding = [])
    (hobtains : s.obtains a = false) (hexited : ∀ worker ∈ s.workers, worker = .exited)
    (hclear : a ≠ .clear) (h : s.step a = some t) :
    t.activeRequests = s.activeRequests ∧ t.freeRequests = s.freeRequests ∧
      t.maxEntries = s.maxEntries := by
  simp only [outstanding, List.append_eq_nil_iff, List.filterMap_eq_nil_iff,
    List.map_eq_nil_iff] at hnone
  obtain ⟨⟨⟨hcalls, hposted⟩, -⟩, -⟩ := hnone
  have hcall : ∀ (i r : Nat) (call : IocpCall), s.calls[i]? = some call → call.held ≠ some r := by
    intro i r call hi hheld
    rw [hcalls call (List.mem_of_getElem? hi)] at hheld
    cases hheld
  have hworker : ∀ (w : Nat) (worker : IocpWorker), s.workers[w]? = some worker →
      worker = .exited := fun w worker hw => hexited worker (List.mem_of_getElem? hw)
  cases a with
  | submitOperation type extensions size =>
    simp only [step] at h
    split at h
    · cases h
    · cases h
      unfold IocpManager.submitOperation
      split
      · exact ⟨rfl, rfl, rfl⟩
      · rename_i hextensions
        have hget : s.getRequest = none := by
          simpa only [obtains, hextensions, decide_false, Bool.not_false, Bool.true_and,
            Option.isSome_eq_false_iff, Option.isNone_iff_eq_none] using hobtains
        rw [hget]
        exact ⟨rfl, rfl, rfl⟩
  | submitCloseRequest valid =>
    cases h
    unfold IocpManager.submitCloseRequest
    split
    · rename_i hvalid
      have hget : s.getRequest = none := by
        simpa [obtains, hvalid] using hobtains
      rw [hget]
      exact ⟨rfl, rfl, rfl⟩
    · exact ⟨rfl, rfl, rfl⟩
  | post i success =>
    simp only [step, IocpManager.post] at h
    split at h
    · rename_i r hi
      exact absurd rfl (hcall i r _ hi)
    · cases h
  | closesocket i success =>
    simp only [step, IocpManager.closesocket] at h
    split at h
    · rename_i r hi
      exact absurd rfl (hcall i r _ hi)
    · cases h
  | putRequest i =>
    simp only [step, IocpManager.returnRequest] at h
    split at h
    · rename_i r hi
      exact absurd rfl (hcall i r _ hi)
    · rename_i r success hi
      exact absurd rfl (hcall i r _ hi)
    · cases h
  | complete k bytes error =>
    simp [step, IocpManager.complete, hposted] at h
  | take w j =>
    simp only [step, IocpManager.take] at h
    split at h
    · rename_i hw hj
      cases hworker w _ hw
    · rename_i hw hj
      cases hworker w _ hw
    · cases h
  | noPacket w =>
    simp only [step] at h
    split at h
    · rename_i hw
      cases hworker w _ hw
    · cases h
  | work w wsaError =>
    obtain ⟨worker, hw, hwork⟩ := Option.bind_eq_some_iff.mp h
    rw [hworker w worker hw] at hwork
    cases hwork
  | exit =>
    cases h
    exact ⟨rfl, rfl, rfl⟩
  | stop =>
    cases h
    unfold IocpManager.stop
    split <;> exact ⟨rfl, rfl, rfl⟩
  | postWakeUp =>
    simp only [step] at h
    split at h
    · cases h
      exact ⟨rfl, rfl, rfl⟩
    · cases h
  | join =>
    simp only [step] at h
    split at h
    · cases h
      exact ⟨rfl, rfl, rfl⟩
    · cases h
  | clear => exact absurd rfl hclear

theorem WorkerStep.exited {s t : IocpManager} (h : s.WorkerStep t)
    (hs : ∀ worker ∈ s.workers, worker = .exited) : ∀ worker ∈ t.workers, worker = .exited := by
  cases h with
  | none hsame =>
    rw [hsame]
    exact hs
  | moved hold hmove hnew hexited =>
    have hgone := hs _ (List.mem_of_getElem? hold)
    cases hmove <;> cases hgone

theorem step_drained {s t : IocpManager} {a : IocpAct} (hs : s.Drained) (hpool : s.PoolInv)
    (hexit : a ≠ .exit) (hattended : s.Attended a) (h : s.step a = some t) : t.Drained := by
  have hworkers := step_workerStep h
  have hphase := step_phase h
  have hidle : (∀ worker ∈ s.workers, worker = .exited) → a ≠ .clear →
      t.activeRequests = s.activeRequests ∧ t.freeRequests = s.freeRequests ∧
        t.maxEntries = s.maxEntries := by
    intro hall hclear
    refine pool_of_idle (hpool.outstanding_eq_nil (hs.left hall)) ?_ hall hclear h
    cases hobtains : s.obtains a with
    | false => rfl
    | true =>
      obtain ⟨worker, hmem, hne⟩ := hattended hobtains
      exact absurd (hall worker hmem) hne
  constructor
  · cases hphase with
    | kept hrunning hforce hstopping hclear => rw [hforce hexit]; exact hs.forceStop
    | stopped hrunning => exact hs.forceStop
    | posted hstopping => exact hs.forceStop
    | joined hstopping hexited => exact hs.forceStop
    | cleared hstopping => exact hs.forceStop
  · intro hall
    by_cases hbefore : ∀ worker ∈ s.workers, worker = .exited
    · cases hphase with
      | kept hrunning hforce hstopping hclear =>
        rw [(hidle hbefore hclear).1]
        exact hs.left hbefore
      | stopped hrunning => exact hs.left hbefore
      | posted hstopping => exact hs.left hbefore
      | joined hstopping hexited => exact hs.left hbefore
      | cleared hstopping => exact hs.left hbefore
    · cases hworkers with
      | none hsame => exact absurd (hsame ▸ hall) hbefore
      | @moved w old new hold hmove hnew hexited =>
        obtain ⟨hlt, -⟩ := List.getElem?_eq_some_iff.mp hold
        have hmem : new ∈ t.workers := by
          rw [hnew]
          exact List.mem_set hlt new
        have hgone := hall new hmem
        rw [hexited hgone]
        subst hgone
        cases hmove with
        | force hforce =>
          rw [hs.forceStop] at hforce
          cases hforce
        | leave hactive => exact hactive
  · intro hjoined
    cases hphase with
    | kept hrunning hforce hstopping hclear =>
      rw [hstopping] at hjoined
      exact hworkers.exited (hs.joined hjoined)
    | stopped hrunning => simp at hjoined
    | posted hstopping => simp at hjoined
    | joined hstopping hexited => exact hexited
    | cleared hstopping => exact hs.joined (.inl hstopping)
  · intro hcleared
    cases hphase with
    | kept hrunning hforce hstopping hclear =>
      rw [hstopping] at hcleared
      obtain ⟨-, hfree, hmax⟩ := hidle (hs.joined (.inr hcleared)) hclear
      rw [hfree, hmax]
      exact hs.gone hcleared
    | stopped hrunning => cases hcleared
    | posted hstopping => cases hcleared
    | joined hstopping hexited => cases hcleared
    | cleared hstopping => exact ⟨rfl, rfl⟩

/-- In a run without `Exit` in which no request is handed out once every worker has left,
`Stop` clears the pool when it is out of use, and nothing comes out of it afterwards. -/
theorem safeRelease_of_attended {s₀ : IocpManager} {as : List IocpAct}
    (hinit : machine.init s₀) (hexit : ∀ a ∈ as, a ≠ .exit)
    (hattended : machine.Every (fun s a _ => s.Attended a) s₀ as) :
    machine.Every (fun s a _ => s.SafeRelease a) s₀ as := by
  obtain ⟨entries, workerThreads, numberOfProcessors, rfl⟩ := hinit
  have hstart : (init entries workerThreads numberOfProcessors).PoolInv ∧
      (init entries workerThreads numberOfProcessors).Drained := by
    refine ⟨poolInv_init entries workerThreads numberOfProcessors, rfl, fun _ => rfl, ?_, ?_⟩
    · rintro (h | h) <;> cases h
    · intro h
      cases h
  refine machine.every_of_every (I := fun s => s.PoolInv ∧ s.Drained)
    (C := fun s a _ => a ≠ .exit ∧ s.Attended a) (fun s a s' hs h hc => ?_) hstart
    (machine.every_and hexit hattended)
  exact ⟨⟨step_poolInv hs.1 h, step_drained hs.2 hs.1 hc.1 hc.2 h⟩, hs.2.safeRelease hs.1 h⟩

def submitWhileDraining : List IocpAct :=
  [.submitOperation .read true 8, .post 0 true, .work 0 none, .stop, .postWakeUp, .take 0 0,
    .submitOperation .read true 8, .post 1 true, .work 0 none, .work 0 none, .work 0 none,
    .complete 0 8 0, .complete 0 8 0, .work 0 none, .take 0 0, .work 0 none, .work 0 none,
    .work 0 none, .take 0 0, .work 0 none, .work 0 none, .work 0 none, .noPacket 0,
    .work 0 none, .work 0 none, .work 0 none, .join, .clear, .submitOperation .read true 8]

theorem safeRelease_submitWhileDraining :
    machine.Every (fun s a _ => s.SafeRelease a) (init 1 1 8) submitWhileDraining ∧
      (machine.run (init 1 1 8) submitWhileDraining).isSome :=
  ⟨safeRelease_of_attended ⟨1, 1, 8, rfl⟩ (by decide) (machine.every_of_check (by decide)),
    by decide⟩

/-- The worker finds nothing outstanding and leaves, and then a read is submitted. -/
def submitBeforeClear : List IocpAct :=
  [.work 0 none, .stop, .postWakeUp, .take 0 0, .work 0 none, .work 0 none, .work 0 none,
    .submitOperation .read true 8, .post 0 true, .join]

theorem submitBeforeClear_unsafe :
    ¬ ∀ (s₀ : IocpManager) (as : List IocpAct), machine.init s₀ → (∀ a ∈ as, a ≠ .exit) →
      machine.Every (fun s a _ => s.SafeRelease a) s₀ as := by
  intro h
  have hevery := h (init 1 1 8) (submitBeforeClear ++ [.clear]) ⟨1, 1, 8, rfl⟩ (by decide)
  have hrun : machine.run (init 1 1 8) submitBeforeClear =
      some ((machine.run (init 1 1 8) submitBeforeClear).get (by decide)) := by simp
  have hsafe := machine.every_at hrun (a := .clear) rfl hevery
  exact absurd (hsafe.released rfl).1 (by decide)

end IocpManager

end Lmnet.Windows
