import Lmnet.Windows.IocpShutdown

/-!
The byte counts of the writes of `IocpManager`: for each write operation, what the completions
of any run have transferred next to what its callback is told.
-/

set_option autoImplicit false

namespace Lmnet.Windows

structure WriteReport where
  op : Nat
  totalBytes : Nat
  error : Nat
  deriving DecidableEq, Repr

/-- The manager, and for each operation the size of the buffer if it is a write, the bytes that
its completions have transferred, and those after which it was handed to `WSASend` again. -/
structure WriteAudit where
  manager : IocpManager
  sizes : Nat → Option Nat
  transferred : Nat → Nat
  resubmitted : Nat → Nat
  reports : List WriteReport

namespace WriteAudit

def started (m : IocpManager) : WriteAudit := ⟨m, fun _ => none, fun _ => 0, fun _ => 0, []⟩

/-- Windows transfers at most the bytes it was handed, and an error has a code. -/
def Possible (s : WriteAudit) : IocpAct → Prop
  | .complete k bytes _ =>
      ∀ o ∈ s.manager.posted[k]?, ∀ req ∈ s.manager.requests[o.req]?,
        req.type = .write → bytes ≤ req.wsaBufLen
  | .work _ wsaError => wsaError ≠ some 0
  | _ => True

instance decidablePossible (s : WriteAudit) (a : IocpAct) : Decidable (s.Possible a) :=
  match a with
  | .complete k bytes _ => inferInstanceAs (Decidable (∀ o ∈ s.manager.posted[k]?,
      ∀ req ∈ s.manager.requests[o.req]?, req.type = .write → bytes ≤ req.wsaBufLen))
  | .work _ wsaError => inferInstanceAs (Decidable (wsaError ≠ some 0))
  | .submitOperation _ _ _ | .post _ _ | .submitCloseRequest _ | .closesocket _ _ | .putRequest _
  | .take _ _ | .noPacket _ | .exit | .stop | .postWakeUp | .join | .clear =>
      inferInstanceAs (Decidable True)

def add (f : Nat → Nat) (op bytes : Nat) : Nat → Nat :=
  fun i => if i = op then f i + bytes else f i

def observeHandled (s : WriteAudit) (op bytes : Nat) : Handled → WriteAudit
  | .resubmitted _ => { s with resubmitted := add s.resubmitted op bytes }
  | .called totalBytes error => { s with reports := s.reports ++ [⟨op, totalBytes, error⟩] }

def observe (s : WriteAudit) : IocpAct → WriteAudit
  | .submitOperation .write _ size =>
      { s with sizes := fun i => if i = s.manager.calls.length then some size else s.sizes i }
  | .complete k bytes _ =>
      match s.manager.posted[k]? with
      | some o => { s with transferred := add s.transferred o.op bytes }
      | none => s
  | .work w wsaError =>
      match s.manager.workers[w]? with
      | some (.handling o bytes error) =>
          match s.manager.requests[o.req]? with
          | some req =>
              if req.type = .write then
                s.observeHandled o.op bytes (req.handleCompletion bytes error wsaError)
              else s
          | none => s
      | _ => s
  | _ => s

def step (s : WriteAudit) (a : IocpAct) : Option WriteAudit :=
  if s.Possible a then (s.manager.step a).map fun m => { s.observe a with manager := m }
  else none

def machine : Machine WriteAudit IocpAct where
  init s := ∃ m, IocpManager.machine.init m ∧ s = started m
  step := step

/-- A write that was accepted is in flight or has been called back, once; and of a buffer that
is not empty the callback is told what was transferred, and of no error only if that is all. -/
structure Accounts (s : WriteAudit) : Prop where
  once : ∀ i, (s.sizes i).isSome = true → s.manager.calls[i]? = some (.returned true) →
    s.reports.countP (·.op == i) + s.manager.inFlight.countP (·.op == i) = 1
  totals : ∀ x ∈ s.reports, ∀ size, s.sizes x.op = some size → 0 < size →
    x.totalBytes = s.transferred x.op ∧ x.totalBytes ≤ size ∧ (x.error = 0 → x.totalBytes = size)

/-- A completion without an error has transferred something, its `WSASend` of the rest does
not fail, and with nothing left the size of the buffer is a `DWORD`. -/
def HandlesCleanly (s : WriteAudit) (wsaError : Option Nat) : IocpWorker → Prop
  | .handling o bytes error => error = 0 →
      ∀ req ∈ s.manager.requests[o.req]?, ∀ size ∈ s.sizes o.op, 0 < size →
        0 < bytes ∧ (bytes < req.wsaBufLen → wsaError = none) ∧
          (bytes = req.wsaBufLen → size < 2 ^ 32)
  | _ => True

instance decidableHandlesCleanly (s : WriteAudit) (wsaError : Option Nat)
    (worker : IocpWorker) : Decidable (s.HandlesCleanly wsaError worker) :=
  match worker with
  | .handling o bytes error => inferInstanceAs (Decidable (error = 0 →
      ∀ req ∈ s.manager.requests[o.req]?, ∀ size ∈ s.sizes o.op, 0 < size →
        0 < bytes ∧ (bytes < req.wsaBufLen → wsaError = none) ∧
          (bytes = req.wsaBufLen → size < 2 ^ 32)))
  | .loop | .waiting _ | .woken | .stopSeen | .notForced | .recycling _ | .exited =>
      inferInstanceAs (Decidable True)

/-- Each completion that is handled is handled cleanly. -/
def Clean (s : WriteAudit) : IocpAct → Prop
  | .work w wsaError => ∀ worker ∈ s.manager.workers[w]?, s.HandlesCleanly wsaError worker
  | _ => True

instance decidableClean (s : WriteAudit) (a : IocpAct) : Decidable (s.Clean a) :=
  match a with
  | .work w wsaError => inferInstanceAs (Decidable (∀ worker ∈ s.manager.workers[w]?,
      s.HandlesCleanly wsaError worker))
  | .submitOperation _ _ _ | .post _ _ | .submitCloseRequest _ | .closesocket _ _ | .putRequest _
  | .complete _ _ _ | .take _ _ | .noPacket _ | .exit | .stop | .postWakeUp | .join | .clear =>
      inferInstanceAs (Decidable True)

def Completed (m : IocpManager) (o : Overlapped) (bytes : Nat) : Prop :=
  ∃ error, .completion o bytes error ∈ m.packets ∨ .handling o bytes error ∈ m.workers

theorem Completed.inFlight {m : IocpManager} {o : Overlapped} {bytes : Nat}
    (h : Completed m o bytes) : o ∈ m.inFlight := by
  simp only [IocpManager.inFlight, List.mem_append, List.mem_filterMap]
  obtain ⟨error, hpacket | hworker⟩ := h
  · exact .inl (.inr ⟨_, hpacket, rfl⟩)
  · exact .inr ⟨_, hworker, rfl⟩

/-- The request memory has what was resubmitted and what is left of its write. -/
structure Fits (sized : Option Nat) (resubmitted : Nat) (req : IocpRequest) : Prop where
  write : ∀ size, sized = some size → req.type = .write ∧ req.bufferSize = some size ∧
    req.transferredBytes = resubmitted ∧ resubmitted + req.wsaBufLen = dword size ∧
      (0 < size → resubmitted < size)
  other : sized = none → req.type ≠ .write

/-- What holds until `Stop` clears the pool. `fresh` is about calls that have not been accepted;
the flights add up: what was transferred is what was resubmitted, with the completion that is
about to be handled. -/
structure Live (s : WriteAudit) : Prop where
  old : ∀ (r : Nat) (req : IocpRequest) i, s.manager.requests[r]? = some req →
    req.callback = some i → i < s.manager.calls.length
  sized : ∀ i, s.sizes i ≠ none → i < s.manager.calls.length
  only : ∀ (r r' : Nat) (req req' : IocpRequest) i, s.manager.requests[r]? = some req →
    s.manager.requests[r']? = some req' → req.callback = some i → req'.callback = some i → r = r'
  fits : ∀ (r : Nat) (req : IocpRequest) i, s.manager.requests[r]? = some req →
    req.callback = some i → Fits (s.sizes i) (s.resubmitted i) req
  fresh : ∀ i, s.manager.accepted i = false → s.transferred i = 0 ∧ s.resubmitted i = 0
  posted : ∀ o ∈ s.manager.posted, s.sizes o.op ≠ none → s.transferred o.op = s.resubmitted o.op
  completed : ∀ o bytes, Completed s.manager o bytes → ∀ size, s.sizes o.op = some size →
    s.transferred o.op = s.resubmitted o.op + bytes ∧ s.transferred o.op ≤ dword size
  reported : ∀ i, s.reports.countP (·.op == i) ≤ s.manager.callbacks.count i ∧
    (s.sizes i ≠ none → s.manager.callbacks.count i ≤ s.reports.countP (·.op == i))
  totals : ∀ x ∈ s.reports, ∀ size, s.sizes x.op = some size → 0 < size →
    x.totalBytes = s.transferred x.op ∧ x.totalBytes ≤ size ∧ (x.error = 0 → x.totalBytes = size)

theorem Live.accounts {s : WriteAudit} (h : s.Live) (hcalled : s.manager.Called) :
    s.Accounts := by
  refine ⟨fun i hi haccepted => ?_, h.totals⟩
  have honce := hcalled.once i
  have hreported := h.reported i
  have hle := hreported.2 (Option.isSome_iff_ne_none.mp hi)
  have htrue : s.manager.accepted i = true := by simp [IocpManager.accepted, haccepted]
  rw [htrue, Bool.toNat_true] at honce
  omega

theorem live_started {m : IocpManager} (hinit : IocpManager.machine.init m) :
    (started m).Live := by
  obtain ⟨entries, workerThreads, numberOfProcessors, rfl⟩ := hinit
  have hnone : ∀ (r : Nat) (req : IocpRequest) (i : Nat),
      (IocpManager.init entries workerThreads numberOfProcessors).requests[r]? = some req →
      req.callback ≠ some i := fun r req i hr => by
    obtain rfl := (List.mem_replicate.mp (List.mem_of_getElem? hr)).2
    simp [IocpRequest.cleared]
  refine ⟨fun r req i hr hi => absurd hi (hnone r req i hr), fun _ hsize => absurd rfl hsize,
    fun r _ req _ i hr _ hi => absurd hi (hnone r req i hr),
    fun r req i hr hi => absurd hi (hnone r req i hr), fun _ _ => ⟨rfl, rfl⟩,
    fun o ho => absurd ho List.not_mem_nil, fun _ _ _ _ hsize => (nomatch hsize),
    fun i => ⟨Nat.zero_le _, fun hne => absurd rfl hne⟩, fun x hx => absurd hx List.not_mem_nil⟩

theorem Live.frame {s : WriteAudit} (h : s.Live) {m : IocpManager}
    (hrequests : m.requests = s.manager.requests) (hcalls : s.manager.calls.length ≤ m.calls.length)
    (haccepted : ∀ i, m.accepted i = false → s.manager.accepted i = false)
    (hcallbacks : m.callbacks = s.manager.callbacks)
    (hposted : ∀ o ∈ m.posted, o ∈ s.manager.posted ∨ s.manager.accepted o.op = false)
    (hcompleted : ∀ o bytes, Completed m o bytes → Completed s.manager o bytes) :
    Live { s with manager := m } where
  old r req i hr hi := Nat.lt_of_lt_of_le (h.old r req i (hrequests ▸ hr) hi) hcalls
  sized i hi := Nat.lt_of_lt_of_le (h.sized i hi) hcalls
  only r r' req req' i hr hr' := h.only r r' req req' i (hrequests ▸ hr) (hrequests ▸ hr')
  fits r req i hr := h.fits r req i (hrequests ▸ hr)
  fresh i hi := h.fresh i (haccepted i hi)
  posted o ho hsize := by
    rcases hposted o ho with hold | hnew
    · exact h.posted o hold hsize
    · obtain ⟨htransferred, hresubmitted⟩ := h.fresh o.op hnew
      exact htransferred.trans hresubmitted.symm
  completed o bytes hc := h.completed o bytes (hcompleted o bytes hc)
  reported i := by
    simp only [hcallbacks]
    exact h.reported i
  totals := h.totals

theorem Live.newCall {s : WriteAudit} (h : s.Live) (hcalled : s.manager.Called) {m : IocpManager}
    {sizes : Nat → Option Nat} {call : IocpCall} (r₀ : Nat) {req₀ : IocpRequest}
    (hsizes : ∀ i, i ≠ s.manager.calls.length → sizes i = s.sizes i)
    (hmemory : ∀ r req, m.requests[r]? = some req →
      s.manager.requests[r]? = some req ∨ (r = r₀ ∧ req = req₀))
    (hcallback : req₀.callback = some s.manager.calls.length)
    (hwrite : ∀ size, sizes s.manager.calls.length = some size →
      req₀ = .initRequest .write s.manager.calls.length size)
    (hother : sizes s.manager.calls.length = none → req₀.type ≠ .write)
    (hcalls : m.calls = s.manager.calls ++ [call]) (hcall : call ≠ .returned true)
    (hsame : m.posted = s.manager.posted ∧ m.packets = s.manager.packets ∧
      m.workers = s.manager.workers ∧ m.callbacks = s.manager.callbacks) :
    Live { s with manager := m, sizes := sizes } := by
  obtain ⟨hposted, hpackets, hworkers, hcallbacks⟩ := hsame
  have hlength : m.calls.length = s.manager.calls.length + 1 := by simp [hcalls]
  have hnone : s.manager.accepted s.manager.calls.length = false := by
    simp [IocpManager.accepted]
  -- the operations that are in flight or were called back are older
  have hne : ∀ i, 0 < s.manager.callbacks.count i + s.manager.inFlight.countP (·.op == i) →
      i ≠ s.manager.calls.length := by
    rintro i hpos rfl
    rw [hcalled.once, hnone] at hpos
    exact absurd hpos (by decide)
  have hflight : ∀ o ∈ s.manager.inFlight, o.op ≠ s.manager.calls.length := fun o ho =>
    hne o.op (Nat.lt_of_lt_of_le (List.countP_pos_iff.mpr ⟨o, ho, by simp⟩) (Nat.le_add_left _ _))
  have hsize : ∀ i, i ≠ s.manager.calls.length → ∀ {x : Option Nat}, sizes i = x → s.sizes i = x :=
    fun i hi _ hx => (hsizes i hi).symm.trans hx
  refine ⟨fun r req i hr hi => ?_, fun i hsome => ?_, fun r r' req req' i hr hr' hi hi' => ?_,
    fun r req i hr hi => ?_, fun i hi => ?_, fun o ho hsome => ?_, fun o bytes hc size hsome => ?_,
    fun i => ?_, fun x hx size hsome => ?_⟩
  · rcases hmemory r req hr with hold | ⟨-, rfl⟩
    · have hlt := h.old r req i hold hi
      simp only [hlength]
      omega
    · obtain rfl := Option.some.inj (hcallback.symm.trans hi)
      simp only [hlength]
      exact Nat.lt_succ_self _
  · simp only [hlength]
    by_cases hi : i = s.manager.calls.length
    · rw [hi]
      exact Nat.lt_succ_self _
    · exact Nat.lt_succ_of_lt (h.sized i fun hx => hsome ((hsizes i hi).trans hx))
  · rcases hmemory r req hr with hold | ⟨rfl, rfl⟩ <;>
      rcases hmemory r' req' hr' with hold' | ⟨rfl, rfl⟩
    · exact h.only r r' req req' i hold hold' hi hi'
    · have hlt := h.old r req i hold hi
      rw [hcallback] at hi'
      cases hi'
      exact absurd hlt (Nat.lt_irrefl _)
    · have hlt := h.old r' req' i hold' hi'
      rw [hcallback] at hi
      cases hi
      exact absurd hlt (Nat.lt_irrefl _)
    · rfl
  · rcases hmemory r req hr with hold | ⟨-, rfl⟩
    · have hlt := h.old r req i hold hi
      simp only [hsizes i (Nat.ne_of_lt hlt)]
      exact h.fits r req i hold hi
    · rw [hcallback] at hi
      cases hi
      refine ⟨fun size hx => ?_, hother⟩
      have hzero := (h.fresh _ hnone).2
      rw [hwrite size hx]
      refine ⟨rfl, rfl, hzero.symm, ?_, fun hpos => by simpa only [hzero] using hpos⟩
      simp only [hzero, IocpRequest.initRequest, Nat.zero_add]
  · refine h.fresh i ?_
    rw [← hi]
    exact (s.manager.accepted_concat call hcall i).symm.trans (by
      rw [IocpManager.accepted, hcalls])
  · have hold : o ∈ s.manager.posted := hposted ▸ ho
    have hmem : o ∈ s.manager.inFlight :=
      List.mem_append_left _ (List.mem_append_left _ hold)
    exact h.posted o hold fun hx => hsome ((hsizes _ (hflight o hmem)).trans hx)
  · have hold : Completed s.manager o bytes := by
      obtain ⟨error, hc⟩ := hc
      exact ⟨error, by rwa [hpackets, hworkers] at hc⟩
    exact h.completed o bytes hold size (hsize o.op (hflight o hold.inFlight) hsome)
  · simp only [hcallbacks]
    refine ⟨(h.reported i).1, fun hsome => ?_⟩
    by_cases hi : i = s.manager.calls.length
    · have hzero : s.manager.callbacks.count i = 0 := by
        by_contra hpos
        exact hne i (Nat.lt_of_lt_of_le (Nat.pos_of_ne_zero hpos) (Nat.le_add_right _ _)) hi
      rw [hzero]
      exact Nat.zero_le _
    · exact (h.reported i).2 fun hx => hsome ((hsizes i hi).trans hx)
  · have hreports : 0 < s.reports.countP (·.op == x.op) :=
      List.countP_pos_iff.mpr ⟨x, hx, by simp⟩
    have hcalls' := (h.reported x.op).1
    exact h.totals x hx size (hsize x.op (hne x.op (by omega)) hsome)

theorem getRequest_same {s m : IocpManager} {r : Nat} (h : s.getRequest = some (r, m)) :
    m.posted = s.posted ∧ m.packets = s.packets ∧ m.workers = s.workers ∧
      m.callbacks = s.callbacks := by
  obtain ⟨rest, -, rfl⟩ | ⟨-, -, -, rfl⟩ := IocpManager.getRequest_cases h
  · exact ⟨rfl, rfl, rfl, rfl⟩
  · exact ⟨rfl, rfl, rfl, rfl⟩

theorem Live.submitted {s : WriteAudit} (h : s.Live) (hcalled : s.manager.Called)
    (hpool : s.manager.Conserved) {m : IocpManager} {r : Nat}
    (hget : s.manager.getRequest = some (r, m)) {sizes : Nat → Option Nat} {req : IocpRequest}
    {call : IocpCall} (hcall : call ≠ .returned true)
    (hsizes : ∀ i, i ≠ s.manager.calls.length → sizes i = s.sizes i)
    (hcallback : req.callback = some s.manager.calls.length)
    (hwrite : ∀ size, sizes s.manager.calls.length = some size →
      req = .initRequest .write s.manager.calls.length size)
    (hother : sizes s.manager.calls.length = none → req.type ≠ .write) :
    Live { s with
      manager := { m with
        requests := m.requests.set r req
        calls := s.manager.calls ++ [call] }
      sizes := sizes } := by
  obtain ⟨-, hset, hkept⟩ := hpool.fresh hget req
  have hmemory : ∀ r' req', (m.requests.set r req)[r']? = some req' →
      s.manager.requests[r']? = some req' ∨ (r' = r ∧ req' = req) := fun r' req' hr' => by
    by_cases heq : r' = r
    · subst heq
      exact .inr ⟨rfl, Option.some.inj (hr'.symm.trans hset)⟩
    · exact .inl ((hkept r' heq).symm.trans hr')
  have hsame := getRequest_same hget
  exact h.newCall hcalled r hsizes hmemory hcallback hwrite hother rfl hcall hsame

def sizesWith (s : WriteAudit) (type : IocpRequestType) (size : Nat) : Nat → Option Nat :=
  if type = .write then fun i => if i = s.manager.calls.length then some size else s.sizes i
  else s.sizes

theorem sizesWith_of_ne (s : WriteAudit) (type : IocpRequestType) (size : Nat) (i : Nat)
    (hi : i ≠ s.manager.calls.length) : s.sizesWith type size i = s.sizes i := by
  unfold sizesWith
  split
  · exact if_neg hi
  · rfl

theorem Live.sizesWith_length {s : WriteAudit} (h : s.Live) (type : IocpRequestType) (size : Nat) :
    s.sizesWith type size s.manager.calls.length = if type = .write then some size else none := by
  unfold sizesWith
  split
  · exact if_pos rfl
  · by_contra hne
    exact Nat.lt_irrefl _ (h.sized _ hne)

theorem Live.submitOperation {s : WriteAudit} (h : s.Live) (hcalled : s.manager.Called)
    (hpool : s.manager.Conserved) (type : IocpRequestType) (extensions : Bool) (size : Nat) :
    Live { s with
      manager := s.manager.submitOperation type extensions size
      sizes := s.sizesWith type size } := by
  have hlength := h.sizesWith_length type size
  have hsizes := s.sizesWith_of_ne type size
  have hcallback : (IocpRequest.initRequest type s.manager.calls.length size).callback =
      some s.manager.calls.length := by cases type <;> rfl
  have hwrite : ∀ size', s.sizesWith type size s.manager.calls.length = some size' →
      IocpRequest.initRequest type s.manager.calls.length size =
        .initRequest .write s.manager.calls.length size' := fun size' hx => by
    rw [hlength] at hx
    split at hx
    · rename_i htype
      cases hx
      rw [htype]
    · cases hx
  have hother : s.sizesWith type size s.manager.calls.length = none →
      (IocpRequest.initRequest type s.manager.calls.length size).type ≠ .write := fun hx => by
    rw [hlength] at hx
    split at hx
    · cases hx
    · rename_i htype
      have hsame : (IocpRequest.initRequest type s.manager.calls.length size).type = type := by
        cases type <;> rfl
      rwa [hsame]
  have hrefused : Live { s with
      manager := { s.manager with calls := s.manager.calls ++ [.returned false] }
      sizes := s.sizesWith type size } :=
    h.newCall hcalled 0 hsizes (fun _ _ hr => .inl hr) hcallback hwrite hother rfl
      (by simp) ⟨rfl, rfl, rfl, rfl⟩
  unfold IocpManager.submitOperation
  split
  · exact hrefused
  · split
    · exact hrefused
    · rename_i r m hget
      exact h.submitted hcalled hpool hget (by simp) hsizes hcallback hwrite hother

theorem Live.submitCloseRequest {s : WriteAudit} (h : s.Live) (hcalled : s.manager.Called)
    (hpool : s.manager.Conserved) (valid : Bool) :
    Live { s with manager := s.manager.submitCloseRequest valid } := by
  have hnone : s.sizes s.manager.calls.length = none := by
    by_contra hne
    exact Nat.lt_irrefl _ (h.sized _ hne)
  have hwrite : ∀ size, s.sizes s.manager.calls.length = some size →
      IocpRequest.initRequest .close s.manager.calls.length 0 =
        .initRequest .write s.manager.calls.length size := fun size hx => by
    rw [hnone] at hx
    cases hx
  have hother : s.sizes s.manager.calls.length = none →
      (IocpRequest.initRequest .close s.manager.calls.length 0).type ≠ .write := fun _ htype => by
    cases htype
  have hrefused : Live { s with
      manager := { s.manager with calls := s.manager.calls ++ [.closeReturned false] } } :=
    h.newCall hcalled 0 (fun _ _ => rfl) (fun _ _ hr => .inl hr) rfl hwrite hother rfl
      (by simp) ⟨rfl, rfl, rfl, rfl⟩
  unfold IocpManager.submitCloseRequest
  split
  · split
    · exact hrefused
    · rename_i r m hget
      exact h.submitted hcalled hpool hget (by simp) (fun _ _ => rfl) rfl hwrite hother
  · exact hrefused

theorem Live.setCall {s : WriteAudit} (h : s.Live) {i : Nat} {old new : IocpCall}
    (hcall : s.manager.calls[i]? = some old) (hold : old ≠ .returned true) {m : IocpManager}
    (hcalls : m.calls = s.manager.calls.set i new) (hrequests : m.requests = s.manager.requests)
    (hcallbacks : m.callbacks = s.manager.callbacks)
    (hposted : ∀ o ∈ m.posted, o ∈ s.manager.posted ∨ o.op = i)
    (hpackets : m.packets = s.manager.packets) (hworkers : m.workers = s.manager.workers) :
    Live { s with manager := m } := by
  have hnot : s.manager.accepted i = false := by
    simp [IocpManager.accepted, hcall, hold]
  refine h.frame hrequests (by simp [hcalls]) (fun j hj => ?_) hcallbacks (fun o ho => ?_)
    fun o bytes hc => ?_
  · by_cases hji : j = i
    · rw [hji]
      exact hnot
    · have hsame := s.manager.accepted_setCall new hcall j
      rw [if_neg hji] at hsame
      rw [← hsame, ← hj, IocpManager.accepted, IocpManager.accepted, IocpManager.setCall, hcalls]
  · exact (hposted o ho).imp_right fun hop => by rwa [hop]
  · obtain ⟨error, hc⟩ := hc
    exact ⟨error, by rwa [hpackets, hworkers] at hc⟩

theorem Live.post {s : WriteAudit} (h : s.Live) {i : Nat} {success : Bool} {m : IocpManager}
    (hs : s.manager.post i success = some m) : Live { s with manager := m } := by
  unfold IocpManager.post at hs
  split at hs
  · rename_i r hcall
    split at hs
    · cases hs
      refine h.setCall hcall (by simp) rfl rfl rfl (fun o ho => ?_) rfl rfl
      rcases List.mem_append.mp ho with hold | hnew
      · exact .inl hold
      · obtain rfl := List.mem_singleton.mp hnew
        exact .inr rfl
    · cases hs
      exact h.setCall hcall (by simp) rfl rfl rfl (fun o ho => .inl ho) rfl rfl
  · cases hs

theorem Live.closesocket {s : WriteAudit} (h : s.Live) {i : Nat} {success : Bool}
    {m : IocpManager} (hs : s.manager.closesocket i success = some m) :
    Live { s with manager := m } := by
  unfold IocpManager.closesocket at hs
  split at hs
  · rename_i r hcall
    cases hs
    exact h.setCall hcall (by simp) rfl rfl rfl (fun o ho => .inl ho) rfl rfl
  · cases hs

theorem Live.returnRequest {s : WriteAudit} (h : s.Live) {i : Nat} {m : IocpManager}
    (hs : s.manager.returnRequest i = some m) : Live { s with manager := m } := by
  unfold IocpManager.returnRequest at hs
  split at hs
  · rename_i r hcall
    cases hs
    exact h.setCall hcall (by simp) rfl rfl rfl (fun o ho => .inl ho) rfl rfl
  · rename_i r success hcall
    cases hs
    exact h.setCall hcall (by simp) rfl rfl rfl (fun o ho => .inl ho) rfl rfl
  · cases hs

theorem Live.moved {s : WriteAudit} (h : s.Live) {m : IocpManager}
    (hrequests : m.requests = s.manager.requests) (hcalls : m.calls = s.manager.calls)
    (hcallbacks : m.callbacks = s.manager.callbacks) (hposted : m.posted = s.manager.posted)
    (hcompleted : ∀ o bytes, Completed m o bytes → Completed s.manager o bytes) :
    Live { s with manager := m } := by
  refine h.frame hrequests (Nat.le_of_eq (by rw [hcalls])) (fun i hi => ?_) hcallbacks
    (fun o ho => .inl (hposted ▸ ho)) hcompleted
  rw [← hi, IocpManager.accepted, IocpManager.accepted, hcalls]

theorem Completed.of_setWorker {m : IocpManager} {w : Nat} {worker : IocpWorker}
    (hworker : worker.inFlight = none) {o : Overlapped} {bytes : Nat}
    (h : Completed (m.setWorker w worker) o bytes) : Completed m o bytes := by
  obtain ⟨error, hpacket | hmem⟩ := h
  · exact ⟨error, .inl hpacket⟩
  · rcases List.mem_or_eq_of_mem_set hmem with hold | rfl
    · exact ⟨error, .inr hold⟩
    · cases hworker

theorem Live.take {s : WriteAudit} (h : s.Live) {w j : Nat} {m : IocpManager}
    (hs : s.manager.take w j = some m) : Live { s with manager := m } := by
  unfold IocpManager.take at hs
  split at hs
  · cases hs
    refine h.moved rfl rfl rfl rfl fun o bytes hc => ?_
    obtain ⟨error, hc⟩ := hc
    rcases hc with hpacket | hmem
    · exact ⟨error, .inl (List.mem_of_mem_eraseIdx hpacket)⟩
    · rcases List.mem_or_eq_of_mem_set hmem with hold | hnew
      · exact ⟨error, .inr hold⟩
      · cases hnew
  · rename_i o bytes error hworker hpacket
    cases hs
    refine h.moved rfl rfl rfl rfl fun o' bytes' hc => ?_
    obtain ⟨error', hc⟩ := hc
    rcases hc with hpacket' | hmem
    · exact ⟨error', .inl (List.mem_of_mem_eraseIdx hpacket')⟩
    · rcases List.mem_or_eq_of_mem_set hmem with hold | hnew
      · exact ⟨error', .inr hold⟩
      · cases hnew
        exact ⟨_, .inl (List.mem_of_getElem? hpacket)⟩
  · cases hs

theorem parts_le_one {m : IocpManager} (hcalled : m.Called) (i : Nat) :
    m.callbacks.count i + (m.posted.countP (·.op == i) +
      (m.packets.filterMap Packet.inFlight).countP (·.op == i) +
      (m.workers.filterMap IocpWorker.inFlight).countP (·.op == i)) ≤ 1 := by
  have honce := hcalled.once i
  simp only [IocpManager.inFlight, List.countP_append] at honce
  rw [honce]
  exact Bool.toNat_le _

theorem Completed.count {m : IocpManager} {o : Overlapped} {bytes : Nat}
    (h : Completed m o bytes) :
    0 < (m.packets.filterMap Packet.inFlight).countP (·.op == o.op) +
      (m.workers.filterMap IocpWorker.inFlight).countP (·.op == o.op) := by
  obtain ⟨error, hpacket | hworker⟩ := h
  · have hpos : 0 < (m.packets.filterMap Packet.inFlight).countP (·.op == o.op) :=
      List.countP_pos_iff.mpr ⟨o, List.mem_filterMap.mpr ⟨_, hpacket, rfl⟩, by simp⟩
    omega
  · have hpos : 0 < (m.workers.filterMap IocpWorker.inFlight).countP (·.op == o.op) :=
      List.countP_pos_iff.mpr ⟨o, List.mem_filterMap.mpr ⟨_, hworker, rfl⟩, by simp⟩
    omega

theorem Live.complete {s : WriteAudit} (h : s.Live) (hcalled : s.manager.Called)
    {k bytes error : Nat} {o : Overlapped} (ho : s.manager.posted[k]? = some o)
    (hpossible : s.Possible (.complete k bytes error)) :
    Live { s with
      manager := { s.manager with
        posted := s.manager.posted.eraseIdx k
        packets := s.manager.packets ++ [.completion o bytes error] }
      transferred := add s.transferred o.op bytes } := by
  have hparts := parts_le_one hcalled o.op
  have herase := List.countP_eraseIdx_add (p := fun x : Overlapped => x.op == o.op) ho
  rw [beq_self_eq_true, Bool.toNat_true] at herase
  have hmem : o ∈ s.manager.posted := List.mem_of_getElem? ho
  have hother : ∀ i, i ≠ o.op → add s.transferred o.op bytes i = s.transferred i :=
    fun i hi => if_neg hi
  refine ⟨h.old, h.sized, h.only, h.fits, fun i hi => ?_, fun o' ho' hsome => ?_,
    fun o' bytes' hc size hsome => ?_, h.reported, fun x hx size hsome => ?_⟩
  · refine ⟨?_, (h.fresh i hi).2⟩
    have hne : i ≠ o.op := by
      rintro rfl
      have hpos : 0 < s.manager.inFlight.countP (·.op == o.op) := List.countP_pos_iff.mpr
        ⟨o, List.mem_append_left _ (List.mem_append_left _ hmem), by simp⟩
      have honce := hcalled.once o.op
      have hno : s.manager.accepted o.op = false := hi
      rw [hno, Bool.toNat_false] at honce
      omega
    exact (hother i hne).trans (h.fresh i hi).1
  · have hne : o'.op ≠ o.op := fun heq => by
      have hpos : 0 < (s.manager.posted.eraseIdx k).countP (·.op == o.op) :=
        List.countP_pos_iff.mpr ⟨o', ho', by simp [heq]⟩
      omega
    exact (hother _ hne).trans (h.posted o' (List.mem_of_mem_eraseIdx ho') hsome)
  · have hold : ∀ b, Completed s.manager o' b → o'.op ≠ o.op := fun b hc' heq => by
      have hpos := hc'.count
      rw [heq] at hpos
      omega
    obtain ⟨error', hpacket | hworker⟩ := hc
    · rcases List.mem_append.mp hpacket with hpacket' | hnew
      · have hc' : Completed s.manager o' bytes' := ⟨error', .inl hpacket'⟩
        simp only [hother _ (hold _ hc')]
        exact h.completed o' bytes' hc' size hsome
      · cases List.mem_singleton.mp hnew
        have hposted := h.posted o hmem (by rw [hsome]; simp)
        obtain ⟨req, hreq, hcallback⟩ := Option.bind_eq_some_iff.mp (hcalled.flying o
          (List.mem_append_left _ (List.mem_append_left _ hmem)))
        obtain ⟨htype, -, -, hfits, -⟩ := (h.fits o.req req o.op hreq hcallback).write size hsome
        have hle := hpossible o ho req hreq htype
        simp only [add, if_true]
        omega
    · have hc' : Completed s.manager o' bytes' := ⟨error', .inr hworker⟩
      simp only [hother _ (hold _ hc')]
      exact h.completed o' bytes' hc' size hsome
  · have hne : x.op ≠ o.op := fun heq => by
      have hreports : 0 < s.reports.countP (·.op == o.op) :=
        List.countP_pos_iff.mpr ⟨x, hx, by simp [heq]⟩
      have hle := (h.reported o.op).1
      omega
    simp only [hother _ hne]
    exact h.totals x hx size hsome

/-- The operation that a worker handles is in flight nowhere else, and its request memory is
that of its call. -/
theorem handling_alone {m : IocpManager} (hcalled : m.Called) {w bytes error : Nat}
    {o : Overlapped} (hworker : m.workers[w]? = some (.handling o bytes error)) :
    m.callbackAt o.req = some o.op ∧ m.callbacks.count o.op = 0 ∧ m.accepted o.op = true ∧
      (∀ o' ∈ m.posted, o'.op ≠ o.op) ∧
      ∀ worker o' bytes', worker.inFlight = none →
        Completed (m.setWorker w worker) o' bytes' → o'.op ≠ o.op := by
  have hmem : o ∈ m.inFlight :=
    Completed.inFlight ⟨error, .inr (List.mem_of_getElem? hworker)⟩
  have hparts := parts_le_one hcalled o.op
  have hset : ∀ worker : IocpWorker, worker.inFlight = none →
      ((m.workers.set w worker).filterMap IocpWorker.inFlight).countP (·.op == o.op) + 1 =
        (m.workers.filterMap IocpWorker.inFlight).countP (·.op == o.op) := fun worker hnone => by
    have hcount := List.countP_filterMap_set_add (f := IocpWorker.inFlight)
      (q := fun x => x.op == o.op) (a := worker) hworker
    have hone : (IocpWorker.handling o bytes error).inFlight.toList.countP
        (fun x => x.op == o.op) = 1 := by simp [IocpWorker.inFlight]
    rw [hnone, hone] at hcount
    exact hcount
  have hpos := hset .loop rfl
  refine ⟨hcalled.flying o hmem, ?_, ?_, fun o' ho' heq => ?_,
    fun worker o' bytes' hnone hc heq => ?_⟩
  · omega
  · have honce := hcalled.once o.op
    have hone : 0 < m.inFlight.countP (·.op == o.op) :=
      List.countP_pos_iff.mpr ⟨o, hmem, by simp⟩
    by_contra hnot
    rw [Bool.not_eq_true] at hnot
    rw [hnot, Bool.toNat_false] at honce
    omega
  · have hposted : 0 < m.posted.countP (·.op == o.op) :=
      List.countP_pos_iff.mpr ⟨o', ho', by simp [heq]⟩
    omega
  · have hcount := hc.count
    rw [heq] at hcount
    have hworkers := hset worker hnone
    simp only [IocpManager.setWorker] at hcount
    omega

theorem Live.resubmit {s : WriteAudit} (h : s.Live) (hcalled : s.manager.Called)
    {w bytes error : Nat} {o : Overlapped} {req : IocpRequest}
    (hworker : s.manager.workers[w]? = some (.handling o bytes error))
    (hreq : s.manager.requests[o.req]? = some req) {size : Nat} (hsize : s.sizes o.op = some size)
    (hbytes : bytes < req.wsaBufLen) :
    Live { s with
      manager := { s.manager.setWorker w .loop with
        requests := s.manager.requests.set o.req { req with
          transferredBytes := dword (req.transferredBytes + bytes)
          wsaBufLen := req.wsaBufLen - bytes }
        posted := s.manager.posted ++ [o] }
      resubmitted := add s.resubmitted o.op bytes } := by
  obtain ⟨hflying, -, haccepted, hposted, hcompleted⟩ := handling_alone hcalled hworker
  have hcallback : req.callback = some o.op := by
    rwa [IocpManager.callbackAt, hreq] at hflying
  obtain ⟨htype, hbuffer, htransferred, hsum, -⟩ :=
    (h.fits o.req req o.op hreq hcallback).write size hsize
  have hdword : dword size < 2 ^ 32 := Nat.mod_lt _ (by decide)
  have hle : dword size ≤ size := Nat.mod_le _ _
  have hnowrap : dword (req.transferredBytes + bytes) = req.transferredBytes + bytes :=
    Nat.mod_eq_of_lt (by omega)
  have hother : ∀ i, i ≠ o.op → add s.resubmitted o.op bytes i = s.resubmitted i :=
    fun i hi => if_neg hi
  have hmemory : ∀ {r : Nat} {req' : IocpRequest}, (s.manager.requests.set o.req { req with
      transferredBytes := dword (req.transferredBytes + bytes)
      wsaBufLen := req.wsaBufLen - bytes })[r]? = some req' →
      ∃ old, s.manager.requests[r]? = some old ∧ old.callback = req'.callback := fun hr => by
    rcases List.getElem?_set_some hr with ⟨rfl, rfl⟩ | ⟨-, hold⟩
    · exact ⟨req, hreq, rfl⟩
    · exact ⟨_, hold, rfl⟩
  refine ⟨fun r req' i hr hi => ?_, h.sized, fun r r' req₁ req₂ i hr hr' hi hi' => ?_,
    fun r req' i hr hi => ?_, fun i hi => ?_, fun o' ho' hsome => ?_,
    fun o' bytes' hc size' hsome => ?_, h.reported, h.totals⟩
  · obtain ⟨old, hold, heq⟩ := hmemory hr
    exact h.old r old i hold (heq.trans hi)
  · obtain ⟨old, hold, heq⟩ := hmemory hr
    obtain ⟨old', hold', heq'⟩ := hmemory hr'
    exact h.only r r' old old' i hold hold' (heq.trans hi) (heq'.trans hi')
  · rcases List.getElem?_set_some hr with ⟨rfl, rfl⟩ | ⟨hne, hold⟩
    · obtain rfl := Option.some.inj (hcallback.symm.trans hi)
      refine ⟨fun size' hsome => ?_, fun hnone => ?_⟩
      · obtain rfl := Option.some.inj (hsize.symm.trans hsome)
        simp only [add, if_true, hnowrap]
        exact ⟨htype, hbuffer, by omega, by omega, fun _ => by omega⟩
      · rw [hsize] at hnone
        cases hnone
    · have hi' : i ≠ o.op := fun heq =>
        hne (h.only o.req r req req' o.op hreq hold hcallback (heq ▸ hi))
      simp only [hother i hi']
      exact h.fits r req' i hold hi
  · have hi' : i ≠ o.op := fun heq => by
      have hno : s.manager.accepted i = false := hi
      rw [heq, haccepted] at hno
      cases hno
    exact ⟨(h.fresh i hi).1, (hother i hi').trans (h.fresh i hi).2⟩
  · rcases List.mem_append.mp ho' with hold | hnew
    · exact (h.posted o' hold hsome).trans (hother _ (hposted o' hold)).symm
    · obtain rfl := List.mem_singleton.mp hnew
      have hdone := h.completed o' bytes ⟨error, .inr (List.mem_of_getElem? hworker)⟩ size hsize
      simp only [add, if_true]
      exact hdone.1
  · have hc' : Completed (s.manager.setWorker w .loop) o' bytes' := hc
    have hne := hcompleted .loop o' bytes' rfl hc'
    simp only [hother _ hne]
    exact h.completed o' bytes' (hc'.of_setWorker rfl) size' hsome

theorem Live.called {s : WriteAudit} (h : s.Live) {w : Nat} {o : Overlapped}
    {reports : List WriteReport}
    (hreports : ∀ i, reports.countP (·.op == i) ≤ (o.op == i).toNat ∧
      (s.sizes i ≠ none → (o.op == i).toNat ≤ reports.countP (·.op == i)))
    (htotals : ∀ x ∈ reports, ∀ size, s.sizes x.op = some size → 0 < size →
      x.totalBytes = s.transferred x.op ∧ x.totalBytes ≤ size ∧
        (x.error = 0 → x.totalBytes = size)) :
    Live { s with
      manager := { s.manager.setWorker w (.recycling o.req) with
        callbacks := s.manager.callbacks ++ [o.op] }
      reports := s.reports ++ reports } := by
  refine ⟨h.old, h.sized, h.only, h.fits, h.fresh, h.posted, fun o' bytes' hc => ?_, fun i => ?_,
    fun x hx => ?_⟩
  · have hc' : Completed (s.manager.setWorker w (.recycling o.req)) o' bytes' := hc
    exact h.completed o' bytes' (hc'.of_setWorker rfl)
  · have hone : [o.op].count i = (o.op == i).toNat := by
      rw [List.count_singleton]
      cases o.op == i <;> rfl
    obtain ⟨hle, hge⟩ := h.reported i
    obtain ⟨hle', hge'⟩ := hreports i
    simp only [List.countP_append, List.count_append, hone]
    refine ⟨by omega, fun hsome => ?_⟩
    have hold := hge hsome
    have hnew := hge' hsome
    omega
  · rcases List.mem_append.mp hx with hold | hnew
    · exact h.totals x hold
    · exact htotals x hnew

/-- The numbers that a write callback is told, when it is called. -/
theorem told_iff {req : IocpRequest} {bytes error size b e : Nat} {wsaError : Option Nat}
    (htype : req.type = .write) (hbuffer : req.bufferSize = some size)
    (hsum : req.transferredBytes + req.wsaBufLen = dword size) (hle : bytes ≤ req.wsaBufLen)
    (hlt : req.transferredBytes < size) (hwsa : wsaError ≠ some 0)
    (h : req.handleCompletion bytes error wsaError = .called b e) :
    (b = req.transferredBytes + bytes ∧ b ≤ size ∧ (e = 0 → b = size)) ↔
      (error = 0 → 0 < bytes ∧ bytes = req.wsaBufLen ∧ size < 2 ^ 32) := by
  have hdword : dword size < 2 ^ 32 := Nat.mod_lt _ (by decide)
  have hdle : dword size ≤ size := Nat.mod_le _ _
  simp only [IocpRequest.handleCompletion, htype, hbuffer, Option.isSome_some, true_and] at h
  split at h
  · -- what has been added to `transferredBytes` is added again
    rename_i hpartial
    obtain ⟨rfl, hpos, hrest⟩ := hpartial
    cases wsaError with
    | none => cases h
    | some e' =>
      have he' : e' ≠ 0 := fun heq => hwsa (by rw [heq])
      simp only [IocpRequest.totalBytes, if_neg he'] at h
      cases h
      simp only [dword] at hdword hsum ⊢
      refine ⟨fun htold => ?_, fun hclean => ?_⟩
      · have htotal := htold.1
        omega
      · have hall := (hclean trivial).2.1
        omega
  · rename_i hwhole
    by_cases herror : error = 0
    · simp only [IocpRequest.totalBytes, hbuffer, if_pos herror] at h
      cases h
      have hends : bytes = 0 ∨ bytes = req.wsaBufLen := by omega
      refine ⟨fun htold _ => ?_, fun hclean => ?_⟩
      · have htotal := htold.1
        have hsize := htold.2.2 herror
        omega
      · obtain ⟨hpos, hfull, hsmall⟩ := hclean herror
        have hsize : dword size = size := Nat.mod_eq_of_lt hsmall
        exact ⟨by omega, hdle, fun _ => hsize⟩
    · simp only [IocpRequest.totalBytes, hbuffer, if_neg herror] at h
      cases h
      have hnowrap : dword (req.transferredBytes + bytes) = req.transferredBytes + bytes :=
        Nat.mod_eq_of_lt (by omega)
      exact iff_of_true ⟨hnowrap, by omega, fun heq => absurd heq herror⟩
        fun heq => absurd heq herror

structure Handling (s : WriteAudit) (o : Overlapped) (bytes size : Nat) (req : IocpRequest) :
    Prop where
  type : req.type = .write
  buffer : req.bufferSize = some size
  transferred : s.transferred o.op = req.transferredBytes + bytes
  sum : req.transferredBytes + req.wsaBufLen = dword size
  fits : bytes ≤ req.wsaBufLen
  left : 0 < size → req.transferredBytes < size

theorem Live.handling {s : WriteAudit} (h : s.Live) (hcalled : s.manager.Called)
    {w bytes error : Nat} {o : Overlapped} {req : IocpRequest}
    (hworker : s.manager.workers[w]? = some (.handling o bytes error))
    (hreq : s.manager.requests[o.req]? = some req) :
    req.callback = some o.op ∧ (∀ size, s.sizes o.op = some size → s.Handling o bytes size req) ∧
      (s.sizes o.op = none → req.type ≠ .write) := by
  have hflying := (handling_alone hcalled hworker).1
  have hcallback : req.callback = some o.op := by
    rwa [IocpManager.callbackAt, hreq] at hflying
  have hfits := h.fits o.req req o.op hreq hcallback
  refine ⟨hcallback, fun size hsize => ?_, hfits.other⟩
  obtain ⟨htype, hbuffer, htransferred, hsum, hleft⟩ := hfits.write size hsize
  obtain ⟨hbytes, hle⟩ :=
    h.completed o bytes ⟨error, .inr (List.mem_of_getElem? hworker)⟩ size hsize
  exact ⟨htype, hbuffer, by omega, by omega, by omega, by omega⟩

theorem observe_handling {s : WriteAudit} {w bytes error : Nat} {wsaError : Option Nat}
    {o : Overlapped} {req : IocpRequest}
    (hworker : s.manager.workers[w]? = some (.handling o bytes error))
    (hreq : s.manager.requests[o.req]? = some req) :
    s.observe (.work w wsaError) =
      if req.type = .write then
        s.observeHandled o.op bytes (req.handleCompletion bytes error wsaError)
      else s := by
  simp only [observe, hworker, hreq]

theorem Live.handled {s : WriteAudit} (h : s.Live) (hcalled : s.manager.Called)
    {w bytes error : Nat} {wsaError : Option Nat} {o : Overlapped} {req : IocpRequest}
    (hworker : s.manager.workers[w]? = some (.handling o bytes error))
    (hreq : s.manager.requests[o.req]? = some req) (hwsa : wsaError ≠ some 0)
    (hclean : s.Clean (.work w wsaError)) :
    Live { s.observe (.work w wsaError) with
      manager := match req.handleCompletion bytes error wsaError with
        | .resubmitted req =>
            { s.manager.setWorker w .loop with
              requests := s.manager.requests.set o.req req
              posted := s.manager.posted ++ [o] }
        | .called _ _ =>
            { s.manager.setWorker w (.recycling o.req) with
              callbacks := s.manager.callbacks ++ req.callback.toList } } := by
  obtain ⟨hcallback, hwrite, hother⟩ := h.handling hcalled hworker hreq
  rw [observe_handling hworker hreq]
  cases hsize : s.sizes o.op with
  | none =>
    rw [if_neg (hother hsize)]
    split
    · rename_i req' hhandled
      exact absurd (IocpManager.handleCompletion_resubmitted hhandled).1 (hother hsize)
    · rw [hcallback]
      have hnone : ∀ i, ([] : List WriteReport).countP (·.op == i) ≤ (o.op == i).toNat ∧
          (s.sizes i ≠ none → (o.op == i).toNat ≤ ([] : List WriteReport).countP (·.op == i)) :=
        fun i => ⟨Nat.zero_le _, fun hsome => by
          have hne : (o.op == i) = false := beq_eq_false_iff_ne.mpr fun heq => hsome (heq ▸ hsize)
          rw [hne]
          exact Nat.le_refl _⟩
      have hlive := h.called (w := w) hnone fun x hx => absurd hx List.not_mem_nil
      rwa [List.append_nil] at hlive
  | some size =>
    have hreqs := hwrite size hsize
    rw [if_pos hreqs.type]
    cases hhandled : req.handleCompletion bytes error wsaError with
    | resubmitted req' =>
      obtain ⟨-, -, ⟨-, hshort⟩, rfl⟩ := IocpManager.handleCompletion_resubmitted hhandled
      exact h.resubmit hcalled hworker hreq hsize hshort
    | called b e =>
      rw [hcallback]
      refine h.called (fun i => ?_) fun x hx size' hsize' hpos => ?_
      · rw [List.countP_singleton]
        cases o.op == i <;> simp
      · obtain rfl := List.mem_singleton.mp hx
        obtain rfl := Option.some.inj (hsize.symm.trans hsize')
        rw [hreqs.transferred]
        refine (told_iff hreqs.type hreqs.buffer hreqs.sum hreqs.fits (hreqs.left hpos) hwsa
          hhandled).mpr fun herror => ?_
        subst herror
        obtain ⟨hsent, hpartial, hfull⟩ := hclean _ hworker rfl req hreq size hsize hpos
        have hend : bytes = req.wsaBufLen := by
          by_contra hne
          have hshort : bytes < req.wsaBufLen := Nat.lt_of_le_of_ne hreqs.fits hne
          simp [IocpRequest.handleCompletion, hreqs.type, hreqs.buffer, hsent, hshort,
            hpartial hshort] at hhandled
        exact ⟨hsent, hend, hfull hend⟩

theorem observe_work {s : WriteAudit} {w : Nat} {wsaError : Option Nat} {worker : IocpWorker}
    (hworker : s.manager.workers[w]? = some worker) (hnone : worker.inFlight = none) :
    s.observe (.work w wsaError) = s := by
  simp only [observe, hworker]
  cases worker with
  | handling o bytes error => cases hnone
  | loop | waiting | woken | stopSeen | notForced | recycling | exited => rfl

theorem Live.setWorker {s : WriteAudit} (h : s.Live) (w : Nat) {worker : IocpWorker}
    (hnone : worker.inFlight = none) : Live { s with manager := s.manager.setWorker w worker } :=
  h.moved rfl rfl rfl rfl fun _ _ hc => hc.of_setWorker hnone

theorem Live.work {s : WriteAudit} (h : s.Live) (hcalled : s.manager.Called) {w : Nat}
    {wsaError : Option Nat} {worker : IocpWorker} {m : IocpManager}
    (hworker : s.manager.workers[w]? = some worker)
    (hwork : s.manager.work w wsaError worker = some m) (hwsa : wsaError ≠ some 0)
    (hclean : s.Clean (.work w wsaError)) :
    Live { s.observe (.work w wsaError) with manager := m } := by
  cases worker with
  | handling o bytes error =>
    obtain ⟨req, hreq, rfl⟩ := Option.map_eq_some_iff.mp hwork
    exact h.handled hcalled hworker hreq hwsa hclean
  | waiting infinite => cases hwork
  | exited => cases hwork
  | loop =>
    cases hwork
    rw [observe_work hworker rfl]
    exact h.setWorker w rfl
  | woken | stopSeen | notForced =>
    cases hwork
    rw [observe_work hworker rfl]
    refine h.setWorker w ?_
    split <;> rfl
  | recycling r =>
    cases hwork
    rw [observe_work hworker rfl]
    exact h.moved rfl rfl rfl rfl fun _ _ hc => Completed.of_setWorker rfl hc

theorem step_cases {s t : WriteAudit} {a : IocpAct} (h : s.step a = some t) :
    s.Possible a ∧ ∃ m, s.manager.step a = some m ∧ t = { s.observe a with manager := m } := by
  unfold step at h
  split at h
  · rename_i hpossible
    obtain ⟨m, hm, rfl⟩ := Option.map_eq_some_iff.mp h
    exact ⟨hpossible, m, hm, rfl⟩
  · cases h

theorem observe_submitOperation (s : WriteAudit) (type : IocpRequestType) (extensions : Bool)
    (size : Nat) :
    s.observe (.submitOperation type extensions size) =
      { s with sizes := s.sizesWith type size } := by
  cases type <;> rfl

theorem observe_complete {s : WriteAudit} {k bytes error : Nat} {o : Overlapped}
    (ho : s.manager.posted[k]? = some o) :
    s.observe (.complete k bytes error) =
      { s with transferred := add s.transferred o.op bytes } := by
  simp only [observe, ho]

theorem Live.step {s t : WriteAudit} {a : IocpAct} (h : s.Live) (hcalled : s.manager.Called)
    (hpool : s.manager.Conserved) (hstep : s.step a = some t) (ha : a ≠ .clear)
    (hclean : s.Clean a) : t.Live := by
  obtain ⟨hpossible, m, hm, rfl⟩ := step_cases hstep
  cases a with
  | submitOperation type extensions size =>
    simp only [IocpManager.step] at hm
    split at hm
    · cases hm
    · cases hm
      rw [observe_submitOperation]
      exact h.submitOperation hcalled hpool type extensions size
  | post i success => exact h.post hm
  | submitCloseRequest valid =>
    cases hm
    exact h.submitCloseRequest hcalled hpool valid
  | closesocket i success => exact h.closesocket hm
  | putRequest i => exact h.returnRequest hm
  | complete k bytes error =>
    obtain ⟨o, ho, rfl⟩ := Option.map_eq_some_iff.mp hm
    rw [observe_complete ho]
    exact h.complete hcalled ho hpossible
  | take w j => exact h.take hm
  | noPacket w =>
    simp only [IocpManager.step] at hm
    split at hm
    · cases hm
      exact h.setWorker w rfl
    · cases hm
  | work w wsaError =>
    obtain ⟨worker, hworker, hwork⟩ := Option.bind_eq_some_iff.mp hm
    exact h.work hcalled hworker hwork hpossible hclean
  | exit =>
    cases hm
    exact h.moved rfl rfl rfl rfl fun _ _ hc => hc
  | stop =>
    cases hm
    unfold IocpManager.stop
    split <;> exact h.moved rfl rfl rfl rfl fun _ _ hc => hc
  | postWakeUp =>
    simp only [IocpManager.step] at hm
    split at hm
    · cases hm
      refine h.moved rfl rfl rfl rfl fun o bytes hc => ?_
      obtain ⟨error, hc⟩ := hc
      refine ⟨error, hc.imp_left fun hmem => ?_⟩
      rcases List.mem_append.mp hmem with hold | hnew
      · exact hold
      · cases List.mem_singleton.mp hnew
    · cases hm
  | join =>
    simp only [IocpManager.step] at hm
    split at hm
    · cases hm
      exact h.moved rfl rfl rfl rfl fun _ _ hc => hc
    · cases hm
  | clear => exact absurd rfl ha

/-- A completion that `Clean` is about is handled well only if it is clean. -/
theorem Live.clean {s t : WriteAudit} {a : IocpAct} (h : s.Live) (hcalled : s.manager.Called)
    (hstep : s.step a = some t) (ht : t.Accounts) : s.Clean a := by
  cases a with
  | work w wsaError =>
    intro worker hworker
    cases worker with
    | loop | waiting | woken | stopSeen | notForced | recycling | exited => trivial
    | handling o bytes error =>
      rintro rfl req hreq size hsize hpos
      obtain ⟨hwsa, m, hm, rfl⟩ := step_cases hstep
      have hreqs := (h.handling hcalled hworker hreq).2.1 size hsize
      have htotals := ht.totals
      rw [observe_handling hworker hreq, if_pos hreqs.type] at htotals
      cases hhandled : req.handleCompletion bytes 0 wsaError with
      | resubmitted req' =>
        obtain ⟨-, hnone, ⟨hsent, hshort⟩, -⟩ := IocpManager.handleCompletion_resubmitted hhandled
        exact ⟨hsent, fun _ => hnone, fun hfull => absurd hfull (Nat.ne_of_lt hshort)⟩
      | called b e =>
        rw [hhandled] at htotals
        have htold := htotals ⟨o.op, b, e⟩ (List.mem_append_right _ (List.mem_singleton.mpr rfl))
          size hsize hpos
        simp only [observeHandled, hreqs.transferred] at htold
        obtain ⟨hsent, hend, hsmall⟩ := (told_iff hreqs.type hreqs.buffer hreqs.sum hreqs.fits
          (hreqs.left hpos) hwsa hhandled).mp htold rfl
        exact ⟨hsent, fun hshort => absurd hend (Nat.ne_of_lt hshort), fun _ => hsmall⟩
  | submitOperation | post | submitCloseRequest | closesocket | putRequest | complete | take
    | noPacket | exit | stop | postWakeUp | join | clear => trivial

structure Cleared (s : WriteAudit) : Prop where
  exited : ∀ worker ∈ s.manager.workers, worker = .exited
  once : ∀ i, s.manager.callbacks.count i + s.manager.inFlight.countP (·.op == i) =
    (s.manager.accepted i).toNat
  reported : ∀ i, s.reports.countP (·.op == i) ≤ s.manager.callbacks.count i ∧
    (s.sizes i ≠ none → s.manager.callbacks.count i ≤ s.reports.countP (·.op == i))
  totals : ∀ x ∈ s.reports, ∀ size, s.sizes x.op = some size → 0 < size →
    x.totalBytes = s.transferred x.op ∧ x.totalBytes ≤ size ∧ (x.error = 0 → x.totalBytes = size)

theorem Cleared.accounts {s : WriteAudit} (h : s.Cleared) : s.Accounts := by
  refine ⟨fun i hi haccepted => ?_, h.totals⟩
  have honce := h.once i
  have hreported := h.reported i
  have hle := hreported.2 (Option.isSome_iff_ne_none.mp hi)
  have htrue : s.manager.accepted i = true := by simp [IocpManager.accepted, haccepted]
  rw [htrue, Bool.toNat_true] at honce
  omega

theorem Live.cleared {s : WriteAudit} (h : s.Live) (hcalled : s.manager.Called)
    (hexited : ∀ worker ∈ s.manager.workers, worker = .exited) :
    Cleared { s with manager := { s.manager with
      requests := [], freeRequests := [], maxEntries := 0, stopping := .cleared } } :=
  ⟨hexited, hcalled.once, h.reported, h.totals⟩

theorem Cleared.frame {s : WriteAudit} (h : s.Cleared) {m : IocpManager}
    {sizes : Nat → Option Nat} {transferred : Nat → Nat} (hworkers : m.workers = s.manager.workers)
    (hcallbacks : m.callbacks = s.manager.callbacks)
    (honce : ∀ i, m.inFlight.countP (·.op == i) + (s.manager.accepted i).toNat =
      s.manager.inFlight.countP (·.op == i) + (m.accepted i).toNat)
    (hkept : ∀ i, 0 < s.manager.callbacks.count i →
      sizes i = s.sizes i ∧ transferred i = s.transferred i) :
    Cleared { s with manager := m, sizes := sizes, transferred := transferred } := by
  refine ⟨hworkers ▸ h.exited, fun i => ?_, fun i => ?_, fun x hx size hsize => ?_⟩
  · have hold := h.once i
    have hnew := honce i
    simp only [hcallbacks]
    omega
  · obtain ⟨hle, hge⟩ := h.reported i
    simp only [hcallbacks]
    refine ⟨hle, fun hsome => ?_⟩
    by_cases hzero : s.manager.callbacks.count i = 0
    · rw [hzero]
      exact Nat.zero_le _
    · exact hge fun hnone => hsome ((hkept i (Nat.pos_of_ne_zero hzero)).1.trans hnone)
  · have hreports : 0 < s.reports.countP (·.op == x.op) :=
      List.countP_pos_iff.mpr ⟨x, hx, by simp⟩
    have hle := (h.reported x.op).1
    obtain ⟨hsizes, htransferred⟩ := hkept x.op (by omega)
    simp only [htransferred]
    exact h.totals x hx size (hsizes.symm.trans hsize)

theorem Cleared.newCall {s : WriteAudit} (h : s.Cleared) {m : IocpManager}
    {sizes : Nat → Option Nat} {call : IocpCall}
    (hsizes : ∀ i, i ≠ s.manager.calls.length → sizes i = s.sizes i)
    (hcalls : m.calls = s.manager.calls ++ [call]) (hcall : call ≠ .returned true)
    (hsame : m.posted = s.manager.posted ∧ m.packets = s.manager.packets ∧
      m.workers = s.manager.workers ∧ m.callbacks = s.manager.callbacks) :
    Cleared { s with manager := m, sizes := sizes } := by
  obtain ⟨hposted, hpackets, hworkers, hcallbacks⟩ := hsame
  refine h.frame hworkers hcallbacks (fun i => ?_) fun i hpos => ⟨hsizes i ?_, rfl⟩
  · have haccepted : m.accepted i = s.manager.accepted i := by
      rw [IocpManager.accepted, hcalls]
      exact s.manager.accepted_concat call hcall i
    rw [haccepted, IocpManager.inFlight, hposted, hpackets, hworkers, IocpManager.inFlight]
  · rintro rfl
    have honce := h.once s.manager.calls.length
    have hnone : s.manager.accepted s.manager.calls.length = false := by
      simp [IocpManager.accepted]
    rw [hnone, Bool.toNat_false] at honce
    omega

theorem Cleared.setCall {s : WriteAudit} (h : s.Cleared) {i : Nat} {old new : IocpCall}
    (hcall : s.manager.calls[i]? = some old) (hold : old ≠ .returned true)
    (hnew : new ≠ .returned true) {m : IocpManager} (hcalls : m.calls = s.manager.calls.set i new)
    (hsame : m.posted = s.manager.posted ∧ m.packets = s.manager.packets ∧
      m.workers = s.manager.workers ∧ m.callbacks = s.manager.callbacks) :
    Cleared { s with manager := m } := by
  obtain ⟨hposted, hpackets, hworkers, hcallbacks⟩ := hsame
  refine h.frame hworkers hcallbacks (fun j => ?_) fun _ _ => ⟨rfl, rfl⟩
  have haccepted : m.accepted j = s.manager.accepted j := by
    have hset := s.manager.accepted_setCall new hcall j
    have hsame : m.accepted j = (s.manager.setCall i new).accepted j := by
      rw [IocpManager.accepted, hcalls]
      rfl
    rw [hsame, hset]
    split
    · rename_i hj
      subst hj
      simp [IocpManager.accepted, hcall, hold, hnew]
    · rfl
  rw [haccepted, IocpManager.inFlight, hposted, hpackets, hworkers, IocpManager.inFlight]

theorem Cleared.post {s : WriteAudit} (h : s.Cleared) {i : Nat} {success : Bool} {m : IocpManager}
    (hs : s.manager.post i success = some m) : Cleared { s with manager := m } := by
  unfold IocpManager.post at hs
  split at hs
  · rename_i r hcall
    split at hs
    · cases hs
      refine h.frame rfl rfl (fun j => ?_) fun _ _ => ⟨rfl, rfl⟩
      have hset := s.manager.accepted_setCall (.returned true) hcall j
      have hnot : s.manager.accepted i = false := by simp [IocpManager.accepted, hcall]
      have hsame : IocpManager.accepted { s.manager.setCall i (.returned true) with
          posted := s.manager.posted ++ [⟨r, i⟩] } j =
          (s.manager.setCall i (.returned true)).accepted j := rfl
      rw [hsame, hset]
      simp only [IocpManager.inFlight, IocpManager.setCall, List.countP_append,
        List.countP_singleton]
      by_cases hji : j = i
      · subst hji
        simp only [hnot, beq_self_eq_true, if_true, Bool.toNat_false, Bool.toNat_true]
        omega
      · have hne : (i == j) = false := by simpa using Ne.symm hji
        simp only [hji, hne, if_false, Bool.false_eq_true]
        omega
    · cases hs
      exact h.setCall hcall (by simp) (by simp) rfl ⟨rfl, rfl, rfl, rfl⟩
  · cases hs

theorem Cleared.complete {s : WriteAudit} (h : s.Cleared) {k bytes error : Nat} {o : Overlapped}
    (ho : s.manager.posted[k]? = some o) :
    Cleared { s with
      manager := { s.manager with
        posted := s.manager.posted.eraseIdx k
        packets := s.manager.packets ++ [.completion o bytes error] }
      transferred := add s.transferred o.op bytes } := by
  refine h.frame rfl rfl (fun i => ?_) fun i hpos => ⟨rfl, if_neg ?_⟩
  · have herase := List.countP_eraseIdx_add (p := fun x : Overlapped => x.op == i) ho
    have haccepted : IocpManager.accepted { s.manager with
        posted := s.manager.posted.eraseIdx k
        packets := s.manager.packets ++ [.completion o bytes error] } i =
          s.manager.accepted i := rfl
    rw [haccepted]
    simp only [IocpManager.inFlight, List.countP_append, List.filterMap_append]
    cases hi : o.op == i <;> simp [Packet.inFlight, hi] at herase ⊢ <;> omega
  · rintro rfl
    have honce := h.once o.op
    have hflight : 0 < s.manager.inFlight.countP (·.op == o.op) := List.countP_pos_iff.mpr
      ⟨o, List.mem_append_left _ (List.mem_append_left _ (List.mem_of_getElem? ho)), by simp⟩
    have hle := Bool.toNat_le (s.manager.accepted o.op)
    omega

theorem Cleared.submitOperation {s : WriteAudit} (h : s.Cleared) (type : IocpRequestType)
    (extensions : Bool) (size : Nat) :
    Cleared { s with
      manager := s.manager.submitOperation type extensions size
      sizes := s.sizesWith type size } := by
  have hsizes := s.sizesWith_of_ne type size
  unfold IocpManager.submitOperation
  split
  · exact h.newCall hsizes rfl (by simp) ⟨rfl, rfl, rfl, rfl⟩
  · split
    · exact h.newCall hsizes rfl (by simp) ⟨rfl, rfl, rfl, rfl⟩
    · rename_i r m hget
      have hsame := getRequest_same hget
      exact h.newCall hsizes rfl (by simp) hsame

theorem Cleared.submitCloseRequest {s : WriteAudit} (h : s.Cleared) (valid : Bool) :
    Cleared { s with manager := s.manager.submitCloseRequest valid } := by
  unfold IocpManager.submitCloseRequest
  split
  · split
    · exact h.newCall (fun _ _ => rfl) rfl (by simp) ⟨rfl, rfl, rfl, rfl⟩
    · rename_i r m hget
      have hsame := getRequest_same hget
      exact h.newCall (fun _ _ => rfl) rfl (by simp) hsame
  · exact h.newCall (fun _ _ => rfl) rfl (by simp) ⟨rfl, rfl, rfl, rfl⟩

theorem Cleared.closesocket {s : WriteAudit} (h : s.Cleared) {i : Nat} {success : Bool}
    {m : IocpManager} (hs : s.manager.closesocket i success = some m) :
    Cleared { s with manager := m } := by
  unfold IocpManager.closesocket at hs
  split at hs
  · rename_i r hcall
    cases hs
    exact h.setCall hcall (by simp) (by simp) rfl ⟨rfl, rfl, rfl, rfl⟩
  · cases hs

theorem Cleared.returnRequest {s : WriteAudit} (h : s.Cleared) {i : Nat} {m : IocpManager}
    (hs : s.manager.returnRequest i = some m) : Cleared { s with manager := m } := by
  unfold IocpManager.returnRequest at hs
  split at hs
  · rename_i r hcall
    cases hs
    exact h.setCall hcall (by simp) (by simp) rfl ⟨rfl, rfl, rfl, rfl⟩
  · rename_i r success hcall
    cases hs
    exact h.setCall hcall (by simp) (by simp) rfl ⟨rfl, rfl, rfl, rfl⟩
  · cases hs

theorem Cleared.idle {s : WriteAudit} (h : s.Cleared) {m : IocpManager}
    (hcalls : m.calls = s.manager.calls) (hposted : m.posted = s.manager.posted)
    (hpackets : m.packets.filterMap Packet.inFlight = s.manager.packets.filterMap Packet.inFlight)
    (hworkers : m.workers = s.manager.workers) (hcallbacks : m.callbacks = s.manager.callbacks) :
    Cleared { s with manager := m } := by
  refine h.frame hworkers hcallbacks (fun i => ?_) fun _ _ => ⟨rfl, rfl⟩
  rw [IocpManager.accepted, IocpManager.accepted, hcalls, IocpManager.inFlight, hposted, hpackets,
    hworkers, IocpManager.inFlight]

theorem Cleared.step {s t : WriteAudit} {a : IocpAct} (h : s.Cleared) (hstep : s.step a = some t) :
    t.Cleared := by
  obtain ⟨hpossible, m, hm, rfl⟩ := step_cases hstep
  have hworker : ∀ (w : Nat) worker, s.manager.workers[w]? = some worker → worker = .exited :=
    fun w worker hw => h.exited worker (List.mem_of_getElem? hw)
  cases a with
  | submitOperation type extensions size =>
    simp only [IocpManager.step] at hm
    split at hm
    · cases hm
    · cases hm
      rw [observe_submitOperation]
      exact h.submitOperation type extensions size
  | post i success => exact h.post hm
  | submitCloseRequest valid =>
    cases hm
    exact h.submitCloseRequest valid
  | closesocket i success => exact h.closesocket hm
  | putRequest i => exact h.returnRequest hm
  | complete k bytes error =>
    obtain ⟨o, ho, rfl⟩ := Option.map_eq_some_iff.mp hm
    rw [observe_complete ho]
    exact h.complete ho
  | take w j =>
    simp only [IocpManager.step, IocpManager.take] at hm
    split at hm
    · rename_i hw hpacket
      cases hworker w _ hw
    · rename_i hw hpacket
      cases hworker w _ hw
    · cases hm
  | noPacket w =>
    simp only [IocpManager.step] at hm
    split at hm
    · rename_i hw
      cases hworker w _ hw
    · cases hm
  | work w wsaError =>
    obtain ⟨worker, hw, hwork⟩ := Option.bind_eq_some_iff.mp hm
    rw [hworker w worker hw] at hwork
    cases hwork
  | exit =>
    cases hm
    exact h.idle rfl rfl rfl rfl rfl
  | stop =>
    cases hm
    unfold IocpManager.stop
    split <;> exact h.idle rfl rfl rfl rfl rfl
  | postWakeUp =>
    simp only [IocpManager.step] at hm
    split at hm
    · cases hm
      exact h.idle rfl rfl (by simp [Packet.inFlight]) rfl rfl
    · cases hm
  | join =>
    simp only [IocpManager.step] at hm
    split at hm
    · cases hm
      exact h.idle rfl rfl rfl rfl rfl
    · cases hm
  | clear =>
    simp only [IocpManager.step] at hm
    split at hm
    · cases hm
      exact h.idle rfl rfl rfl rfl rfl
    · cases hm

structure Inv (s : WriteAudit) : Prop where
  pool : s.manager.PoolInv
  joined : s.manager.stopping = .joined → ∀ worker ∈ s.manager.workers, worker = .exited
  live : s.manager.stopping ≠ .cleared → s.Live
  cleared : s.manager.stopping = .cleared → s.Cleared

theorem Inv.accounts {s : WriteAudit} (h : s.Inv) : s.Accounts := by
  by_cases hcleared : s.manager.stopping = .cleared
  · exact (h.cleared hcleared).accounts
  · exact (h.live hcleared).accounts (h.pool.called hcleared)

theorem inv_started {m : IocpManager} (hinit : IocpManager.machine.init m) :
    (started m).Inv := by
  have hlive := live_started hinit
  obtain ⟨entries, workerThreads, numberOfProcessors, rfl⟩ := hinit
  exact ⟨IocpManager.poolInv_init entries workerThreads numberOfProcessors, fun h => (nomatch h),
    fun _ => hlive, fun h => (nomatch h)⟩

theorem Inv.step {s t : WriteAudit} {a : IocpAct} (h : s.Inv) (hstep : s.step a = some t)
    (hclean : s.Clean a) : t.Inv := by
  obtain ⟨-, m, hm, rfl⟩ := step_cases hstep
  have hphase := IocpManager.step_phase hm
  refine ⟨IocpManager.step_poolInv h.pool hm, fun hjoined => ?_, fun hlive => ?_,
    fun hcleared => ?_⟩
  · cases hphase with
    | kept hrunning hforce hstopping hclear =>
      exact (IocpManager.step_workerStep hm).exited (h.joined (hstopping.symm.trans hjoined))
    | joined hstopping hexited => exact hexited
    | stopped hrunning => cases hjoined
    | posted hstopping => cases hjoined
    | cleared hstopping => cases hjoined
  · have hback : s.manager.stopping ≠ .cleared := fun hcleared =>
      hlive (hphase.cleared_of_cleared h.pool.timely hcleared)
    have hclear : a ≠ .clear := by
      rintro rfl
      cases hphase with
      | kept hrunning hforce hstopping hclear => exact hclear rfl
      | cleared hstopping => exact hlive rfl
    exact (h.live hback).step (h.pool.called hback) (h.pool.conserved hback) hstep hclear hclean
  · by_cases hback : s.manager.stopping = .cleared
    · exact (h.cleared hback).step hstep
    · cases hphase with
      | kept hrunning hforce hstopping hclear => exact absurd (hstopping ▸ hcleared) hback
      | cleared hstopping => exact (h.live hback).cleared (h.pool.called hback) (h.joined hstopping)
      | stopped hrunning => cases hcleared
      | posted hstopping => cases hcleared
      | joined hstopping hexited => cases hcleared

theorem Inv.clean {s t : WriteAudit} {a : IocpAct} (h : s.Inv) (hstep : s.step a = some t)
    (ht : t.Accounts) : s.Clean a := by
  by_cases hcleared : s.manager.stopping = .cleared
  · cases a with
    | work w wsaError =>
      intro worker hworker
      rw [(h.cleared hcleared).exited worker (List.mem_of_getElem? hworker)]
      trivial
    | submitOperation | post | submitCloseRequest | closesocket | putRequest | complete | take
      | noPacket | exit | stop | postWakeUp | join | clear => trivial
  · exact (h.live hcleared).clean (h.pool.called hcleared) hstep ht

/-- In every run, whatever the completions transfer and whichever of them and of the calls of
`WSASend` fail, all write callbacks are told what was transferred if and only if every
completion that was handled was clean. -/
theorem accounts_iff_clean {s : WriteAudit} {as : List IocpAct} (hinit : machine.init s) :
    machine.Every (fun _ _ t => t.Accounts) s as ↔ machine.Every (fun s a _ => s.Clean a) s as := by
  obtain ⟨m, hm, rfl⟩ := hinit
  exact machine.every_iff_every (I := Inv)
    (fun s a t h hstep hclean => ⟨h.step hstep hclean, (h.step hstep hclean).accounts⟩)
    (fun s a t h hstep ht => h.clean hstep ht) (inv_started hm)

def twoHalves : List IocpAct :=
  [.submitOperation .write true 4, .post 0 true, .work 0 none, .complete 0 2 0, .take 0 0,
    .work 0 none, .work 0 none, .complete 0 2 0, .take 0 0, .work 0 none]

theorem accounts_iff_clean_twoHalves :
    machine.Every (fun _ _ t => t.Accounts) (started (.init 1 1 1)) twoHalves :=
  (accounts_iff_clean ⟨_, ⟨1, 1, 1, rfl⟩, rfl⟩).mpr (machine.every_of_check (by decide))

/-- The connection is reset after two bytes of four. -/
def resetAfterHalf : List IocpAct :=
  [.submitOperation .write true 4, .post 0 true, .work 0 none, .complete 0 2 0, .take 0 0,
    .work 0 (some 10054)]

theorem resetAfterHalf_not_accounts :
    ¬ ∀ (s : WriteAudit) (as : List IocpAct), machine.init s →
      machine.Every (fun _ _ t => t.Accounts) s as := by
  intro h
  have hall := h (started (.init 1 1 1)) resetAfterHalf ⟨_, ⟨1, 1, 1, rfl⟩, rfl⟩
  have hrun : machine.run (started (.init 1 1 1)) resetAfterHalf.dropLast = some _ := rfl
  have hlast : Accounts _ := machine.every_at hrun rfl hall
  -- of four bytes two were transferred, and four are reported
  have htotals := hlast.totals ⟨0, 4, 10054⟩ (by decide) 4 rfl (by decide)
  exact absurd htotals.1 (by decide)

end WriteAudit

end Lmnet.Windows
