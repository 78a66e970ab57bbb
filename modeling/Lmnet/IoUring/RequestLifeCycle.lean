import Lmnet.IoUring.Manager
import Lmnet.Lib.Machine

/-!
`SubmitOperation` from any number of threads against the worker loop `Run`. An
operation is numbered by its `SubmitOperation` call, and the number stands for
the operation's callback. A step is one critical section, one callback or one
move of the kernel.
-/

set_option autoImplicit false

namespace Lmnet.IoUring

/-- Where a `SubmitOperation` call stands; `r` is the request it has got. -/
inductive Stage where
  | begun (type : RequestType) (fd : Fd)
  | checked (type : RequestType) (fd : Fd)
  | rejecting (error : Int)
  | cleared (type : RequestType) (fd : Fd) (r : Nat)
  | prepared (r : Nat)
  | failed (r : Nat) (error : Int)
  | putting (r : Nat)
  | returned (accepted : Bool)
  deriving DecidableEq, Repr

def Stage.holds (r : Nat) : Stage → Bool
  | .cleared _ _ r' => r' == r
  | .prepared r' => r' == r
  | .failed r' _ => r' == r
  | .putting r' => r' == r
  | _ => false

def Stage.pending : Stage → Bool
  | .begun .. => true
  | .checked .. => true
  | .rejecting _ => true
  | .cleared .. => true
  | .prepared _ => true
  | .failed .. => true
  | _ => false

/-- Where `Run` stands: waiting, in `HandleCompletion`, or before `PutRequest`. -/
inductive Worker where
  | waiting
  | handling (cqe : Sqe Nat × Int)
  | putting (r : Nat)
  deriving DecidableEq, Repr

def Worker.holds (r : Nat) : Worker → Bool
  | .waiting => false
  | .handling cqe => cqe.1.userData == r
  | .putting r' => r' == r

def Worker.pending (i : Nat) : Worker → Bool
  | .handling cqe => cqe.1.op == i
  | _ => false

structure Invocation where
  callback : Nat
  operation : Nat
  result : Int
  deriving DecidableEq, Repr

structure LifeCycle where
  manager : Manager Nat
  cq : List (Sqe Nat × Int)
  worker : Worker
  calls : List Stage
  invoked : List Invocation
  deriving DecidableEq, Repr

inductive LifeAct where
  | submitOperation (type : RequestType) (fd : Fd)
  | check (i : Nat)
  | getRequest (i : Nat)
  | reject (i : Nat)
  | initRequest (i : Nat)
  | ring (i : Nat) (o : RingOutcome)
  | completeWithError (i : Nat)
  | putRequest (i : Nat)
  | complete (k : Nat) (result : Int)
  | waitCqe
  | handleCompletion
  | workerPut
  deriving DecidableEq, Repr

def LifeAct.call : LifeAct → Option Nat
  | .check i | .getRequest i | .reject i | .initRequest i | .ring i _ | .completeWithError i
  | .putRequest i => some i
  | .submitOperation _ _ | .complete _ _ | .waitCqe | .handleCompletion | .workerPut => none

namespace LifeCycle

def created (entries : Nat) : LifeCycle where
  manager := .init entries
  cq := []
  worker := .waiting
  calls := []
  invoked := []

def setCall (s : LifeCycle) (i : Nat) (c : Stage) : LifeCycle := { s with calls := s.calls.set i c }

/-- A call of the callback stored in request `r`, if it has one. -/
def invoke (s : LifeCycle) (r operation : Nat) (result : Int) : LifeCycle :=
  { s with invoked := s.invoked ++
      ((s.manager.callbackAt r).map fun c => Invocation.mk c operation result).toList }

/-- The look at `isRunning_` and at `ringInitialized_`, which is set whenever the other is. -/
def check (s : LifeCycle) (i : Nat) : Option LifeCycle :=
  match s.calls[i]? with
  | some (.begun type fd) =>
    some (s.setCall i (if s.manager.isRunning then .checked type fd else .rejecting (-ESHUTDOWN)))
  | _ => none

def getRequest (s : LifeCycle) (i : Nat) : Option LifeCycle :=
  match s.calls[i]? with
  | some (.checked type fd) =>
    match s.manager.getRequest with
    | none => some (s.setCall i (.rejecting (-ENOMEM)))
    | some (r, m) => some { s.setCall i (.cleared type fd r) with manager := m }
  | _ => none

/-- The callback of the temporary request, which is the operation's own. -/
def reject (s : LifeCycle) (i : Nat) : Option LifeCycle :=
  match s.calls[i]? with
  | some (.rejecting error) =>
    some { s.setCall i (.returned false) with invoked := s.invoked ++ [⟨i, i, error⟩] }
  | _ => none

def initRequest (s : LifeCycle) (i : Nat) : Option LifeCycle :=
  match s.calls[i]? with
  | some (.cleared type fd r) =>
    some { s.setCall i (.prepared r) with manager := s.manager.initRequest r type fd i }
  | _ => none

def ring (s : LifeCycle) (i : Nat) (o : RingOutcome) : Option LifeCycle :=
  match s.calls[i]? with
  | some (.prepared r) =>
    some { s.setCall i (if 0 ≤ o.result then .returned true else .failed r o.result) with
      manager := s.manager.ring r i o }
  | _ => none

def completeWithError (s : LifeCycle) (i : Nat) : Option LifeCycle :=
  match s.calls[i]? with
  | some (.failed r error) => some ((s.invoke r i error).setCall i (.putting r))
  | _ => none

def putRequest (s : LifeCycle) (i : Nat) : Option LifeCycle :=
  match s.calls[i]? with
  | some (.putting r) =>
    some { s.setCall i (.returned false) with manager := s.manager.putRequest r }
  | _ => none

def complete (s : LifeCycle) (k : Nat) (result : Int) : Option LifeCycle :=
  match s.manager.complete k with
  | some (q, m) => some { s with manager := m, cq := s.cq ++ [(q, result)] }
  | none => none

def waitCqe (s : LifeCycle) : Option LifeCycle :=
  match s.worker, s.cq with
  | .waiting, cqe :: rest => some { s with worker := .handling cqe, cq := rest }
  | _, _ => none

def handleCompletion (s : LifeCycle) : Option LifeCycle :=
  match s.worker with
  | .handling (q, result) =>
    some { s.invoke q.userData q.op result with worker := .putting q.userData }
  | _ => none

def workerPut (s : LifeCycle) : Option LifeCycle :=
  match s.worker with
  | .putting r => some { s with manager := s.manager.putRequest r, worker := .waiting }
  | _ => none

def step (s : LifeCycle) : LifeAct → Option LifeCycle
  | .submitOperation type fd => some { s with calls := s.calls ++ [.begun type fd] }
  | .check i => s.check i
  | .getRequest i => s.getRequest i
  | .reject i => s.reject i
  | .initRequest i => s.initRequest i
  | .ring i o => s.ring i o
  | .completeWithError i => s.completeWithError i
  | .putRequest i => s.putRequest i
  | .complete k result => s.complete k result
  | .waitCqe => s.waitCqe
  | .handleCompletion => s.handleCompletion
  | .workerPut => s.workerPut

def machine : Machine LifeCycle LifeAct where
  init s := ∃ entries, s = created entries
  step := step

/-- In how many places a request is: free, held by a call, referred to by an
entry of the ring or of the kernel, or with the worker. -/
def places (s : LifeCycle) (r : Nat) : Nat :=
  s.manager.references r + s.calls.countP (·.holds r) + s.cq.countP (·.1.userData == r) +
    (s.worker.holds r).toNat

/-- How often the callback of operation `i` is still to come or has come. -/
def accounts (s : LifeCycle) (i : Nat) : Nat :=
  (s.calls[i]?.any Stage.pending).toNat + s.manager.prepared.countP (·.op == i) +
    s.manager.inflight.countP (·.op == i) + s.cq.countP (·.1.op == i) +
    (s.worker.pending i).toNat + s.invoked.countP (·.callback == i)

/-- Every request of the pool is in exactly one place, the callback of every
operation comes exactly once, and with the operation's own result. -/
structure Owned (s : LifeCycle) : Prop where
  places : ∀ r < s.manager.requestPool.length, s.places r = 1
  accounts : ∀ i < s.calls.length, s.accounts i = 1
  results : ∀ v ∈ s.invoked, v.callback = v.operation

/-- What `SubmitOperation` asks of the ring on its way is granted. -/
def SubmitSucceeds : LifeAct → Prop
  | .ring _ o => o.Succeeds
  | _ => True

/-! ### Requests change places -/

theorem holds_setCall {s : LifeCycle} {i r : Nat} {b c : Stage} (hi : s.calls[i]? = some b) :
    (s.calls.set i c).countP (·.holds r) + (b.holds r).toNat =
      s.calls.countP (·.holds r) + (c.holds r).toNat :=
  List.countP_set_add hi

theorem places_setCall {s s' : LifeCycle} {i r : Nat} {b c : Stage}
    (hi : s.calls[i]? = some b) (hcalls : s'.calls = s.calls.set i c)
    (hm : s'.manager.references r + (c.holds r).toNat =
      s.manager.references r + (b.holds r).toNat)
    (hcq : s'.cq = s.cq) (hworker : s'.worker = s.worker) : s'.places r = s.places r := by
  have hset := holds_setCall (r := r) (c := c) hi
  simp only [places, hcalls, hcq, hworker]
  omega

theorem check_cases {s s' : LifeCycle} {i : Nat} (h : s.check i = some s') :
    ∃ type fd, s.calls[i]? = some (.begun type fd) ∧
      s' = s.setCall i (if s.manager.isRunning then .checked type fd
        else .rejecting (-ESHUTDOWN)) := by
  unfold check at h
  split at h
  · cases h
    exact ⟨_, _, ‹_›, rfl⟩
  · cases h

theorem check_places {s s' : LifeCycle} {i : Nat} (h : s.check i = some s') (r : Nat) :
    s'.places r = s.places r := by
  obtain ⟨type, fd, hi, rfl⟩ := check_cases h
  refine places_setCall hi rfl ?_ rfl rfl
  split <;> rfl

theorem getRequest_places {s s' : LifeCycle} {i : Nat} (h : s.getRequest i = some s') (r : Nat) :
    s'.places r = s.places r := by
  unfold getRequest at h
  split at h
  · rename_i type fd hi
    split at h
    · cases h
      exact places_setCall hi rfl rfl rfl rfl
    · rename_i r' m hget
      cases h
      exact places_setCall hi rfl (Manager.references_getRequest hget r) rfl rfl
  · cases h

theorem reject_places {s s' : LifeCycle} {i : Nat} (h : s.reject i = some s') (r : Nat) :
    s'.places r = s.places r := by
  unfold reject at h
  split at h
  · rename_i error hi
    cases h
    exact places_setCall hi rfl rfl rfl rfl
  · cases h

theorem initRequest_places {s s' : LifeCycle} {i : Nat} (h : s.initRequest i = some s')
    (r : Nat) : s'.places r = s.places r := by
  unfold initRequest at h
  split at h
  · rename_i type fd r' hi
    cases h
    exact places_setCall hi rfl rfl rfl rfl
  · cases h

theorem ring_cases {s s' : LifeCycle} {i : Nat} {o : RingOutcome} (h : s.ring i o = some s') :
    ∃ r, s.calls[i]? = some (.prepared r) ∧
      s' = { s.setCall i (if 0 ≤ o.result then .returned true else .failed r o.result) with
        manager := s.manager.ring r i o } := by
  unfold ring at h
  split at h
  · cases h
    exact ⟨_, ‹_›, rfl⟩
  · cases h

theorem ring_places {s s' : LifeCycle} {i : Nat} {o : RingOutcome} (h : s.ring i o = some s')
    (ho : o.Succeeds) (x : Nat) : s'.places x = s.places x := by
  obtain ⟨r, hi, rfl⟩ := ring_cases h
  cases o with
  | noSqe => exact places_setCall hi rfl rfl rfl rfl
  | submit ret =>
    have hret : 0 ≤ ret := ho
    refine places_setCall (c := .returned true) hi ?_ (s.manager.references_ring r i ret x) rfl rfl
    simp [RingOutcome.result, hret, setCall]

theorem ring_places_error {s s' : LifeCycle} {i r : Nat} {ret : Int}
    (hi : s.calls[i]? = some (.prepared r)) (h : s.ring i (.submit ret) = some s')
    (hret : ¬ 0 ≤ ret) : s'.places r = s.places r + 1 := by
  obtain ⟨r', hi', rfl⟩ := ring_cases h
  rw [hi] at hi'
  cases hi'
  have hset : (s.calls.set i (.failed r ret)).countP (·.holds r) + (r == r).toNat =
      s.calls.countP (·.holds r) + (r == r).toNat := holds_setCall hi
  have href := s.manager.references_ring r i ret r
  simp only [beq_self_eq_true, Bool.toNat_true] at href hset
  simp only [places, setCall, RingOutcome.result, hret, if_false, href]
  omega

theorem completeWithError_places {s s' : LifeCycle} {i : Nat}
    (h : s.completeWithError i = some s') (r : Nat) : s'.places r = s.places r := by
  unfold completeWithError at h
  split at h
  · rename_i r' error hi
    cases h
    exact places_setCall hi rfl rfl rfl rfl
  · cases h

theorem putRequest_places {s s' : LifeCycle} {i : Nat} (h : s.putRequest i = some s')
    (r : Nat) : s'.places r = s.places r := by
  unfold putRequest at h
  split at h
  · rename_i r' hi
    cases h
    exact places_setCall hi rfl (s.manager.references_putRequest r' r) rfl rfl
  · cases h

theorem complete_places {s s' : LifeCycle} {k : Nat} {result : Int}
    (h : s.complete k result = some s') (r : Nat) : s'.places r = s.places r := by
  unfold complete at h
  split at h
  · rename_i q m hq
    cases h
    have href := Manager.references_complete hq r
    simp only [places, List.countP_append, List.countP_singleton]
    cases hx : q.userData == r <;> simp [hx] at href ⊢
    · omega
    · omega
  · cases h

theorem waitCqe_places {s s' : LifeCycle} (h : s.waitCqe = some s') (r : Nat) :
    s'.places r = s.places r := by
  unfold waitCqe at h
  split at h
  · rename_i cqe rest hw hcq
    cases h
    simp only [places, hw, hcq, Worker.holds, List.countP_cons]
    cases cqe.1.userData == r <;> simp
    omega
  · cases h

theorem handleCompletion_places {s s' : LifeCycle} (h : s.handleCompletion = some s')
    (r : Nat) : s'.places r = s.places r := by
  unfold handleCompletion at h
  split at h
  · rename_i q result hw
    cases h
    simp [places, hw, Worker.holds, invoke]
  · cases h

theorem workerPut_places {s s' : LifeCycle} (h : s.workerPut = some s') (r : Nat) :
    s'.places r = s.places r := by
  unfold workerPut at h
  split at h
  · rename_i r' hw
    cases h
    simp only [places, hw, Worker.holds, s.manager.references_putRequest r' r, Bool.toNat_false]
    omega
  · cases h

/-! ### Operations are accounted for -/

/-- Request `r` stands for operation `i`, and whoever completes it goes by that. -/
inductive Bound (s : LifeCycle) (r i : Nat) : Prop where
  | prepared : s.calls[i]? = some (.prepared r) → Bound s r i
  | failed (error : Int) : s.calls[i]? = some (.failed r error) → Bound s r i
  | inflight : ⟨r, i⟩ ∈ s.manager.inflight → Bound s r i
  | posted (result : Int) : (⟨r, i⟩, result) ∈ s.cq → Bound s r i
  | handling (result : Int) : s.worker = .handling (⟨r, i⟩, result) → Bound s r i

structure Sound (s : LifeCycle) : Prop where
  places : ∀ r, s.places r = if r < s.manager.requestPool.length then 1 else 0
  prepared : s.manager.prepared = []
  bound : ∀ r i, s.Bound r i → s.manager.callbackAt r = some i
  accounts : ∀ i, s.accounts i = if i < s.calls.length then 1 else 0
  results : ∀ v ∈ s.invoked, v.callback = v.operation

theorem Sound.owned {s : LifeCycle} (h : s.Sound) : s.Owned := by
  refine ⟨fun r hr => ?_, fun i hi => ?_, h.results⟩
  · rw [h.places r, if_pos hr]
  · rw [h.accounts i, if_pos hi]

theorem sound_created (entries : Nat) : (created entries).Sound := by
  refine ⟨fun r => ?_, rfl, fun r i hb => ?_, fun i => ?_, fun v hv => ?_⟩
  · have href : (created entries).places r = (Manager.init entries : Manager Nat).references r := by
      simp [places, created, Worker.holds]
    rw [href, Manager.references_init]
    simp [created, Manager.init]
  · cases hb <;> simp_all [created, Manager.init]
  · simp [accounts, created, Manager.init, Worker.pending]
  · cases hv

theorem Bound.known {s : LifeCycle} {r i : Nat} (h : s.Bound r i) :
    (∃ c, s.calls[i]? = some c ∧ c.holds r = true ∧ ∀ type fd r', c ≠ .cleared type fd r') ∨
      0 < s.manager.inflight.countP (·.userData == r) + s.cq.countP (·.1.userData == r) +
        (s.worker.holds r).toNat := by
  cases h with
  | prepared hi => exact .inl ⟨_, hi, by simp [Stage.holds], by simp⟩
  | failed error hi => exact .inl ⟨_, hi, by simp [Stage.holds], by simp⟩
  | inflight hm =>
    have hpos : 0 < s.manager.inflight.countP (·.userData == r) :=
      List.countP_pos_iff.mpr ⟨_, hm, by simp⟩
    right
    omega
  | posted result hm =>
    have hpos : 0 < s.cq.countP (·.1.userData == r) := List.countP_pos_iff.mpr ⟨_, hm, by simp⟩
    right
    omega
  | handling result hw =>
    have hpos : s.worker.holds r = true := by simp [hw, Worker.holds]
    simp only [hpos, Bool.toNat_true]
    right
    omega

theorem Bound.places {s : LifeCycle} {r i : Nat} (h : s.Bound r i) :
    s.manager.freeRequests.count r + 1 ≤ s.places r := by
  simp only [LifeCycle.places, Manager.references]
  rcases h.known with ⟨c, hi, hc, -⟩ | hpos
  · have hcalls := List.countP_pos_of_getElem? (p := fun c : Stage => c.holds r) hi hc
    omega
  · omega

theorem Sound.not_bound {s : LifeCycle} {i j r : Nat} {type : RequestType} {fd : Fd}
    (h : s.Sound) (hi : s.calls[i]? = some (.cleared type fd r)) : ¬ s.Bound r j := by
  intro hb
  have hcleared : (Stage.cleared type fd r).holds r = true := by simp [Stage.holds]
  have hcalls := List.countP_pos_of_getElem? (p := fun c : Stage => c.holds r) hi hcleared
  have hle : s.places r ≤ 1 := by
    rw [h.places r]
    split <;> omega
  simp only [LifeCycle.places, Manager.references] at hle
  rcases hb.known with ⟨c, hj, hc, hne⟩ | hpos
  · have hij : j ≠ i := by
      rintro rfl
      rw [hi, Option.some.injEq] at hj
      exact hne type fd r hj.symm
    have htwo := List.two_le_countP (p := fun c : Stage => c.holds r) hi hj hij hcleared hc
    omega
  · omega

theorem pending_setCall {s : LifeCycle} {i j : Nat} {b c : Stage} (hi : s.calls[i]? = some b) :
    ((s.calls.set i c)[j]?.any Stage.pending).toNat + (i == j && b.pending).toNat =
      (s.calls[j]?.any Stage.pending).toNat + (i == j && c.pending).toNat := by
  by_cases hij : i = j
  · subst hij
    obtain ⟨hlt, -⟩ := List.getElem?_eq_some_iff.mp hi
    rw [List.getElem?_set_self hlt, hi]
    simp only [Option.any_some, beq_self_eq_true, Bool.true_and]
    omega
  · have hbeq : (i == j) = false := by simpa using hij
    simp [List.getElem?_set_ne hij, hbeq]

theorem accounts_setCall {s s' : LifeCycle} {i j : Nat} {b c : Stage}
    (hi : s.calls[i]? = some b) (hcalls : s'.calls = s.calls.set i c)
    (hm : s'.manager.prepared.countP (·.op == j) + s'.manager.inflight.countP (·.op == j) +
        s'.invoked.countP (·.callback == j) + (i == j && c.pending).toNat =
      s.manager.prepared.countP (·.op == j) + s.manager.inflight.countP (·.op == j) +
        s.invoked.countP (·.callback == j) + (i == j && b.pending).toNat)
    (hcq : s'.cq = s.cq) (hworker : s'.worker = s.worker) : s'.accounts j = s.accounts j := by
  have hset := pending_setCall (j := j) (c := c) hi
  simp only [accounts, hcalls, hcq, hworker]
  omega

theorem check_accounts {s s' : LifeCycle} {i : Nat} (h : s.check i = some s') (j : Nat) :
    s'.accounts j = s.accounts j := by
  obtain ⟨type, fd, hi, rfl⟩ := check_cases h
  refine accounts_setCall hi rfl ?_ rfl rfl
  split <;> rfl

theorem getRequest_accounts {s s' : LifeCycle} {i : Nat} (h : s.getRequest i = some s')
    (j : Nat) : s'.accounts j = s.accounts j := by
  unfold getRequest at h
  split at h
  · rename_i type fd hi
    split at h
    · cases h
      exact accounts_setCall hi rfl rfl rfl rfl
    · rename_i r m hget
      cases h
      obtain ⟨rest, -, rfl⟩ := Manager.getRequest_eq_some hget
      exact accounts_setCall hi rfl rfl rfl rfl
  · cases h

theorem reject_accounts {s s' : LifeCycle} {i : Nat} (h : s.reject i = some s') (j : Nat) :
    s'.accounts j = s.accounts j := by
  unfold reject at h
  split at h
  · rename_i error hi
    cases h
    refine accounts_setCall hi rfl ?_ rfl rfl
    simp only [setCall, Stage.pending, List.countP_append, List.countP_singleton]
    cases i == j <;> simp
    omega
  · cases h

theorem initRequest_accounts {s s' : LifeCycle} {i : Nat} (h : s.initRequest i = some s')
    (j : Nat) : s'.accounts j = s.accounts j := by
  unfold initRequest at h
  split at h
  · rename_i type fd r hi
    cases h
    exact accounts_setCall hi rfl rfl rfl rfl
  · cases h

theorem ring_accounts {s s' : LifeCycle} {i j : Nat} {o : RingOutcome} (h : s.ring i o = some s')
    (ho : i = j → o.Succeeds) : s'.accounts j = s.accounts j := by
  obtain ⟨r, hi, rfl⟩ := ring_cases h
  cases o with
  | noSqe => exact accounts_setCall hi rfl rfl rfl rfl
  | submit ret =>
    by_cases hret : 0 ≤ ret
    · refine accounts_setCall (c := .returned true) hi ?_ ?_ rfl rfl
      · simp [RingOutcome.result, hret, setCall]
      · simp only [Manager.ring, hret, if_true, setCall, Stage.pending, List.countP_append,
          List.countP_singleton, List.countP_nil]
        cases i == j <;> simp <;> omega
    · have hij : (i == j) = false := by simpa using fun he => hret (ho he)
      refine accounts_setCall (c := .failed r ret) hi ?_ ?_ rfl rfl
      · simp [RingOutcome.result, hret, setCall]
      · simp [Manager.ring, hret, setCall, List.countP_append, hij]

theorem countP_invoke (s : LifeCycle) (r operation : Nat) (result : Int) (j : Nat) :
    (s.invoke r operation result).invoked.countP (·.callback == j) =
      s.invoked.countP (·.callback == j) + (s.manager.callbackAt r == some j).toNat := by
  cases hcallback : s.manager.callbackAt r with
  | none => simp [invoke, hcallback]
  | some c => cases hc : c == j <;> simp_all [invoke, List.countP_append]

theorem completeWithError_cases {s s' : LifeCycle} {i : Nat}
    (h : s.completeWithError i = some s') :
    ∃ r error, s.calls[i]? = some (.failed r error) ∧
      s' = (s.invoke r i error).setCall i (.putting r) := by
  unfold completeWithError at h
  split at h
  · cases h
    exact ⟨_, _, ‹_›, rfl⟩
  · cases h

theorem completeWithError_accounts {s s' : LifeCycle} {i j : Nat}
    (h : s.completeWithError i = some s')
    (hown : ∀ r error, s.calls[i]? = some (.failed r error) →
      (s.manager.callbackAt r = some j ↔ i = j)) : s'.accounts j = s.accounts j := by
  obtain ⟨r, error, hi, rfl⟩ := completeWithError_cases h
  refine accounts_setCall hi rfl ?_ rfl rfl
  have hcallback : (s.manager.callbackAt r == some j) = (i == j) := by
    rw [Bool.eq_iff_iff, beq_iff_eq, beq_iff_eq]
    exact hown r error hi
  simp only [setCall, countP_invoke, hcallback, Stage.pending, Bool.and_true, Bool.and_false,
    Bool.toNat_false]
  simp only [invoke]
  omega

theorem putRequest_accounts {s s' : LifeCycle} {i : Nat} (h : s.putRequest i = some s')
    (j : Nat) : s'.accounts j = s.accounts j := by
  unfold putRequest at h
  split at h
  · rename_i r hi
    cases h
    exact accounts_setCall hi rfl rfl rfl rfl
  · cases h

theorem complete_accounts {s s' : LifeCycle} {k : Nat} {result : Int}
    (h : s.complete k result = some s') (j : Nat) : s'.accounts j = s.accounts j := by
  unfold complete at h
  split at h
  · rename_i q m hq
    cases h
    obtain ⟨q', hq', heq⟩ := Option.map_eq_some_iff.mp hq
    cases heq
    have hcount := List.countP_eraseIdx_add (p := fun s : Sqe Nat => s.op == j) hq'
    simp only [accounts, List.countP_append, List.countP_singleton]
    cases hx : q.op == j <;> simp [hx] at hcount ⊢ <;> omega
  · cases h

theorem waitCqe_accounts {s s' : LifeCycle} (h : s.waitCqe = some s') (j : Nat) :
    s'.accounts j = s.accounts j := by
  unfold waitCqe at h
  split at h
  · rename_i cqe rest hw hcq
    cases h
    simp only [accounts, hw, hcq, Worker.pending, List.countP_cons]
    cases cqe.1.op == j <;> simp
    omega
  · cases h

theorem handleCompletion_cases {s s' : LifeCycle} (h : s.handleCompletion = some s') :
    ∃ q result, s.worker = .handling (q, result) ∧
      s' = { s.invoke q.userData q.op result with worker := .putting q.userData } := by
  unfold handleCompletion at h
  split at h
  · cases h
    exact ⟨_, _, ‹_›, rfl⟩
  · cases h

theorem handleCompletion_accounts {s s' : LifeCycle} {j : Nat} (h : s.handleCompletion = some s')
    (hown : ∀ q result, s.worker = .handling (q, result) →
      (s.manager.callbackAt q.userData = some j ↔ q.op = j)) : s'.accounts j = s.accounts j := by
  obtain ⟨q, result, hw, rfl⟩ := handleCompletion_cases h
  have hcallback : (s.manager.callbackAt q.userData == some j) = (q.op == j) := by
    rw [Bool.eq_iff_iff, beq_iff_eq, beq_iff_eq]
    exact hown q result hw
  simp only [accounts, countP_invoke, hcallback, hw, Worker.pending, Bool.toNat_false]
  simp only [invoke]
  omega

theorem workerPut_accounts {s s' : LifeCycle} (h : s.workerPut = some s') (j : Nat) :
    s'.accounts j = s.accounts j := by
  unfold workerPut at h
  split at h
  · rename_i r hw
    cases h
    simp [accounts, hw, Worker.pending, Manager.putRequest]
  · cases h

/-! ### The invariant -/

theorem Bound.of_parts {s s' : LifeCycle} {j r : Nat} (h : s'.Bound r j)
    (hcall : ∀ c, s'.calls[j]? = some c → (c = .prepared r ∨ ∃ e, c = .failed r e) → s.Bound r j)
    (hin : ⟨r, j⟩ ∈ s'.manager.inflight → s.Bound r j)
    (hcq : ∀ result, (⟨r, j⟩, result) ∈ s'.cq → s.Bound r j)
    (hworker : ∀ result, s'.worker = .handling (⟨r, j⟩, result) → s.Bound r j) : s.Bound r j := by
  cases h with
  | prepared hj => exact hcall _ hj (.inl rfl)
  | failed e hj => exact hcall _ hj (.inr ⟨e, rfl⟩)
  | inflight hm => exact hin hm
  | posted result hm => exact hcq result hm
  | handling result hw => exact hworker result hw

theorem Bound.of_call {s : LifeCycle} {j r : Nat} {c : Stage} (hj : s.calls[j]? = some c)
    (hc : c = .prepared r ∨ ∃ e, c = .failed r e) : s.Bound r j := by
  rcases hc with rfl | ⟨e, rfl⟩
  · exact .prepared hj
  · exact .failed e hj

theorem Bound.of_setCall {s s' : LifeCycle} {i j r : Nat} {c : Stage} (h : s'.Bound r j)
    (hcalls : s'.calls = s.calls.set i c)
    (hnew : i = j → (c = .prepared r ∨ ∃ e, c = .failed r e) → s.Bound r j)
    (hin : ⟨r, j⟩ ∈ s'.manager.inflight → s.Bound r j)
    (hcq : s'.cq = s.cq) (hworker : s'.worker = s.worker) : s.Bound r j := by
  refine h.of_parts (fun b hb hkind => ?_) hin (fun result hm => .posted result (hcq ▸ hm))
    (fun result hw => .handling result (hworker ▸ hw))
  rw [hcalls] at hb
  rcases List.getElem?_set_some hb with ⟨hij, rfl⟩ | ⟨-, hj⟩
  · exact hnew hij hkind
  · exact .of_call hj hkind

theorem Bound.of_worker {s s' : LifeCycle} {j r : Nat} (h : s'.Bound r j)
    (hcalls : s'.calls = s.calls) (hin : ⟨r, j⟩ ∈ s'.manager.inflight → s.Bound r j)
    (hcq : ∀ result, (⟨r, j⟩, result) ∈ s'.cq → s.Bound r j)
    (hworker : ∀ result, s'.worker = .handling (⟨r, j⟩, result) → s.Bound r j) : s.Bound r j :=
  h.of_parts (fun _ hj hkind => .of_call (hcalls ▸ hj) hkind) hin hcq hworker

theorem Sound.results_invoke {s : LifeCycle} {r i : Nat} (hs : s.Sound) (hb : s.Bound r i)
    (result : Int) : ∀ v ∈ (s.invoke r i result).invoked, v.callback = v.operation := by
  intro v hv
  simp only [invoke, hs.bound r i hb, Option.map_some, Option.toList_some] at hv
  rcases List.mem_append.mp hv with hv | hv
  · exact hs.results v hv
  · rw [List.mem_singleton.mp hv]

theorem Sound.next {s s' : LifeCycle} (hs : s.Sound) (hplaces : ∀ r, s'.places r = s.places r)
    (haccounts : ∀ j, s'.accounts j = s.accounts j)
    (hpool : s'.manager.requestPool = s.manager.requestPool)
    (hcalls : s'.calls.length = s.calls.length) (hprepared : s'.manager.prepared = [])
    (hbound : ∀ r i, s'.Bound r i → s.Bound r i)
    (hresults : ∀ v ∈ s'.invoked, v.callback = v.operation) : s'.Sound := by
  refine ⟨fun r => ?_, hprepared, fun r i hb => ?_, fun j => ?_, hresults⟩
  · rw [hplaces r, hpool]
    exact hs.places r
  · rw [Manager.callbackAt, hpool]
    exact hs.bound r i (hbound r i hb)
  · rw [haccounts j, hcalls]
    exact hs.accounts j

theorem check_sound {s s' : LifeCycle} {i : Nat} (hs : s.Sound) (h : s.check i = some s') :
    s'.Sound := by
  have hplaces := check_places h
  have haccounts := check_accounts h
  obtain ⟨type, fd, hi, rfl⟩ := check_cases h
  refine hs.next hplaces haccounts rfl (by simp [setCall]) hs.prepared (fun r j hb => ?_) hs.results
  refine hb.of_setCall rfl (fun _ hkind => ?_) (fun hm => .inflight hm) rfl rfl
  split at hkind <;> simp at hkind

theorem getRequest_sound {s s' : LifeCycle} {i : Nat} (hs : s.Sound)
    (h : s.getRequest i = some s') : s'.Sound := by
  have hplaces := getRequest_places h
  have haccounts := getRequest_accounts h
  unfold getRequest at h
  split at h
  · rename_i type fd hi
    split at h
    · cases h
      exact hs.next hplaces haccounts rfl (by simp [setCall]) hs.prepared
        (fun r j hb => hb.of_setCall rfl (by simp) (fun hm => .inflight hm) rfl rfl) hs.results
    · rename_i r m hget
      cases h
      obtain ⟨rest, hfree, rfl⟩ := Manager.getRequest_eq_some hget
      refine ⟨fun x => ?_, hs.prepared, fun x j hb => ?_, fun j => ?_, hs.results⟩
      · simpa using (hplaces x).trans (hs.places x)
      · have hb' : s.Bound x j := hb.of_setCall rfl (by simp) (fun hm => .inflight hm) rfl rfl
        have hne : r ≠ x := by
          rintro rfl
          have hle := hb'.places
          rw [hs.places r, hfree, List.count_cons_self] at hle
          split at hle <;> omega
        exact (s.manager.callbackAt_set_ne .cleared hne).trans (hs.bound x j hb')
      · simpa [setCall] using (haccounts j).trans (hs.accounts j)
  · cases h

theorem reject_sound {s s' : LifeCycle} {i : Nat} (hs : s.Sound) (h : s.reject i = some s') :
    s'.Sound := by
  have hplaces := reject_places h
  have haccounts := reject_accounts h
  unfold reject at h
  split at h
  · cases h
    refine hs.next hplaces haccounts rfl (by simp [setCall]) hs.prepared
      (fun r j hb => hb.of_setCall rfl (by simp) (fun hm => .inflight hm) rfl rfl) fun v hv => ?_
    rcases List.mem_append.mp hv with hv | hv
    · exact hs.results v hv
    · rw [List.mem_singleton.mp hv]
  · cases h

theorem initRequest_sound {s s' : LifeCycle} {i : Nat} (hs : s.Sound)
    (h : s.initRequest i = some s') : s'.Sound := by
  have hplaces := initRequest_places h
  have haccounts := initRequest_accounts h
  unfold initRequest at h
  split at h
  · rename_i type fd r hi
    cases h
    have hlt : r < s.manager.requestPool.length := by
      by_contra hge
      have hpos := List.countP_pos_of_getElem? (p := fun c : Stage => c.holds r) hi
        (by simp [Stage.holds])
      have hzero := hs.places r
      rw [if_neg hge] at hzero
      simp only [LifeCycle.places] at hzero
      omega
    refine ⟨fun x => ?_, hs.prepared, fun x j hb => ?_, fun j => ?_, hs.results⟩
    · simpa [Manager.initRequest] using (hplaces x).trans (hs.places x)
    · by_cases hx : r = x
      · subst hx
        have hji : j = i := by
          by_contra hne
          have hb' : s.Bound r j := hb.of_setCall rfl (fun hij => absurd hij.symm hne)
            (fun hm => .inflight hm) rfl rfl
          exact hs.not_bound hi hb'
        subst hji
        exact s.manager.callbackAt_initRequest type fd j hlt
      · have hb' : s.Bound x j := hb.of_setCall rfl (by simp [hx]) (fun hm => .inflight hm) rfl rfl
        exact (s.manager.callbackAt_set_ne _ hx).trans (hs.bound x j hb')
    · simpa [setCall] using (haccounts j).trans (hs.accounts j)
  · cases h

theorem ring_sound {s s' : LifeCycle} {i : Nat} {o : RingOutcome} (hs : s.Sound)
    (ho : o.Succeeds) (h : s.ring i o = some s') : s'.Sound := by
  have hplaces := ring_places h ho
  have haccounts := fun j => ring_accounts (j := j) h fun _ => ho
  obtain ⟨r, hi, rfl⟩ := ring_cases h
  cases o with
  | noSqe =>
    refine hs.next hplaces haccounts rfl (by simp [setCall]) hs.prepared (fun x j hb => ?_)
      hs.results
    -- the call still holds the request whose entry it did not get
    refine hb.of_setCall rfl (fun hij hkind => ?_) (fun hm => .inflight hm) rfl rfl
    rcases hkind with he | ⟨e, he⟩
    · cases he
    · cases hij
      cases he
      exact .prepared hi
  | submit ret =>
    have hret : 0 ≤ ret := ho
    have hm : s.manager.ring r i (.submit ret) =
        { s.manager with inflight := s.manager.inflight ++ [⟨r, i⟩] } := by
      simp [Manager.ring, hret, hs.prepared]
    rw [hm] at hplaces haccounts ⊢
    refine hs.next hplaces haccounts rfl (by simp [setCall]) hs.prepared (fun x j hb => ?_)
      hs.results
    refine hb.of_setCall rfl (by simp [RingOutcome.result, hret]) (fun hin => ?_) rfl rfl
    rcases List.mem_append.mp hin with hin | hin
    · exact .inflight hin
    · cases List.mem_singleton.mp hin
      exact .prepared hi

theorem completeWithError_sound {s s' : LifeCycle} {i : Nat} (hs : s.Sound)
    (h : s.completeWithError i = some s') : s'.Sound := by
  have hplaces := completeWithError_places h
  have haccounts := fun j => completeWithError_accounts (j := j) h fun r error hi => by
    rw [hs.bound r i (.failed error hi), Option.some.injEq]
  unfold completeWithError at h
  split at h
  · rename_i r error hi
    cases h
    exact hs.next hplaces haccounts rfl (by simp [setCall, invoke]) hs.prepared
      (fun x j hb => hb.of_setCall rfl (by simp) (fun hm => .inflight hm) rfl rfl)
      (hs.results_invoke (.failed error hi) error)
  · cases h

theorem putRequest_sound {s s' : LifeCycle} {i : Nat} (hs : s.Sound)
    (h : s.putRequest i = some s') : s'.Sound := by
  have hplaces := putRequest_places h
  have haccounts := putRequest_accounts h
  unfold putRequest at h
  split at h
  · cases h
    exact hs.next hplaces haccounts rfl (by simp [setCall]) hs.prepared
      (fun x j hb => hb.of_setCall rfl (by simp) (fun hm => .inflight hm) rfl rfl) hs.results
  · cases h

theorem complete_sound {s s' : LifeCycle} {k : Nat} {result : Int} (hs : s.Sound)
    (h : s.complete k result = some s') : s'.Sound := by
  have hplaces := complete_places h
  have haccounts := complete_accounts h
  unfold complete at h
  split at h
  · rename_i q m hq
    cases h
    obtain ⟨q', hq', heq⟩ := Option.map_eq_some_iff.mp hq
    cases heq
    refine hs.next hplaces haccounts rfl rfl hs.prepared (fun x j hb => ?_) hs.results
    refine hb.of_worker rfl (fun hm => .inflight (List.mem_of_mem_eraseIdx hm))
      (fun result' hm => ?_) fun result' hw => .handling result' hw
    rcases List.mem_append.mp hm with hm | hm
    · exact .posted result' hm
    · cases List.mem_singleton.mp hm
      exact .inflight (List.mem_of_getElem? hq')
  · cases h

theorem waitCqe_sound {s s' : LifeCycle} (hs : s.Sound) (h : s.waitCqe = some s') :
    s'.Sound := by
  have hplaces := waitCqe_places h
  have haccounts := waitCqe_accounts h
  unfold waitCqe at h
  split at h
  · rename_i cqe rest hw hcq
    cases h
    refine hs.next hplaces haccounts rfl rfl hs.prepared (fun x j hb => ?_) hs.results
    refine hb.of_worker rfl (fun hm => .inflight hm) (fun result hm => ?_) fun result hw' => ?_
    · exact .posted result (hcq ▸ List.mem_cons_of_mem cqe hm)
    · cases hw'
      exact .posted result (hcq ▸ List.mem_cons_self)
  · cases h

theorem handleCompletion_sound {s s' : LifeCycle} (hs : s.Sound)
    (h : s.handleCompletion = some s') : s'.Sound := by
  have hplaces := handleCompletion_places h
  have haccounts := fun j => handleCompletion_accounts (j := j) h fun q result hw => by
    rw [hs.bound q.userData q.op (.handling result hw), Option.some.injEq]
  unfold handleCompletion at h
  split at h
  · rename_i q result hw
    cases h
    exact hs.next hplaces haccounts rfl rfl hs.prepared
      (fun x j hb => hb.of_worker rfl (fun hm => .inflight hm) (fun _ hm => .posted _ hm) (by simp))
      (hs.results_invoke (.handling result hw) result)
  · cases h

theorem workerPut_sound {s s' : LifeCycle} (hs : s.Sound) (h : s.workerPut = some s') :
    s'.Sound := by
  have hplaces := workerPut_places h
  have haccounts := workerPut_accounts h
  unfold workerPut at h
  split at h
  · cases h
    exact hs.next hplaces haccounts rfl rfl hs.prepared
      (fun x j hb => hb.of_worker rfl (fun hm => .inflight hm) (fun _ hm => .posted _ hm) (by simp))
      hs.results
  · cases h

theorem submitOperation_sound {s : LifeCycle} (type : RequestType) (fd : Fd) (hs : s.Sound) :
    ({ s with calls := s.calls ++ [.begun type fd] } : LifeCycle).Sound := by
  refine ⟨fun r => ?_, hs.prepared, fun r j hb => ?_, fun j => ?_, hs.results⟩
  · simpa [places, Stage.holds] using hs.places r
  · refine hs.bound r j ?_
    refine hb.of_parts (fun c hj hkind => ?_) (fun hm => .inflight hm)
      (fun _ hm => .posted _ hm) fun _ hw => .handling _ hw
    rcases List.getElem?_concat_some hj with hj | ⟨-, rfl⟩
    · exact .of_call hj hkind
    · simp at hkind
  · have hj := hs.accounts j
    simp only [accounts, List.getElem?_append, List.length_append, List.length_singleton] at hj ⊢
    by_cases hlt : j < s.calls.length
    · simp only [hlt, if_true] at hj ⊢
      rw [if_pos (by omega)]
      exact hj
    · simp only [hlt, if_false] at hj ⊢
      rw [List.getElem?_eq_none (by omega)] at hj
      rcases Nat.eq_or_lt_of_not_lt hlt with heq | hgt
      · subst heq
        simp only [Option.any_none, Bool.toNat_false] at hj
        simp [Stage.pending]
        omega
      · rw [List.getElem?_eq_none (by simp; omega), if_neg (by omega)]
        exact hj

theorem step_sound {s s' : LifeCycle} {a : LifeAct} (hs : s.Sound) (hC : SubmitSucceeds a)
    (h : s.step a = some s') : s'.Sound := by
  cases a with
  | submitOperation type fd =>
    cases h
    exact submitOperation_sound type fd hs
  | check i => exact check_sound hs h
  | getRequest i => exact getRequest_sound hs h
  | reject i => exact reject_sound hs h
  | initRequest i => exact initRequest_sound hs h
  | ring i o => exact ring_sound hs hC h
  | completeWithError i => exact completeWithError_sound hs h
  | putRequest i => exact putRequest_sound hs h
  | complete k result => exact complete_sound hs h
  | waitCqe => exact waitCqe_sound hs h
  | handleCompletion => exact handleCompletion_sound hs h
  | workerPut => exact workerPut_sound hs h

/-- A submission that fails leaves its request in two places. -/
theorem submitSucceeds_of_owned {s s' : LifeCycle} {a : LifeAct} (hs : s.Sound)
    (h : s.step a = some s') (hs' : s'.Owned) : SubmitSucceeds a := by
  cases a with
  | ring i o =>
    cases o with
    | noSqe => trivial
    | submit ret =>
      by_contra hret
      have hneg : ¬ 0 ≤ ret := hret
      obtain ⟨r, hi, -⟩ := ring_cases h
      have hmore := ring_places_error hi h hneg
      have hpos := (Bound.prepared hi).places
      have hlt : r < s.manager.requestPool.length := by
        by_contra hge
        rw [hs.places r, if_neg hge] at hpos
        omega
      obtain ⟨r', hi', rfl⟩ := ring_cases h
      have hone := hs'.places r (by simpa [Manager.ring, hneg] using hlt)
      omega
  | _ => trivial

/-- Along every run the requests of the pool are each in one place, and every
callback comes once and with its own operation's result, exactly when no
`io_uring_submit` fails. -/
theorem owned_iff_submitSucceeds (entries : Nat) {as : List LifeAct} {t : LifeCycle}
    (h : machine.run (created entries) as = some t) :
    machine.Every (fun _ _ s' => s'.Owned) (created entries) as ↔
      ∀ a ∈ as, SubmitSucceeds a := by
  rw [← machine.every_label h]
  exact machine.every_iff_every
    (fun s a s' hs ha hC => ⟨step_sound hs hC ha, (step_sound hs hC ha).owned⟩)
    (fun s a s' hs ha hO => submitSucceeds_of_owned hs ha hO) (sound_created entries)

def twoOperations : List LifeAct :=
  [.submitOperation .read 5, .submitOperation .write 6, .check 0, .check 1, .getRequest 0,
    .getRequest 1, .initRequest 0, .initRequest 1, .ring 0 (.submit 1), .ring 1 .noSqe,
    .complete 0 10, .completeWithError 1, .waitCqe, .putRequest 1, .handleCompletion, .workerPut]

theorem owned_iff_submitSucceeds_twoOperations :
    ∃ t, machine.run (created 2) twoOperations = some t ∧
      (machine.Every (fun _ _ s' => s'.Owned) (created 2) twoOperations ↔
        ∀ a ∈ twoOperations, SubmitSucceeds a) := by
  have hrun : machine.run (created 2) twoOperations = some _ := rfl
  exact ⟨_, hrun, owned_iff_submitSucceeds 2 hrun⟩

/-- The entry of a read that could not be submitted goes to the kernel with the
next operation, which has taken over the read's request. -/
def staleEntry : List LifeAct :=
  [.submitOperation .read 5, .check 0, .getRequest 0, .initRequest 0,
    .ring 0 (.submit (-EBUSY)), .completeWithError 0, .putRequest 0,
    .submitOperation .write 6, .check 1, .getRequest 1, .initRequest 1, .ring 1 (.submit 2),
    .complete 0 10, .waitCqe, .handleCompletion, .workerPut]

theorem staleEntry_not_owned :
    ¬ ∀ (entries : Nat) (as : List LifeAct) (t : LifeCycle),
      machine.run (created entries) as = some t → t.Owned := by
  intro h
  have ht := h 2 staleEntry _ rfl
  exact absurd (ht.results ⟨1, 0, 10⟩ (by decide)) (by decide)

end LifeCycle

end Lmnet.IoUring
