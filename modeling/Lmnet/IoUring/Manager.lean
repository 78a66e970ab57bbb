import Lmnet.Common
import Lmnet.Lib.Lists

/-!
`IoUringManager`: the fixed pool of requests, the stack of free ones and the
submission ring. Callbacks are values of a type `κ` that the users of the
manager interpret.
-/

set_option autoImplicit false

namespace Lmnet.IoUring

inductive RequestType where
  | accept | connect | read | write | close | recvFrom | sendMsg | recvMsg
  deriving DecidableEq, Repr

def isFatalSubmissionError (result : Int) : Bool :=
  result = -ENOMEM || result = -ESHUTDOWN || result = -ECANCELED

def shouldResubmitAccept (result : Int) : Bool :=
  result ≠ -ENOMEM && result ≠ -ESHUTDOWN && result ≠ -ECANCELED

/-- `callback` is the callback member that `event_type` selects. -/
structure Request (κ : Type) where
  eventType : RequestType
  fd : Fd
  callback : Option κ
  deriving DecidableEq, Repr

def Request.cleared {κ : Type} : Request κ := ⟨.accept, invalidSocket, none⟩

/-- A submission entry: its user data, which is the index of a request, and the
operation it was prepared for. -/
structure Sqe (κ : Type) where
  userData : Nat
  op : κ
  deriving DecidableEq, Repr

/-- What happens under `submitMutex_`: no entry to be had, or `io_uring_submit`
returns `ret`. The size of the ring is not part of the manager, so that either
may happen in any state. -/
inductive RingOutcome where
  | noSqe
  | submit (ret : Int)
  deriving DecidableEq, Repr

def RingOutcome.result : RingOutcome → Int
  | .noSqe => -ENOMEM
  | .submit ret => ret

def RingOutcome.Succeeds : RingOutcome → Prop
  | .noSqe => True
  | .submit ret => 0 ≤ ret

/-- The back of the vector `freeRequests_` is the head of the list here.
`prepared` are the entries the ring holds and `inflight` those the kernel has. -/
structure Manager (κ : Type) where
  isRunning : Bool
  requestPool : List (Request κ)
  freeRequests : List Nat
  prepared : List (Sqe κ)
  inflight : List (Sqe κ)
  deriving DecidableEq, Repr

namespace Manager

variable {κ : Type}

def init (entries : Nat) : Manager κ where
  isRunning := true
  requestPool := List.replicate entries .cleared
  freeRequests := (List.range entries).reverse
  prepared := []
  inflight := []

def getRequest (m : Manager κ) : Option (Nat × Manager κ) :=
  match m.freeRequests with
  | [] => none
  | r :: rest =>
      some (r, { m with freeRequests := rest, requestPool := m.requestPool.set r .cleared })

def initRequest (m : Manager κ) (r : Nat) (type : RequestType) (fd : Fd) (callback : κ) :
    Manager κ :=
  { m with requestPool := m.requestPool.set r ⟨type, fd, some callback⟩ }

/-- The critical section of `submitMutex_`. An entry that `io_uring_submit` fails
to hand over stays prepared, and goes with the next one. -/
def ring (m : Manager κ) (r : Nat) (op : κ) : RingOutcome → Manager κ
  | .noSqe => m
  | .submit ret =>
      if 0 ≤ ret then { m with prepared := [], inflight := m.inflight ++ (m.prepared ++ [⟨r, op⟩]) }
      else { m with prepared := m.prepared ++ [⟨r, op⟩] }

def putRequest (m : Manager κ) (r : Nat) : Manager κ :=
  { m with freeRequests := r :: m.freeRequests }

/-- `SubmitOperation` up to the call of the callback it makes when it fails: with
this error, after which the request, if there was one, is put back. -/
def submitOperation (m : Manager κ) (type : RequestType) (fd : Fd) (callback : κ)
    (o : RingOutcome) : Manager κ × Option (Int × Option Nat) :=
  if !m.isRunning then (m, some (-ESHUTDOWN, none))
  else match m.getRequest with
    | none => (m, some (-ENOMEM, none))
    | some (r, m') =>
        ((m'.initRequest r type fd callback).ring r callback o,
          if 0 ≤ o.result then none else some (o.result, some r))

def complete (m : Manager κ) (k : Nat) : Option (Sqe κ × Manager κ) :=
  m.inflight[k]?.map fun q => (q, { m with inflight := m.inflight.eraseIdx k })

def callbackAt (m : Manager κ) (r : Nat) : Option κ := m.requestPool[r]?.bind (·.callback)

def references (m : Manager κ) (r : Nat) : Nat :=
  m.freeRequests.count r + m.prepared.countP (·.userData == r) +
    m.inflight.countP (·.userData == r)

theorem references_init (entries r : Nat) :
    (init entries : Manager κ).references r = if r < entries then 1 else 0 := by
  simp [references, init, List.count_range]

theorem getRequest_eq_some {m m' : Manager κ} {r : Nat} (h : m.getRequest = some (r, m')) :
    ∃ rest, m.freeRequests = r :: rest ∧
      m' = { m with freeRequests := rest, requestPool := m.requestPool.set r .cleared } := by
  unfold getRequest at h
  split at h
  · cases h
  · cases h
    exact ⟨_, ‹_›, rfl⟩

theorem references_getRequest {m m' : Manager κ} {r : Nat} (h : m.getRequest = some (r, m'))
    (x : Nat) : m'.references x + (r == x).toNat = m.references x := by
  obtain ⟨rest, hfree, rfl⟩ := getRequest_eq_some h
  simp only [references, hfree, List.count_cons]
  cases r == x <;> simp
  omega

theorem callbackAt_set_ne (m : Manager κ) {r x : Nat} (req : Request κ) (h : r ≠ x) :
    ({ m with requestPool := m.requestPool.set r req } : Manager κ).callbackAt x =
      m.callbackAt x := by
  simp [callbackAt, List.getElem?_set_ne h]

theorem callbackAt_initRequest (m : Manager κ) {r : Nat} (type : RequestType) (fd : Fd)
    (callback : κ) (h : r < m.requestPool.length) :
    (m.initRequest r type fd callback).callbackAt r = some callback := by
  simp [callbackAt, initRequest, h]

theorem references_initRequest (m : Manager κ) (r : Nat) (type : RequestType) (fd : Fd)
    (callback : κ) (x : Nat) :
    (m.initRequest r type fd callback).references x = m.references x := rfl

@[simp] theorem ring_noSqe (m : Manager κ) (r : Nat) (op : κ) : m.ring r op .noSqe = m := rfl

/-- A prepared entry counts whether or not it could be submitted. -/
theorem references_ring (m : Manager κ) (r : Nat) (op : κ) (ret : Int) (x : Nat) :
    (m.ring r op (.submit ret)).references x = m.references x + (r == x).toNat := by
  by_cases hret : 0 ≤ ret
  · simp only [ring, hret, if_true, references, List.countP_append, List.countP_singleton,
      List.countP_nil]
    cases r == x <;> simp <;> omega
  · simp only [ring, hret, if_false, references, List.countP_append, List.countP_singleton]
    cases r == x <;> simp
    omega

theorem references_putRequest (m : Manager κ) (r x : Nat) :
    (m.putRequest r).references x = m.references x + (r == x).toNat := by
  simp only [references, putRequest, List.count_cons]
  cases r == x <;> simp
  omega

theorem references_complete {m m' : Manager κ} {k : Nat} {q : Sqe κ}
    (h : m.complete k = some (q, m')) (x : Nat) :
    m'.references x + (q.userData == x).toNat = m.references x := by
  obtain ⟨q', hq, heq⟩ := Option.map_eq_some_iff.mp h
  cases heq
  have hcount := List.countP_eraseIdx_add (p := fun s : Sqe κ => s.userData == x) hq
  simp only [references]
  omega

theorem submitOperation_accepted {m m' : Manager κ} {type : RequestType} {fd : Fd} {op : κ}
    {o : RingOutcome} (h : m.submitOperation type fd op o = (m', none)) :
    m.isRunning = true ∧ m.freeRequests ≠ [] ∧ 0 ≤ o.result := by
  unfold submitOperation at h
  split at h
  · cases h
  · rename_i hrun
    split at h
    · cases h
    · rename_i r m₁ hget
      obtain ⟨rest, hfree, -⟩ := getRequest_eq_some hget
      split at h
      · rename_i hresult
        exact ⟨by simpa using hrun, by simp [hfree], hresult⟩
      · cases h

theorem submitOperation_refused {m m' : Manager κ} {type : RequestType} {fd : Fd} {op : κ}
    {o : RingOutcome} {error : Int} {r : Option Nat}
    (h : m.submitOperation type fd op o = (m', some (error, r))) :
    error < 0 ∧ (o.Succeeds → error = -ESHUTDOWN ∨ error = -ENOMEM) := by
  unfold submitOperation at h
  split at h
  · cases h
    exact ⟨by decide, fun _ => .inl rfl⟩
  · split at h
    · cases h
      exact ⟨by decide, fun _ => .inr rfl⟩
    · split at h
      · cases h
      · rename_i hresult
        cases h
        refine ⟨by omega, fun ho => ?_⟩
        cases o with
        | noSqe => exact .inr rfl
        | submit ret => exact absurd ho hresult

theorem accepted_of_free {m : Manager κ} {o : RingOutcome} (type : RequestType) (fd : Fd)
    (op : κ) (hrun : m.isRunning = true) (hfree : m.freeRequests ≠ []) (ho : 0 ≤ o.result) :
    ∃ m', m.submitOperation type fd op o = (m', none) := by
  cases hrequests : m.freeRequests with
  | nil => exact absurd hrequests hfree
  | cons r rest =>
    simp only [submitOperation, hrun, getRequest, hrequests, ho, if_true, Bool.not_true,
      Bool.false_eq_true, if_false]
    exact ⟨_, rfl⟩

theorem submitOperation_of_free {m : Manager κ} {o : RingOutcome} (type : RequestType) (fd : Fd)
    (op : κ) (hrun : m.isRunning = true) (hfree : m.freeRequests ≠ []) (hentry : o ≠ .noSqe)
    (ho : o.Succeeds) : (m.submitOperation type fd op o).2 = none := by
  cases o with
  | noSqe => exact absurd rfl hentry
  | submit ret =>
    have hret : 0 ≤ (RingOutcome.submit ret).result := ho
    obtain ⟨m', hm⟩ := accepted_of_free type fd op hrun hfree hret
    rw [hm]

theorem succeeds_of_accepted {m m' : Manager κ} {type : RequestType} {fd : Fd} {op : κ}
    {o : RingOutcome} (h : m.submitOperation type fd op o = (m', none)) : o.Succeeds := by
  have hresult := (submitOperation_accepted h).2.2
  cases o with
  | noSqe => trivial
  | submit ret => exact hresult

/-- With nothing left over in the ring, and no failing `io_uring_submit`, an
operation is either handed to the kernel or refused for want of a request or an
entry. -/
inductive Submitted (m : Manager κ) (op : κ) : Manager κ × Option (Int × Option Nat) → Prop where
  | accepted (r : Nat) (m' : Manager κ) (hfree : 0 < m.freeRequests.count r)
      (hrefs : ∀ x, m'.references x = m.references x)
      (hinflight : m'.inflight = m.inflight ++ [⟨r, op⟩])
      (hcallback : r < m.requestPool.length → m'.callbackAt r = some op)
      (hother : ∀ x, r ≠ x → m'.callbackAt x = m.callbackAt x)
      (hpool : m'.requestPool.length = m.requestPool.length) (hprepared : m'.prepared = []) :
      Submitted m op (m', none)
  | refused (error : Int) (hshut : error = -ESHUTDOWN ∨ error = -ENOMEM)
      (hfull : m.isRunning = true → m.freeRequests = []) :
      Submitted m op (m, some (error, none))
  | noEntry (r : Nat) (m' : Manager κ) (hfree : 0 < m.freeRequests.count r)
      (hrefs : ∀ x, m'.references x + (r == x).toNat = m.references x)
      (hinflight : m'.inflight = m.inflight)
      (hother : ∀ x, r ≠ x → m'.callbackAt x = m.callbackAt x)
      (hpool : m'.requestPool.length = m.requestPool.length) (hprepared : m'.prepared = []) :
      Submitted m op (m', some (-ENOMEM, some r))

theorem submitOperation_cases {m : Manager κ} {o : RingOutcome} (type : RequestType) (fd : Fd)
    (op : κ) (hprepared : m.prepared = []) (ho : o.Succeeds) :
    m.Submitted op (m.submitOperation type fd op o) := by
  unfold submitOperation
  split
  · rename_i hrun
    exact .refused _ (.inl rfl) fun h => by simp [h] at hrun
  · split
    · rename_i hget
      refine .refused _ (.inr rfl) fun _ => ?_
      unfold getRequest at hget
      split at hget
      · assumption
      · cases hget
    · rename_i r m' hget
      have hrefs := references_getRequest hget
      obtain ⟨rest, hfree, rfl⟩ := getRequest_eq_some hget
      have hcount : 0 < m.freeRequests.count r := by simp [hfree]
      have hother : ∀ x, r ≠ x → ((⟨m.isRunning, m.requestPool.set r .cleared, rest, m.prepared,
          m.inflight⟩ : Manager κ).initRequest r type fd op).callbackAt x = m.callbackAt x := by
        intro x hx
        simp [callbackAt, initRequest, List.getElem?_set_ne hx]
      cases o with
      | noSqe =>
        exact .noEntry r _ hcount hrefs rfl hother (by simp [initRequest]) hprepared
      | submit ret =>
        have hret : 0 ≤ ret := ho
        simp only [RingOutcome.result, hret, if_true]
        refine .accepted r _ hcount (fun x => ?_) ?_ (fun hlt => ?_) (fun x hx => ?_) ?_ ?_
        · rw [references_ring, references_initRequest]
          exact hrefs x
        · simp [ring, hret, initRequest, hprepared]
        · simp [ring, hret, initRequest, callbackAt, hlt]
        · simpa [ring, hret, callbackAt] using hother x hx
        · simp [ring, hret, initRequest]
        · simp [ring, hret]

end Manager

end Lmnet.IoUring
