import Lmnet.Lib.Lists
import Lmnet.Lib.Machine
import Lmnet.Windows.IocpWrite

/-!
`IocpManager`: its pool of requests, `SubmitOperation` and `SubmitCloseRequest` on any
thread, `WorkerLoop` on every worker, and `Stop` and `Exit`. A step is one critical section
of `poolMutex_`, one load or store of an atomic, one callback, or one call of Windows. A
posted operation yields one packet, and any worker that waits may take any packet.
-/

set_option autoImplicit false

namespace Lmnet.Windows

/-- No function makes an `EXIT` request. -/
inductive IocpRequestType where
  | accept | connect | read | write | close | recvFrom | sendTo
  deriving DecidableEq, Repr

/-- `callback` stands for the callback that `type` selects: it is the number of the call
that brought it. -/
structure IocpRequest where
  type : IocpRequestType
  callback : Option Nat
  bufferSize : Option Nat
  wsaBufLen : Nat
  transferredBytes : Nat
  deriving DecidableEq, Repr

/-- What `HandleCompletion` does: it hands a partial write to `WSASend` again, or runs the
callback with these numbers. -/
inductive Handled where
  | resubmitted (req : IocpRequest)
  | called (bytes error : Nat)
  deriving DecidableEq, Repr

namespace IocpRequest

def cleared : IocpRequest := ⟨.read, none, none, 0, 0⟩

/-- The `init_request` of each `Submit…Request`; `size` is the capacity of a buffer that is
to be filled, and the size of one that is to be sent. -/
def initRequest (type : IocpRequestType) (callback size : Nat) : IocpRequest :=
  match type with
  | .connect | .accept | .close => ⟨type, some callback, none, 0, 0⟩
  | .read | .write | .recvFrom | .sendTo => ⟨type, some callback, some size, dword size, 0⟩

def totalBytes (req : IocpRequest) (bytes error : Nat) : Nat :=
  match req.bufferSize with
  | some size => if error = 0 then dword size else dword (req.transferredBytes + bytes)
  | none => dword (req.transferredBytes + bytes)

/-- `wsaError` is the error of the second `WSASend`, if it has one. The callbacks of
`CONNECT` and `ACCEPT` are not told of bytes. -/
def handleCompletion (req : IocpRequest) (bytes error : Nat) (wsaError : Option Nat) :
    Handled :=
  match req.type with
  | .connect | .accept | .close => .called 0 error
  | .read | .recvFrom | .sendTo => .called bytes error
  | .write =>
      if error = 0 ∧ req.bufferSize.isSome ∧ 0 < bytes ∧ bytes < req.wsaBufLen then
        let req := { req with
          transferredBytes := dword (req.transferredBytes + bytes)
          wsaBufLen := req.wsaBufLen - bytes }
        match wsaError with
        | none => .resubmitted req
        | some e => .called (req.totalBytes bytes e) e
      else .called (req.totalBytes bytes error) error

end IocpRequest

structure Overlapped where
  req : Nat
  op : Nat
  deriving DecidableEq, Repr

inductive Packet where
  | wakeUp
  | completion (o : Overlapped) (bytes error : Nat)
  deriving DecidableEq, Repr

/-- Where a worker stands in `WorkerLoop`. A wait is `INFINITE` or of 50 ms. A worker is
`woken` when `GetQueuedCompletionStatus` hands it no `OVERLAPPED`: a wake-up, a timeout and
an error lead to the same loads. -/
inductive IocpWorker where
  | loop
  | waiting (infinite : Bool)
  | woken
  | stopSeen
  | notForced
  | handling (o : Overlapped) (bytes error : Nat)
  | recycling (req : Nat)
  | exited
  deriving DecidableEq, Repr

/-- Where a call of `SubmitOperation` or `SubmitCloseRequest` stands. -/
inductive IocpCall where
  | submitting (req : Nat)
  | failed (req : Nat)
  | returned (success : Bool)
  | closing (req : Nat)
  | closed (req : Nat) (success : Bool)
  | closeReturned (success : Bool)
  deriving DecidableEq, Repr

/-- Where `Stop` stands; `left` are the wake-ups it has yet to post before it joins. -/
inductive Stopping where
  | notCalled
  | posting (left : Nat)
  | joined
  | cleared
  deriving DecidableEq, Repr

/-- `requests` are `requestPool_` and behind it `dynamicRequestPool_`; the back of the vector
`freeRequests_` is the head of the list here. `posted` are the operations Windows has in
progress, `callbacks` the operations whose callback has been called. -/
structure IocpManager where
  isRunning : Bool
  forceStop : Bool
  activeRequests : Int
  maxEntries : Nat
  requests : List IocpRequest
  freeRequests : List Nat
  calls : List IocpCall
  posted : List Overlapped
  packets : List Packet
  workers : List IocpWorker
  stopping : Stopping
  callbacks : List Nat
  closeCallbacks : List Nat
  deriving DecidableEq, Repr

inductive IocpAct where
  | submitOperation (type : IocpRequestType) (extensions : Bool) (size : Nat)
  | post (i : Nat) (success : Bool)
  | submitCloseRequest (valid : Bool)
  | closesocket (i : Nat) (success : Bool)
  | putRequest (i : Nat)
  | complete (k bytes error : Nat)
  | take (w j : Nat)
  | noPacket (w : Nat)
  | work (w : Nat) (wsaError : Option Nat)
  | exit
  | stop
  | postWakeUp
  | join
  | clear
  deriving DecidableEq, Repr

def workerThreadCount (workerThreads numberOfProcessors : Int) : Nat :=
  (min (max (if workerThreads ≤ 0 then numberOfProcessors else workerThreads) 1) 64).toNat

namespace IocpManager

def init (entries : Nat) (workerThreads numberOfProcessors : Int) : IocpManager where
  isRunning := true
  forceStop := false
  activeRequests := 0
  maxEntries := max (entries * 4) (entries + 64)
  requests := List.replicate entries .cleared
  freeRequests := (List.range entries).reverse
  calls := []
  posted := []
  packets := []
  workers := List.replicate (workerThreadCount workerThreads numberOfProcessors) .loop
  stopping := .notCalled
  callbacks := []
  closeCallbacks := []

def setCall (s : IocpManager) (i : Nat) (call : IocpCall) : IocpManager :=
  { s with calls := s.calls.set i call }

def setWorker (s : IocpManager) (w : Nat) (worker : IocpWorker) : IocpManager :=
  { s with workers := s.workers.set w worker }

def getRequest (s : IocpManager) : Option (Nat × IocpManager) :=
  match s.freeRequests with
  | [] =>
      if s.requests.length < s.maxEntries then
        some (s.requests.length, { s with
          requests := s.requests ++ [.cleared]
          activeRequests := s.activeRequests + 1 })
      else none
  | r :: rest =>
      some (r, { s with
        freeRequests := rest
        requests := s.requests.set r .cleared
        activeRequests := s.activeRequests + 1 })

def putRequest (s : IocpManager) (r : Nat) : IocpManager :=
  { s with freeRequests := r :: s.freeRequests, activeRequests := s.activeRequests - 1 }

/-- `SubmitOperation` up to its `submit_operation`; `extensions` is what
`LoadWinsockExtensions` says to a connect or an accept. -/
def submitOperation (s : IocpManager) (type : IocpRequestType) (extensions : Bool)
    (size : Nat) : IocpManager :=
  if (type = .connect ∨ type = .accept) ∧ extensions = false then
    { s with calls := s.calls ++ [.returned false] }
  else
    match s.getRequest with
    | none => { s with calls := s.calls ++ [.returned false] }
    | some (r, m) =>
        { m with
          requests := m.requests.set r (.initRequest type s.calls.length size)
          calls := s.calls ++ [.submitting r] }

def post (s : IocpManager) (i : Nat) (success : Bool) : Option IocpManager :=
  match s.calls[i]? with
  | some (.submitting r) =>
      if success then some { s.setCall i (.returned true) with posted := s.posted ++ [⟨r, i⟩] }
      else some (s.setCall i (.failed r))
  | _ => none

def submitCloseRequest (s : IocpManager) (valid : Bool) : IocpManager :=
  if valid then
    match s.getRequest with
    | none => { s with calls := s.calls ++ [.closeReturned false] }
    | some (r, m) =>
        { m with
          requests := m.requests.set r (.initRequest .close s.calls.length 0)
          calls := s.calls ++ [.closing r] }
  else { s with calls := s.calls ++ [.closeReturned false] }

/-- `closesocket` and the callback, which `SubmitCloseRequest` runs itself. -/
def closesocket (s : IocpManager) (i : Nat) (success : Bool) : Option IocpManager :=
  match s.calls[i]? with
  | some (.closing r) =>
      some { s.setCall i (.closed r success) with closeCallbacks := s.closeCallbacks ++ [i] }
  | _ => none

def returnRequest (s : IocpManager) (i : Nat) : Option IocpManager :=
  match s.calls[i]? with
  | some (.failed r) => some ((s.setCall i (.returned false)).putRequest r)
  | some (.closed r success) => some ((s.setCall i (.closeReturned success)).putRequest r)
  | _ => none

def complete (s : IocpManager) (k bytes error : Nat) : Option IocpManager :=
  s.posted[k]?.map fun o =>
    { s with posted := s.posted.eraseIdx k, packets := s.packets ++ [.completion o bytes error] }

def take (s : IocpManager) (w j : Nat) : Option IocpManager :=
  match s.workers[w]?, s.packets[j]? with
  | some (.waiting _), some .wakeUp =>
      some { s.setWorker w .woken with packets := s.packets.eraseIdx j }
  | some (.waiting _), some (.completion o bytes error) =>
      some { s.setWorker w (.handling o bytes error) with packets := s.packets.eraseIdx j }
  | _, _ => none

def work (s : IocpManager) (w : Nat) (wsaError : Option Nat) : IocpWorker → Option IocpManager
  | .loop => some (s.setWorker w (.waiting s.isRunning))
  | .waiting _ => none
  | .woken => some (s.setWorker w (if s.isRunning then .loop else .stopSeen))
  | .stopSeen => some (s.setWorker w (if s.forceStop then .exited else .notForced))
  | .notForced => some (s.setWorker w (if s.activeRequests = 0 then .exited else .loop))
  | .handling o bytes error =>
      s.requests[o.req]?.map fun req =>
        match req.handleCompletion bytes error wsaError with
        | .resubmitted req =>
            { s.setWorker w .loop with
              requests := s.requests.set o.req req
              posted := s.posted ++ [o] }
        | .called _ _ =>
            { s.setWorker w (.recycling o.req) with
              callbacks := s.callbacks ++ req.callback.toList }
  | .recycling r => some ((s.setWorker w .loop).putRequest r)
  | .exited => none

def stop (s : IocpManager) : IocpManager :=
  if s.isRunning then { s with isRunning := false, stopping := .posting s.workers.length } else s

def step (s : IocpManager) : IocpAct → Option IocpManager
  | .submitOperation type extensions size =>
      if type = .close then none else some (s.submitOperation type extensions size)
  | .post i success => s.post i success
  | .submitCloseRequest valid => some (s.submitCloseRequest valid)
  | .closesocket i success => s.closesocket i success
  | .putRequest i => s.returnRequest i
  | .complete k bytes error => s.complete k bytes error
  | .take w j => s.take w j
  | .noPacket w =>
      match s.workers[w]? with
      | some (.waiting _) => some (s.setWorker w .woken)
      | _ => none
  | .work w wsaError => s.workers[w]?.bind fun worker => s.work w wsaError worker
  | .exit => some { s with forceStop := true }
  | .stop => some s.stop
  | .postWakeUp =>
      match s.stopping with
      | .posting (left + 1) =>
          some { s with packets := s.packets ++ [.wakeUp], stopping := .posting left }
      | _ => none
  | .join =>
      if s.stopping = .posting 0 ∧ ∀ worker ∈ s.workers, worker = .exited then
        some { s with stopping := .joined }
      else none
  | .clear =>
      if s.stopping = .joined then
        some { s with requests := [], freeRequests := [], maxEntries := 0, stopping := .cleared }
      else none

def machine : Machine IocpManager IocpAct where
  init s := ∃ entries workerThreads numberOfProcessors,
    s = init entries workerThreads numberOfProcessors
  step := step

end IocpManager

namespace IocpManager

theorem getRequest_cases {s m : IocpManager} {r : Nat} (h : s.getRequest = some (r, m)) :
    (∃ rest, s.freeRequests = r :: rest ∧
      m = { s with
        freeRequests := rest
        requests := s.requests.set r .cleared
        activeRequests := s.activeRequests + 1 }) ∨
    (s.freeRequests = [] ∧ s.requests.length = r ∧ s.requests.length < s.maxEntries ∧
      m = { s with
        requests := s.requests ++ [.cleared]
        activeRequests := s.activeRequests + 1 }) := by
  unfold getRequest at h
  split at h
  · rename_i hfree
    split at h
    · rename_i hlt
      cases h
      exact .inr ⟨hfree, rfl, hlt, rfl⟩
    · cases h
  · rename_i rest hfree
    cases h
    exact .inl ⟨_, hfree, rfl⟩

structure Submits (s t : IocpManager) : Prop where
  isRunning : t.isRunning = s.isRunning
  forceStop : t.forceStop = s.forceStop
  packets : t.packets = s.packets
  workers : t.workers = s.workers
  stopping : t.stopping = s.stopping
  callbacks : t.callbacks = s.callbacks

theorem getRequest_submits {s m : IocpManager} {r : Nat} (h : s.getRequest = some (r, m)) :
    s.Submits m := by
  obtain ⟨rest, -, rfl⟩ | ⟨-, -, -, rfl⟩ := getRequest_cases h
  · exact ⟨rfl, rfl, rfl, rfl, rfl, rfl⟩
  · exact ⟨rfl, rfl, rfl, rfl, rfl, rfl⟩

theorem submitOperation_submits (s : IocpManager) (type : IocpRequestType)
    (extensions : Bool) (size : Nat) : s.Submits (s.submitOperation type extensions size) := by
  unfold submitOperation
  split
  · exact ⟨rfl, rfl, rfl, rfl, rfl, rfl⟩
  · split
    · exact ⟨rfl, rfl, rfl, rfl, rfl, rfl⟩
    · rename_i r m h
      obtain ⟨h₁, h₂, h₃, h₄, h₅, h₆⟩ := getRequest_submits h
      exact ⟨h₁, h₂, h₃, h₄, h₅, h₆⟩

theorem submitCloseRequest_submits (s : IocpManager) (valid : Bool) :
    s.Submits (s.submitCloseRequest valid) := by
  unfold submitCloseRequest
  split
  · split
    · exact ⟨rfl, rfl, rfl, rfl, rfl, rfl⟩
    · rename_i r m h
      obtain ⟨h₁, h₂, h₃, h₄, h₅, h₆⟩ := getRequest_submits h
      exact ⟨h₁, h₂, h₃, h₄, h₅, h₆⟩
  · exact ⟨rfl, rfl, rfl, rfl, rfl, rfl⟩

theorem post_submits {s t : IocpManager} {i : Nat} {success : Bool}
    (h : s.post i success = some t) : s.Submits t := by
  unfold post at h
  split at h
  · split at h
    · cases h
      exact ⟨rfl, rfl, rfl, rfl, rfl, rfl⟩
    · cases h
      exact ⟨rfl, rfl, rfl, rfl, rfl, rfl⟩
  · cases h

theorem closesocket_submits {s t : IocpManager} {i : Nat} {success : Bool}
    (h : s.closesocket i success = some t) : s.Submits t := by
  unfold closesocket at h
  split at h
  · cases h
    exact ⟨rfl, rfl, rfl, rfl, rfl, rfl⟩
  · cases h

theorem returnRequest_submits {s t : IocpManager} {i : Nat} (h : s.returnRequest i = some t) :
    s.Submits t := by
  unfold returnRequest at h
  split at h
  · cases h
    exact ⟨rfl, rfl, rfl, rfl, rfl, rfl⟩
  · cases h
    exact ⟨rfl, rfl, rfl, rfl, rfl, rfl⟩
  · cases h

/-- What the calls of `Stop` and `Exit` do to their state, and that no one else does. -/
inductive Phase (s : IocpManager) : IocpAct → IocpManager → Prop where
  | kept {a : IocpAct} {t : IocpManager} (hrunning : t.isRunning = s.isRunning)
      (hforce : a ≠ .exit → t.forceStop = s.forceStop) (hstopping : t.stopping = s.stopping)
      (hclear : a ≠ .clear) : Phase s a t
  | stopped (hrunning : s.isRunning = true) : Phase s .stop
      { s with isRunning := false, stopping := .posting s.workers.length }
  | posted {left : Nat} (hstopping : s.stopping = .posting (left + 1)) : Phase s .postWakeUp
      { s with packets := s.packets ++ [.wakeUp], stopping := .posting left }
  | joined (hstopping : s.stopping = .posting 0)
      (hexited : ∀ worker ∈ s.workers, worker = .exited) : Phase s .join
      { s with stopping := .joined }
  | cleared (hstopping : s.stopping = .joined) : Phase s .clear
      { s with requests := [], freeRequests := [], maxEntries := 0, stopping := .cleared }

theorem Submits.phase {s t : IocpManager} {a : IocpAct} (h : s.Submits t) (ha : a ≠ .clear) :
    s.Phase a t :=
  .kept h.isRunning (fun _ => h.forceStop) h.stopping ha

theorem work_phase {s t : IocpManager} {w : Nat} {wsaError : Option Nat}
    {worker : IocpWorker} (h : s.work w wsaError worker = some t) :
    s.Phase (.work w wsaError) t := by
  cases worker with
  | handling o bytes error =>
    obtain ⟨req, -, rfl⟩ := Option.map_eq_some_iff.mp h
    split <;> exact .kept rfl (fun _ => rfl) rfl (by simp)
  | loop | woken | stopSeen | notForced | recycling =>
    cases h
    exact .kept rfl (fun _ => rfl) rfl (by simp)
  | waiting | exited => cases h

theorem step_phase {s t : IocpManager} {a : IocpAct} (h : s.step a = some t) : s.Phase a t := by
  cases a with
  | submitOperation type extensions size =>
    simp only [step] at h
    split at h
    · cases h
    · cases h
      exact (s.submitOperation_submits type extensions size).phase (by simp)
  | post i success => exact (post_submits h).phase (by simp)
  | submitCloseRequest valid =>
    cases h
    exact (s.submitCloseRequest_submits valid).phase (by simp)
  | closesocket i success => exact (closesocket_submits h).phase (by simp)
  | putRequest i => exact (returnRequest_submits h).phase (by simp)
  | complete k bytes error =>
    obtain ⟨o, -, rfl⟩ := Option.map_eq_some_iff.mp h
    exact .kept rfl (fun _ => rfl) rfl (by simp)
  | take w j =>
    simp only [step, take] at h
    split at h
    · cases h
      exact .kept rfl (fun _ => rfl) rfl (by simp)
    · cases h
      exact .kept rfl (fun _ => rfl) rfl (by simp)
    · cases h
  | noPacket w =>
    simp only [step] at h
    split at h
    · cases h
      exact .kept rfl (fun _ => rfl) rfl (by simp)
    · cases h
  | work w wsaError =>
    obtain ⟨worker, -, hwork⟩ := Option.bind_eq_some_iff.mp h
    exact work_phase hwork
  | exit =>
    cases h
    exact .kept rfl (fun hne => absurd rfl hne) rfl (by simp)
  | stop =>
    cases h
    unfold stop
    split
    · rename_i hrunning
      exact .stopped hrunning
    · exact .kept rfl (fun _ => rfl) rfl (by simp)
  | postWakeUp =>
    simp only [step] at h
    split at h
    · rename_i left hstopping
      cases h
      exact .posted hstopping
    · cases h
  | join =>
    simp only [step] at h
    split at h
    · rename_i hjoin
      cases h
      exact .joined hjoin.1 hjoin.2
    · cases h
  | clear =>
    simp only [step] at h
    split at h
    · rename_i hjoined
      cases h
      exact .cleared hjoined
    · cases h

def Timely (s : IocpManager) : Prop := s.isRunning = true ↔ s.stopping = .notCalled

theorem Phase.timely {s t : IocpManager} {a : IocpAct} (h : s.Phase a t) (hs : s.Timely) :
    t.Timely := by
  unfold Timely at hs ⊢
  cases h with
  | kept hrunning hforce hstopping hclear => rw [hrunning, hstopping]; exact hs
  | stopped hrunning => simp
  | posted hstopping => simp [hs, hstopping]
  | joined hstopping hexited => simp [hs, hstopping]
  | cleared hstopping => simp [hs, hstopping]

/-- Nothing takes the pool out of its cleared state. -/
theorem Phase.cleared_of_cleared {s t : IocpManager} {a : IocpAct} (h : s.Phase a t)
    (htimely : s.Timely) (hs : s.stopping = .cleared) : t.stopping = .cleared := by
  cases h with
  | kept hrunning hforce hstopping hclear => rw [hstopping]; exact hs
  | stopped hrunning =>
    have hnot := htimely.mp hrunning
    rw [hs] at hnot
    cases hnot
  | posted hstopping => rw [hs] at hstopping; cases hstopping
  | joined hstopping hexited => rw [hs] at hstopping; cases hstopping
  | cleared hstopping => rfl

inductive WorkerMove (s : IocpManager) : IocpWorker → IocpWorker → Prop where
  | wait : WorkerMove s .loop (.waiting s.isRunning)
  | wake (infinite : Bool) : WorkerMove s (.waiting infinite) .woken
  | take (infinite : Bool) (o : Overlapped) (bytes error : Nat) :
      WorkerMove s (.waiting infinite) (.handling o bytes error)
  | goOn (hrunning : s.isRunning = true) : WorkerMove s .woken .loop
  | seeStop (hrunning : s.isRunning = false) : WorkerMove s .woken .stopSeen
  | force (hforce : s.forceStop = true) : WorkerMove s .stopSeen .exited
  | drain (hforce : s.forceStop = false) : WorkerMove s .stopSeen .notForced
  | leave (hactive : s.activeRequests = 0) : WorkerMove s .notForced .exited
  | stay (hactive : s.activeRequests ≠ 0) : WorkerMove s .notForced .loop
  | resubmit (o : Overlapped) (bytes error : Nat) : WorkerMove s (.handling o bytes error) .loop
  | call (o : Overlapped) (bytes error : Nat) :
      WorkerMove s (.handling o bytes error) (.recycling o.req)
  | recycle (r : Nat) : WorkerMove s (.recycling r) .loop

inductive WorkerStep (s t : IocpManager) : Prop where
  | none (h : t.workers = s.workers)
  | moved {w : Nat} {old new : IocpWorker} (hold : s.workers[w]? = some old)
      (hmove : s.WorkerMove old new) (hnew : t.workers = s.workers.set w new)
      (hexited : new = .exited → t = s.setWorker w .exited)

theorem work_workerMove {s t : IocpManager} {w : Nat} {wsaError : Option Nat}
    {worker : IocpWorker} (h : s.work w wsaError worker = some t) :
    ∃ new, s.WorkerMove worker new ∧ t.workers = s.workers.set w new ∧
      (new = .exited → t = s.setWorker w .exited) := by
  cases worker with
  | loop =>
    cases h
    exact ⟨_, .wait, rfl, by simp⟩
  | waiting infinite => cases h
  | woken =>
    cases h
    refine ⟨_, ?_, rfl, fun hexited => by rw [hexited]⟩
    cases hrunning : s.isRunning with
    | false => exact .seeStop hrunning
    | true => exact .goOn hrunning
  | stopSeen =>
    cases h
    refine ⟨_, ?_, rfl, fun hexited => by rw [hexited]⟩
    cases hforce : s.forceStop with
    | false => exact .drain hforce
    | true => exact .force hforce
  | notForced =>
    cases h
    refine ⟨_, ?_, rfl, fun hexited => by rw [hexited]⟩
    by_cases hactive : s.activeRequests = 0
    · rw [if_pos hactive]
      exact .leave hactive
    · rw [if_neg hactive]
      exact .stay hactive
  | handling o bytes error =>
    obtain ⟨req, -, rfl⟩ := Option.map_eq_some_iff.mp h
    split
    · exact ⟨_, .resubmit o bytes error, rfl, by simp⟩
    · exact ⟨_, .call o bytes error, rfl, by simp⟩
  | recycling r =>
    cases h
    exact ⟨_, .recycle r, rfl, by simp⟩
  | exited => cases h

theorem step_workerStep {s t : IocpManager} {a : IocpAct} (h : s.step a = some t) :
    s.WorkerStep t := by
  cases a with
  | submitOperation type extensions size =>
    simp only [step] at h
    split at h
    · cases h
    · cases h
      exact .none (s.submitOperation_submits type extensions size).workers
  | post i success => exact .none (post_submits h).workers
  | submitCloseRequest valid =>
    cases h
    exact .none (s.submitCloseRequest_submits valid).workers
  | closesocket i success => exact .none (closesocket_submits h).workers
  | putRequest i => exact .none (returnRequest_submits h).workers
  | complete k bytes error =>
    obtain ⟨o, -, rfl⟩ := Option.map_eq_some_iff.mp h
    exact .none rfl
  | take w j =>
    simp only [step, take] at h
    split at h
    · rename_i infinite hworker hpacket
      cases h
      exact .moved hworker (.wake infinite) rfl (by simp)
    · rename_i infinite o bytes error hworker hpacket
      cases h
      exact .moved hworker (.take infinite o bytes error) rfl (by simp)
    · cases h
  | noPacket w =>
    simp only [step] at h
    split at h
    · rename_i infinite hworker
      cases h
      exact .moved hworker (.wake infinite) rfl (by simp)
    · cases h
  | work w wsaError =>
    obtain ⟨worker, hworker, hwork⟩ := Option.bind_eq_some_iff.mp h
    obtain ⟨new, hmove, hnew, hexited⟩ := work_workerMove hwork
    exact .moved hworker hmove hnew hexited
  | exit =>
    cases h
    exact .none rfl
  | stop =>
    cases h
    unfold stop
    split <;> exact .none rfl
  | postWakeUp =>
    simp only [step] at h
    split at h
    · cases h
      exact .none rfl
    · cases h
  | join =>
    simp only [step] at h
    split at h
    · cases h
      exact .none rfl
    · cases h
  | clear =>
    simp only [step] at h
    split at h
    · cases h
      exact .none rfl
    · cases h

end IocpManager

end Lmnet.Windows
