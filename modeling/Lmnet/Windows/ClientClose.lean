import Lmnet.Lib.Lists
import Lmnet.Lib.Machine

/-!
How `TcpServerImpl` closes a client: `HandleReceive` on the thread of the task queue and
`HandleSend` on the IOCP workers both come to `HandleClientClose`, which finds the
session, tells the listener, removes the session and closes the socket one after the
other.
-/

set_option autoImplicit false

namespace Lmnet.Windows

def WSA_OPERATION_ABORTED : Nat := 995
def ERROR_OPERATION_ABORTED : Nat := 995
def ERROR_NETNAME_DELETED : Nat := 64
def ERROR_CONNECTION_ABORTED : Nat := 1236
def WSAESHUTDOWN : Nat := 10058
def WSAENOTSOCK : Nat := 10038

def isExpectedSocketShutdownError (error : Nat) : Bool :=
  error = WSA_OPERATION_ABORTED || error = ERROR_OPERATION_ABORTED ||
    error = ERROR_NETNAME_DELETED || error = ERROR_CONNECTION_ABORTED ||
    error = WSAESHUTDOWN || error = WSAENOTSOCK

inductive CloseEvent where
  | onError (reason : String)
  | onClose
  | closesocket
  deriving DecidableEq, Repr

namespace CloseEvent

def isError : CloseEvent → Bool
  | .onError _ => true
  | .onClose | .closesocket => false

end CloseEvent

/-- Where a thread stands in `HandleSend` or `HandleClientClose`. -/
inductive Closing where
  | handleSend (error : Nat)
  | sendError (error : Nat)
  | handleClientClose (isError : Bool) (reason : String)
  | found (isError : Bool) (reason : String)
  | onClose
  | removeSession
  | closesocket
  | returned
  deriving DecidableEq, Repr

structure ReceiveTask where
  bytesReceived : Nat
  error : Nat
  deriving DecidableEq, Repr

namespace ReceiveTask

/-- The arguments of the `HandleClientClose` that `HandleReceive` calls; for data it
calls none. -/
def handleReceive (task : ReceiveTask) : Option (Bool × String) :=
  if task.error ≠ 0 then
    if isExpectedSocketShutdownError task.error then
      some (false, "Connection closed during shutdown")
    else
      some (true, "Receive error: " ++ toString task.error)
  else if task.bytesReceived = 0 then
    some (false, "Connection closed by peer")
  else
    none

end ReceiveTask

/-- A client of the server. `session` says that `sessions_` has its session. -/
structure ClientSocket where
  isRunning : Bool
  session : Bool
  tasks : List ReceiveTask
  taskThread : Closing
  workers : List Closing
  events : List CloseEvent
  deriving DecidableEq, Repr

inductive CloseAct where
  | receiveComplete (task : ReceiveTask)
  | runTask
  | taskStep (alive : Bool)
  | sendComplete (error : Nat)
  | workerStep (i : Nat) (alive : Bool)
  deriving DecidableEq, Repr

namespace ClientSocket

def accepted (isRunning : Bool) : ClientSocket := ⟨isRunning, true, [], .returned, [], []⟩

def emit (s : ClientSocket) (e : CloseEvent) : ClientSocket := { s with events := s.events ++ [e] }

/-- The next critical section, call of the listener or `closesocket` of a thread; `alive`
is what `listener_.lock()` finds. -/
def advance (s : ClientSocket) (alive : Bool) : Closing → ClientSocket × Closing
  | .handleSend error =>
      (s, if error ≠ 0 ∧ s.isRunning = true then .sendError error else .returned)
  | .sendError error =>
      (s, if s.session && !isExpectedSocketShutdownError error then
        .handleClientClose true ("Send error: " ++ toString error) else .returned)
  | .handleClientClose isError reason =>
      (s, if s.session then .found isError reason else .returned)
  | .found isError reason =>
      if alive then
        if isError then (s.emit (.onError reason), .onClose)
        else (s.emit .onClose, .removeSession)
      else (s, .removeSession)
  | .onClose => (s.emit .onClose, .removeSession)
  | .removeSession => ({ s with session := false }, .closesocket)
  | .closesocket => (s.emit .closesocket, .returned)
  | .returned => (s, .returned)

def runTask (s : ClientSocket) : Option ClientSocket :=
  match s.taskThread, s.tasks with
  | .returned, task :: rest =>
      task.handleReceive.map fun (isError, reason) =>
        { s with tasks := rest, taskThread := .handleClientClose isError reason }
  | _, _ => none

/-- Reads that end with data are not among the steps. -/
def step (s : ClientSocket) : CloseAct → Option ClientSocket
  | .receiveComplete task =>
      if task.handleReceive.isSome then some { s with tasks := s.tasks ++ [task] } else none
  | .runTask => s.runTask
  | .taskStep alive =>
      let (s', pc) := s.advance alive s.taskThread
      some { s' with taskThread := pc }
  | .sendComplete error => some { s with workers := s.workers ++ [.handleSend error] }
  | .workerStep i alive =>
      match s.workers[i]? with
      | none => none
      | some pc =>
          let (s', pc') := s.advance alive pc
          some { s' with workers := s'.workers.set i pc' }

def machine : Machine ClientSocket CloseAct where
  init s := s = accepted s.isRunning
  step := step

def threads (s : ClientSocket) : List Closing := s.taskThread :: s.workers

end ClientSocket

def CloseAct.thread : CloseAct → Option Nat
  | .taskStep _ => some 0
  | .workerStep i _ => some (i + 1)
  | .receiveComplete _ | .runTask | .sendComplete _ => none

namespace Closing

def looksUp : Closing → Bool
  | .handleClientClose _ _ => true
  | _ => false

def mayError : Closing → Bool
  | .found _ _ => true
  | _ => false

def mayClose : Closing → Bool
  | .found _ _ | .onClose => true
  | _ => false

def hasFound : Closing → Bool
  | .found _ _ | .onClose | .removeSession => true
  | _ => false

def closes : Closing → Bool
  | .found _ _ | .onClose | .removeSession | .closesocket => true
  | _ => false

end Closing

namespace ClientSocket

/-- The listener gets `OnClose` and `OnError` at most once each, and the socket is
closed at most once. -/
structure ClosedOnce (s : ClientSocket) : Prop where
  onClose : s.events.count .onClose ≤ 1
  onError : s.events.countP CloseEvent.isError ≤ 1
  closesocket : s.events.count .closesocket ≤ 1

/-- A `HandleClientClose` that finds the session is alone with it: whoever found it
before has removed it. -/
def Alone (s : ClientSocket) (a : CloseAct) (_ : ClientSocket) : Prop :=
  ∀ i pc, a.thread = some i → s.threads[i]? = some pc → pc.looksUp = true → s.session = true →
    ∀ other ∈ s.threads, other.hasFound = false

def finds (s : ClientSocket) : Nat := s.threads.countP Closing.closes + s.events.count .closesocket

inductive Steps (s : ClientSocket) (a : CloseAct) : ClientSocket → Prop where
  | handed {t : ClientSocket} (hthread : a.thread = none) (hsession : t.session = s.session)
      (hevents : t.events = s.events)
      (hcount : ∀ p : Closing → Bool, (∀ pc, pc.closes = false → p pc = false) →
        t.threads.countP p = s.threads.countP p) : Steps s a t
  | advanced {t : ClientSocket} {i : Nat} {pc : Closing} {alive : Bool}
      (hthread : a.thread = some i) (hpc : s.threads[i]? = some pc)
      (hsession : t.session = (s.advance alive pc).1.session)
      (hevents : t.events = (s.advance alive pc).1.events)
      (hthreads : t.threads = s.threads.set i (s.advance alive pc).2) : Steps s a t

@[simp] theorem advance_workers (s : ClientSocket) (alive : Bool) (pc : Closing) :
    (s.advance alive pc).1.workers = s.workers := by
  cases pc with
  | found isError reason => cases alive <;> cases isError <;> rfl
  | _ => rfl

@[simp] theorem advance_taskThread (s : ClientSocket) (alive : Bool) (pc : Closing) :
    (s.advance alive pc).1.taskThread = s.taskThread := by
  cases pc with
  | found isError reason => cases alive <;> cases isError <;> rfl
  | _ => rfl

theorem step_cases {s t : ClientSocket} {a : CloseAct} (h : s.step a = some t) :
    s.Steps a t := by
  cases a with
  | receiveComplete task =>
    simp only [step] at h
    split at h
    · cases h
      exact .handed rfl rfl rfl fun _ _ => rfl
    · cases h
  | runTask =>
    simp only [step, runTask] at h
    split at h
    · rename_i task rest hthread htasks
      obtain ⟨⟨isError, reason⟩, -, rfl⟩ := Option.map_eq_some_iff.mp h
      refine .handed rfl rfl rfl fun p hp => ?_
      have hreturned := hp .returned rfl
      have hcalled := hp (.handleClientClose isError reason) rfl
      simp [threads, hthread, hreturned, hcalled]
    · cases h
  | taskStep alive =>
    simp only [step, Option.some.injEq] at h
    subst h
    exact .advanced (i := 0) rfl rfl rfl rfl (by simp [threads])
  | sendComplete error =>
    simp only [step, Option.some.injEq] at h
    subst h
    refine .handed rfl rfl rfl fun p hp => ?_
    have hcalled := hp (.handleSend error) rfl
    simp [threads, List.countP_cons, hcalled]
  | workerStep i alive =>
    simp only [step] at h
    split at h
    · cases h
    · rename_i pc hpc
      cases h
      exact .advanced (i := i + 1) rfl (by simpa [threads] using hpc) rfl rfl (by simp [threads])

/-- A thread that finds the session will call `closesocket` once, and one that is on its
way there has called it or will. -/
theorem advance_closesocket (s : ClientSocket) (alive : Bool) (pc : Closing) :
    (s.advance alive pc).1.events.count .closesocket + (s.advance alive pc).2.closes.toNat =
      s.events.count .closesocket + pc.closes.toNat + (pc.looksUp && s.session).toNat := by
  cases pc with
  | handleSend error | sendError error =>
    simp only [advance]
    split <;> rfl
  | handleClientClose isError reason =>
    cases hs : s.session <;> simp [advance, hs, Closing.closes, Closing.looksUp]
  | found isError reason =>
    cases alive <;> cases isError <;> simp [advance, emit, Closing.closes, Closing.looksUp]
  | onClose | removeSession | closesocket | returned =>
    simp [advance, emit, Closing.closes, Closing.looksUp]

theorem advance_onClose (s : ClientSocket) (alive : Bool) (pc : Closing) :
    (s.advance alive pc).1.events.count .onClose + (s.advance alive pc).2.mayClose.toNat ≤
      s.events.count .onClose + pc.mayClose.toNat + (pc.looksUp && s.session).toNat := by
  cases pc with
  | handleSend error | sendError error =>
    simp only [advance]
    split <;> exact Nat.le_refl _
  | handleClientClose isError reason =>
    cases hs : s.session <;> simp [advance, hs, Closing.mayClose, Closing.looksUp]
  | found isError reason =>
    cases alive <;> cases isError <;> simp [advance, emit, Closing.mayClose, Closing.looksUp]
  | onClose | removeSession | closesocket | returned =>
    simp [advance, emit, Closing.mayClose, Closing.looksUp]

theorem advance_onError (s : ClientSocket) (alive : Bool) (pc : Closing) :
    (s.advance alive pc).1.events.countP CloseEvent.isError +
        (s.advance alive pc).2.mayError.toNat ≤
      s.events.countP CloseEvent.isError + pc.mayError.toNat + (pc.looksUp && s.session).toNat := by
  cases pc with
  | handleSend error | sendError error =>
    simp only [advance]
    split <;> exact Nat.le_refl _
  | handleClientClose isError reason =>
    cases hs : s.session <;> simp [advance, hs, Closing.mayError, Closing.looksUp]
  | found isError reason =>
    cases alive <;> cases isError <;>
      simp [advance, emit, Closing.mayError, Closing.looksUp, CloseEvent.isError]
  | onClose | removeSession | closesocket | returned =>
    simp [advance, emit, Closing.mayError, Closing.looksUp, CloseEvent.isError]

theorem advance_present {s : ClientSocket} {alive : Bool} {pc : Closing}
    (h : (s.advance alive pc).1.session = true) (hpc : pc ≠ .closesocket) :
    s.session = true ∧ (s.advance alive pc).2 ≠ .closesocket ∧
      (.closesocket ∈ (s.advance alive pc).1.events ↔ .closesocket ∈ s.events) := by
  cases pc with
  | handleSend error | sendError error =>
    simp only [advance] at h ⊢
    split <;> simp [h]
  | handleClientClose isError reason =>
    simp only [advance] at h ⊢
    simp [h]
  | found isError reason =>
    cases alive <;> cases isError <;> simp_all [advance, emit]
  | onClose => simp_all [advance, emit]
  | removeSession => simp [advance] at h
  | closesocket => exact absurd rfl hpc
  | returned => simp_all [advance]

/-- A session that is still there has not led to `closesocket`, and each find accounts for
one `OnClose` and one `OnError` at most. -/
structure Inv (s : ClientSocket) : Prop where
  present : s.session = true → .closesocket ∉ s.threads ∧ .closesocket ∉ s.events
  closes : s.events.count .onClose + s.threads.countP Closing.mayClose ≤ s.finds
  errors : s.events.countP CloseEvent.isError + s.threads.countP Closing.mayError ≤ s.finds

theorem inv_accepted (isRunning : Bool) : (accepted isRunning).Inv where
  present _ := ⟨by simp [accepted, threads], List.not_mem_nil⟩
  closes := Nat.le_refl 0
  errors := Nat.le_refl 0

theorem finds_advanced {s t : ClientSocket} {i : Nat} {pc : Closing} {alive : Bool}
    (hpc : s.threads[i]? = some pc) (hevents : t.events = (s.advance alive pc).1.events)
    (hthreads : t.threads = s.threads.set i (s.advance alive pc).2) :
    t.finds = s.finds + (pc.looksUp && s.session).toNat := by
  have hset := List.countP_set_add (p := Closing.closes) (a := (s.advance alive pc).2) hpc
  have hspec := advance_closesocket s alive pc
  rw [finds, finds, hevents, hthreads]
  omega

theorem Inv.finds_eq_zero {s : ClientSocket} (hs : s.Inv) (hsession : s.session = true)
    (h : ∀ pc ∈ s.threads, pc.hasFound = false) : s.finds = 0 := by
  obtain ⟨hthreads, hevents⟩ := hs.present hsession
  have hcloses : s.threads.countP Closing.closes = 0 := by
    rw [List.countP_eq_zero]
    intro pc hpc hcloses
    have hfound := h pc hpc
    cases pc with
    | closesocket => exact hthreads hpc
    | handleSend | sendError | handleClientClose | returned => cases hcloses
    | found | onClose | removeSession => cases hfound
  rw [finds, hcloses, List.count_eq_zero_of_not_mem hevents]

theorem Steps.inv {s t : ClientSocket} {a : CloseAct} (h : s.Steps a t) (hs : s.Inv) :
    t.Inv := by
  cases h with
  | handed hthread hsession hevents hcount =>
    have hsocket := hcount (· == .closesocket) (by rintro (_ | _) <;> simp [Closing.closes])
    have hclose := hcount Closing.mayClose (by
      rintro (_ | _) <;> simp [Closing.closes, Closing.mayClose])
    have herror := hcount Closing.mayError (by
      rintro (_ | _) <;> simp [Closing.closes, Closing.mayError])
    have hfinds : t.finds = s.finds := by
      rw [finds, finds, hevents, hcount Closing.closes fun _ h => h]
    constructor
    · rw [hsession, hevents, ← List.count_eq_zero, List.count, hsocket, ← List.count,
        List.count_eq_zero]
      exact hs.present
    · rw [hevents, hclose, hfinds]
      exact hs.closes
    · rw [hevents, herror, hfinds]
      exact hs.errors
  | @advanced i pc alive hthread hpc hsession hevents hthreads =>
    have hfinds := finds_advanced hpc hevents hthreads
    constructor
    · intro hpresent
      rw [hsession] at hpresent
      have hne : pc ≠ .closesocket := by
        rintro rfl
        have hmem := List.mem_of_getElem? hpc
        exact (hs.present hpresent).1 hmem
      obtain ⟨hthere, hnext, hsame⟩ := advance_present hpresent hne
      obtain ⟨hnone, hnever⟩ := hs.present hthere
      rw [hevents, hsame, hthreads]
      refine ⟨fun hmem => ?_, hnever⟩
      rcases List.mem_or_eq_of_mem_set hmem with hmem | heq
      · exact hnone hmem
      · exact hnext heq.symm
    · have hset := List.countP_set_add (p := Closing.mayClose) (a := (s.advance alive pc).2) hpc
      have hspec := advance_onClose s alive pc
      have hclose := hs.closes
      rw [hevents, hthreads]
      omega
    · have hset := List.countP_set_add (p := Closing.mayError) (a := (s.advance alive pc).2) hpc
      have hspec := advance_onError s alive pc
      have herror := hs.errors
      rw [hevents, hthreads]
      omega

/-- The session is found anew only by a thread that looks it up while it is there, and a
step that is alone with it finds it for the first time. -/
theorem Steps.finds_cases {s t : ClientSocket} {a : CloseAct} (h : s.Steps a t) (hs : s.Inv) :
    s.finds ≤ t.finds ∧ (s.Alone a t → t.finds ≤ max s.finds 1) ∧
      (t.finds ≤ 1 → s.Alone a t) := by
  cases h with
  | handed hthread hsession hevents hcount =>
    have hfinds : t.finds = s.finds := by
      rw [finds, finds, hevents, hcount Closing.closes fun _ h => h]
    refine ⟨by omega, fun _ => by omega, fun _ i pc hi => ?_⟩
    rw [hthread] at hi
    cases hi
  | @advanced i pc alive hthread hpc hsession hevents hthreads =>
    have hfinds := finds_advanced hpc hevents hthreads
    refine ⟨by omega, fun halone => ?_, fun hle j other hj hother hlook hpresent => ?_⟩
    · cases hlook : pc.looksUp && s.session with
      | false =>
        rw [hlook, Bool.toNat_false] at hfinds
        omega
      | true =>
        obtain ⟨hlooks, hthere⟩ := Bool.and_eq_true_iff.mp hlook
        have hzero := hs.finds_eq_zero hthere (halone i pc hthread hpc hlooks hthere)
        rw [hlook, Bool.toNat_true] at hfinds
        omega
    · rw [hthread, Option.some.injEq] at hj
      subst hj
      rw [hpc, Option.some.injEq] at hother
      subst hother
      rw [hlook, hpresent, Bool.true_and, Bool.toNat_true] at hfinds
      have hfirst : s.finds = 0 := by omega
      have hzero : s.threads.countP Closing.closes = 0 := by
        rw [finds] at hfirst
        omega
      intro third hthird
      have hcloses := List.countP_eq_zero.mp hzero third hthird
      cases third <;> simp_all [Closing.closes, Closing.hasFound]

theorem Inv.closedOnce {s : ClientSocket} (hs : s.Inv) (h : s.finds ≤ 1) : s.ClosedOnce where
  onClose := by
    have hclose := hs.closes
    omega
  onError := by
    have herror := hs.errors
    omega
  closesocket := by
    rw [finds] at h
    omega

/-- In every interleaving in which no `HandleClientClose` finds the session while another
that has found it has not removed it, the listener and the socket are told once; and once
the threads are through, in no other. -/
theorem closed_once_iff (isRunning : Bool) {as : List CloseAct} {t : ClientSocket}
    (h : machine.run (accepted isRunning) as = some t) :
    (machine.Every Alone (accepted isRunning) as → t.ClosedOnce) ∧
      ((∀ pc ∈ t.threads, pc.closes = false) →
        (t.ClosedOnce ↔ machine.Every Alone (accepted isRunning) as)) := by
  have honce : machine.Every Alone (accepted isRunning) as → t.ClosedOnce := by
    intro halone
    have hinv := machine.run_invariant_of_every (I := fun s => s.Inv ∧ s.finds ≤ 1)
      (fun s a s' hs ha hC => by
        have hsteps := step_cases ha
        have hle := (hsteps.finds_cases hs.1).2.1 hC
        exact ⟨hsteps.inv hs.1, by have := hs.2; omega⟩)
      ⟨inv_accepted isRunning, Nat.zero_le 1⟩ halone h
    exact hinv.1.closedOnce hinv.2
  refine ⟨honce, fun hdone => ⟨fun hclosed => ?_, honce⟩⟩
  have hfinds : t.finds ≤ 1 := by
    have hnone : t.threads.countP Closing.closes = 0 :=
      List.countP_eq_zero.mpr fun pc hpc => by simp [hdone pc hpc]
    rw [finds, hnone, Nat.zero_add]
    exact hclosed.closesocket
  refine (machine.every_of_final (A := fun _ => True) (I := Inv) (Q := fun s => s.finds ≤ 1)
    (fun s a s' _ hs ha => (step_cases ha).inv hs) (fun s a s' _ hs ha hle => ?_)
    (fun _ _ => trivial) (inv_accepted isRunning) h hfinds).2
  obtain ⟨hmono, -, halone⟩ := (step_cases ha).finds_cases hs
  exact ⟨Nat.le_trans hmono hle, halone hle⟩

/-- A read and a send of one broken connection complete together. -/
def bothFail : List CloseAct :=
  [.receiveComplete ⟨0, 10054⟩, .sendComplete 10054, .runTask, .workerStep 0 true,
    .workerStep 0 true] ++ (List.replicate 5 [.taskStep true, .workerStep 0 true]).flatten

def oneAfterTheOther : List CloseAct :=
  [.receiveComplete ⟨0, 10054⟩, .sendComplete 10054, .runTask, .taskStep true, .taskStep true,
    .taskStep true, .taskStep true, .taskStep true, .workerStep 0 true, .workerStep 0 true]

theorem closed_once_iff_oneAfterTheOther :
    machine.Every Alone (accepted true) oneAfterTheOther ∧
      ∃ t, machine.run (accepted true) oneAfterTheOther = some t ∧ t.ClosedOnce := by
  have hrun : machine.run (accepted true) oneAfterTheOther = some ⟨true, false, [], .returned,
      [.returned], [.onError "Receive error: 10054", .onClose, .closesocket]⟩ := by decide
  have honce := closed_once_iff true hrun
  have halone := (honce.2 (by decide)).mp ⟨by decide, by decide, by decide⟩
  exact ⟨halone, _, hrun, honce.1 halone⟩

/-- The worker and the task queue both find the session: everything happens twice. -/
theorem both_find_session :
    ∃ t, machine.run (accepted true) bothFail = some t ∧ ¬ t.ClosedOnce ∧
      t.events.count .onClose = 2 ∧ t.events.countP CloseEvent.isError = 2 ∧
      t.events.count .closesocket = 2 := by
  have hrun : machine.run (accepted true) bothFail = some ⟨true, false, [], .returned,
      [.returned], [.onError "Receive error: 10054", .onError "Send error: 10054", .onClose,
        .onClose, .closesocket, .closesocket]⟩ := by decide
  exact ⟨_, hrun, fun h => absurd h.onClose (by decide), by decide, by decide, by decide⟩

end ClientSocket

end Lmnet.Windows
