import Mathlib.Algebra.Group.Nat.Defs
import Mathlib.Data.Nat.Log
import Lmnet.IoUring.RequestLifeCycle
import Lmnet.Lib.Progress

/-!
`Init` and `Exit` of `IoUringManager` around the life cycle of its requests. `Exit` takes the
worker thread, sends it the exit request, joins it, and releases the ring and the pool.
Submissions come from any thread, and from the callbacks that the worker runs.
-/

set_option autoImplicit false

namespace Lmnet.IoUring

inductive ExitCall where
  | submitting | joining | releasing | returned
  deriving DecidableEq, Repr

inductive WorkerThread where
  | none | running | left
  deriving DecidableEq, Repr

inductive ExitRound where
  | noSqe (ret : Int)
  | submit (ret : Int)
  deriving DecidableEq, Repr

/-- A use of the ring or of a request that is not there any more, or a ring that is replaced
while it is in use. -/
inductive Misuse where
  | ring | request
  deriving DecidableEq, Repr

def Stage.holding : Stage → Bool
  | .cleared .. | .prepared _ | .failed .. | .putting _ => true
  | .begun .. | .checked .. | .rejecting _ | .returned _ => false

def Stage.inside : Stage → Bool
  | .checked .. => true
  | c => c.holding

def Stage.finished : Stage → Bool
  | .returned _ => true
  | _ => false

def LifeAct.ofWorker : LifeAct → Bool
  | .waitCqe | .handleCompletion | .workerPut => true
  | _ => false

def Worker.holding : Worker → Bool
  | .waiting => false
  | .handling _ | .putting _ => true

def LifeCycle.inRing (s : LifeCycle) : List Nat :=
  s.manager.prepared.map (·.op) ++ s.manager.inflight.map (·.op) ++ s.cq.map (·.1.op)

/-- `life.manager.isRunning` is what `SubmitOperation` asks for, both flags. `workerCalls` are
the calls that the callback under way has made. `exitPosted` is how many completions the
worker will find in front of the exit request. `dangling` are the calls whose request was
released under them, and `lost` the operations that the ring had when it was released. -/
structure ManagerLife where
  life : LifeCycle
  isRunning : Bool
  ringInitialized : Bool
  ringAlive : Bool
  hasWorker : Bool
  thread : WorkerThread
  workerCalls : List Nat
  exitPrepared : Nat
  exitInflight : Nat
  exitPosted : Option Nat
  exits : List ExitCall
  dangling : List Nat
  workerDangling : Bool
  lost : List Nat
  misuses : List Misuse
  deriving DecidableEq, Repr

/-- `life` is a move of a `SubmitOperation` call, of the kernel or of the worker, `exit` a call
of `Exit` up to the end of its first critical section. -/
inductive ManagerAct where
  | life (a : LifeAct)
  | submitFromCallback (type : RequestType) (fd : Fd)
  | init (entries : Nat) (initialized : Bool)
  | exit
  | submitExit (e : Nat) (round : ExitRound)
  | completeExit
  | takeExit
  | join (e : Nat)
  | release (e : Nat)
  deriving DecidableEq, Repr

namespace ManagerLife

def created : ManagerLife where
  life := ⟨⟨false, [], [], [], []⟩, [], .waiting, [], []⟩
  isRunning := false
  ringInitialized := false
  ringAlive := false
  hasWorker := false
  thread := .none
  workerCalls := []
  exitPrepared := 0
  exitInflight := 0
  exitPosted := none
  exits := []
  dangling := []
  workerDangling := false
  lost := []
  misuses := []

def holds (s : ManagerLife) (i : Nat) : Bool := s.life.calls[i]?.any Stage.holding

def inside (s : ManagerLife) (i : Nat) : Bool := s.life.calls[i]?.any Stage.inside

def finished (s : ManagerLife) (i : Nat) : Bool := s.life.calls[i]?.any Stage.finished

def holders (s : ManagerLife) : List Nat := (List.range s.life.calls.length).filter s.holds

def inRing (s : ManagerLife) : List Nat := s.life.inRing

def badRing (s : ManagerLife) : List Misuse := if s.ringAlive then [] else [.ring]

def badRequest (s : ManagerLife) (i : Nat) : List Misuse :=
  if i ∈ s.dangling then [.request] else []

def badWorker (s : ManagerLife) : List Misuse := if s.workerDangling then [.request] else []

def misusesOf (s : ManagerLife) : LifeAct → List Misuse
  | .submitOperation _ _ | .check _ | .getRequest _ | .reject _ | .complete _ _ => []
  | .initRequest i | .completeWithError i | .putRequest i => s.badRequest i
  | .ring i _ => s.badRing ++ s.badRequest i
  | .waitCqe => s.badRing
  | .handleCompletion => s.badWorker
  | .workerPut => s.badRing ++ s.badWorker

/-- How many entries the submission ring has: `io_uring_queue_init` rounds up to a power of
two. -/
def capacity (s : ManagerLife) : Nat := 2 ^ Nat.clog 2 s.life.manager.requestPool.length

def full (s : ManagerLife) : Bool :=
  s.capacity ≤ s.life.manager.prepared.length + s.exitPrepared

/-- `SubmitOperation` gets an entry just when there is one. The worker moves while its thread is
in the loop, takes a completion when the exit request is not the next, and goes on from a
callback when the calls that it has made have returned. -/
def mayMove (s : ManagerLife) : LifeAct → Bool
  | .ring _ .noSqe => s.full
  | .ring _ (.submit _) => !s.full
  | .waitCqe => s.thread = .running && s.exitPosted ≠ some 0
  | .handleCompletion => s.thread = .running
  | .workerPut => s.thread = .running && s.workerCalls.all s.finished
  | _ => true

/-- Exit entries that were prepared go to the kernel with the entry that is submitted. -/
def handOver (s : ManagerLife) : ManagerLife :=
  { s with exitPrepared := 0, exitInflight := s.exitInflight + s.exitPrepared }

def after (s : ManagerLife) : LifeAct → ManagerLife
  | .ring _ (.submit ret) => if 0 ≤ ret then s.handOver else s
  | .waitCqe => { s with exitPosted := s.exitPosted.map (· - 1) }
  | .workerPut => { s with workerCalls := [], workerDangling := false }
  | _ => s

def lifeStep (s : ManagerLife) (a : LifeAct) : Option ManagerLife :=
  if s.mayMove a then
    (s.life.step a).map fun life =>
      after { s with life := life, misuses := s.misuses ++ s.misusesOf a } a
  else none

/-- A `SubmitOperation` call from the callback that the worker is in. -/
def submitFromCallback (s : ManagerLife) (type : RequestType) (fd : Fd) : Option ManagerLife :=
  match s.thread, s.life.worker with
  | .running, .putting _ => some { s with
      life := { s.life with calls := s.life.calls ++ [.begun type fd] }
      workerCalls := s.workerCalls ++ [s.life.calls.length] }
  | _, _ => none

/-- The pool is cleared, whoever holds a request of it. -/
def dropPool (s : ManagerLife) : ManagerLife :=
  { s with
    life := { s.life with
      manager := { s.life.manager with requestPool := [], freeRequests := [] } }
    dangling := s.dangling ++ s.holders
    workerDangling := s.workerDangling || s.life.worker.holding }

/-- The kernel may still be at work on requests of the pool that `Init` clears, or on the ring
that it replaces. -/
def badInit (s : ManagerLife) (initialized : Bool) : List Misuse :=
  (if s.inRing = [] then [] else [.request]) ++
    (if initialized && s.ringAlive then [.ring] else [])

def init (s : ManagerLife) (entries : Nat) (initialized : Bool) : ManagerLife :=
  if s.isRunning then s
  else if initialized then
    { s.dropPool with
      life := { s.life with manager := .init entries, cq := [], worker := .waiting }
      isRunning := true
      ringInitialized := true
      ringAlive := true
      hasWorker := true
      thread := .running
      workerCalls := []
      exitPrepared := 0
      exitInflight := 0
      exitPosted := none
      lost := s.lost ++ s.inRing
      misuses := s.misuses ++ s.badInit true }
  else { s.dropPool with misuses := s.misuses ++ s.badInit false }

def exit (s : ManagerLife) : ManagerLife :=
  if s.ringInitialized then
    { s with
      life := { s.life with manager := { s.life.manager with isRunning := false } }
      isRunning := false
      hasWorker := false
      exits := s.exits ++ [if s.hasWorker then .submitting else .releasing] }
  else { s with exits := s.exits ++ [.returned] }

def flush (s : ManagerLife) : ManagerLife :=
  handOver { s with
    life := { s.life with
      manager := { s.life.manager with
        prepared := []
        inflight := s.life.manager.inflight ++ s.life.manager.prepared } } }

def setExit (s : ManagerLife) (e : Nat) (c : ExitCall) : ManagerLife :=
  { s with exits := s.exits.set e c }

/-- A round of `SubmitExitRequest` that did not send the exit request; the loop ends when the
ring is found released. -/
def tryAgain (s : ManagerLife) (e : Nat) : ManagerLife :=
  if s.ringInitialized then s else s.setExit e .joining

def submitExit (s : ManagerLife) (e : Nat) (round : ExitRound) : Option ManagerLife :=
  if s.exits[e]? = some .submitting then
    let s := { s with misuses := s.misuses ++ s.badRing }
    match round with
    | .noSqe ret => if s.full then some ((if 0 ≤ ret then s.flush else s).tryAgain e) else none
    | .submit ret =>
        if s.full then none
        else
          let s := { s with exitPrepared := s.exitPrepared + 1 }
          if 0 ≤ ret then some (s.flush.setExit e .joining) else some (s.tryAgain e)
  else none

/-- The kernel is done with an exit request, which is a `nop`; the first one counts. -/
def completeExit (s : ManagerLife) : Option ManagerLife :=
  if s.exitInflight = 0 then none
  else some { s with
    exitInflight := s.exitInflight - 1
    exitPosted := some (s.exitPosted.getD s.life.cq.length) }

def takeExit (s : ManagerLife) : Option ManagerLife :=
  if s.thread = .running ∧ s.life.worker = .waiting ∧ s.exitPosted = some 0 then
    some { s with
      thread := .left
      exitPosted := none
      misuses := s.misuses ++ s.badRing }
  else none

def join (s : ManagerLife) (e : Nat) : Option ManagerLife :=
  if s.exits[e]? = some .joining ∧ s.thread = .left then
    some ({ s with thread := .none }.setExit e .releasing)
  else none

def release (s : ManagerLife) (e : Nat) : Option ManagerLife :=
  if s.exits[e]? = some .releasing then
    some ({ s.dropPool with
      life := { s.life with manager := ⟨false, [], [], [], []⟩, cq := [] }
      ringInitialized := false
      ringAlive := false
      exitPrepared := 0
      exitInflight := 0
      exitPosted := none
      lost := s.lost ++ s.inRing
      misuses := s.misuses ++ s.badRing }.setExit e .returned)
  else none

def step (s : ManagerLife) : ManagerAct → Option ManagerLife
  | .life a => s.lifeStep a
  | .submitFromCallback type fd => s.submitFromCallback type fd
  | .init entries initialized => some (s.init entries initialized)
  | .exit => some s.exit
  | .submitExit e round => s.submitExit e round
  | .completeExit => s.completeExit
  | .takeExit => s.takeExit
  | .join e => s.join e
  | .release e => s.release e

def machine : Machine ManagerLife ManagerAct where
  init s := s = created
  step := step

def NoExit (s : ManagerLife) : Prop := ∀ c ∈ s.exits, c = .returned

/-- `Init` and `Exit` find no call of `Exit` under way; and `Exit` finds no other thread than
the worker's in `SubmitOperation` past the look at the flags. -/
def Exclusive (s : ManagerLife) : ManagerAct → Prop
  | .init _ _ => s.NoExit
  | .exit => s.NoExit ∧ (s.ringInitialized = true → ∀ i, s.inside i = true → i ∈ s.workerCalls)
  | _ => True

end ManagerLife

namespace LifeCycle

inductive CallsMove (s s' : LifeCycle) : Prop where
  | same (h : s'.calls = s.calls)
  | begun (type : RequestType) (fd : Fd) (h : s'.calls = s.calls ++ [.begun type fd])
  | on (i : Nat) (b c : Stage) (hi : s.calls[i]? = some b) (h : s'.calls = s.calls.set i c)
      (hfinished : b.finished = false)
      (hinside : c.inside = true → b.inside = true ∨ s.manager.isRunning = true)

theorem getRequest_callsMove {s s' : LifeCycle} {i : Nat} (h : s.getRequest i = some s') :
    s.CallsMove s' := by
  unfold getRequest at h
  split at h
  · rename_i type fd hi
    split at h
    · cases h
      exact .on i _ _ hi rfl rfl nofun
    · cases h
      exact .on i _ _ hi rfl rfl fun _ => .inl rfl
  · cases h

theorem step_callsMove {s s' : LifeCycle} {a : LifeAct} (h : s.step a = some s') :
    s.CallsMove s' := by
  cases a with
  | submitOperation type fd =>
    cases h
    exact .begun type fd rfl
  | check i =>
    obtain ⟨type, fd, hi, rfl⟩ := check_cases h
    refine .on i _ _ hi rfl rfl fun hinside => .inr ?_
    cases hrun : s.manager.isRunning with
    | true => rfl
    | false => simp [hrun, Stage.inside, Stage.holding] at hinside
  | getRequest i => exact getRequest_callsMove h
  | reject i =>
    simp only [step, reject] at h
    split at h
    · cases h
      exact .on i _ _ ‹_› rfl rfl nofun
    · cases h
  | initRequest i =>
    simp only [step, initRequest] at h
    split at h
    · cases h
      exact .on i _ _ ‹_› rfl rfl fun _ => .inl rfl
    · cases h
  | ring i o =>
    obtain ⟨r, hi, rfl⟩ := ring_cases h
    exact .on i _ _ hi rfl rfl fun _ => .inl rfl
  | completeWithError i =>
    simp only [step, completeWithError] at h
    split at h
    · cases h
      exact .on i _ _ ‹_› rfl rfl fun _ => .inl rfl
    · cases h
  | putRequest i =>
    simp only [step, putRequest] at h
    split at h
    · cases h
      exact .on i _ _ ‹_› rfl rfl nofun
    · cases h
  | complete k result =>
    simp only [step, complete] at h
    split at h
    · cases h
      exact .same rfl
    · cases h
  | waitCqe =>
    simp only [step, waitCqe] at h
    split at h
    · cases h
      exact .same rfl
    · cases h
  | handleCompletion =>
    simp only [step, handleCompletion] at h
    split at h
    · cases h
      exact .same rfl
    · cases h
  | workerPut =>
    simp only [step, workerPut] at h
    split at h
    · cases h
      exact .same rfl
    · cases h

theorem any_getElem? {calls : List Stage} {p : Stage → Bool} {i : Nat} :
    calls[i]?.any p = true ↔ ∃ c, calls[i]? = some c ∧ p c = true :=
  Option.any_eq_true p _

theorem CallsMove.inside {s s' : LifeCycle} (h : s.CallsMove s')
    (hrun : s.manager.isRunning = false) {i : Nat}
    (hi : s'.calls[i]?.any Stage.inside = true) : s.calls[i]?.any Stage.inside = true := by
  obtain ⟨c, hc, hinside⟩ := any_getElem?.mp hi
  refine any_getElem?.mpr ?_
  cases h with
  | same hcalls => exact ⟨c, hcalls ▸ hc, hinside⟩
  | begun type fd hcalls =>
    rw [hcalls] at hc
    obtain hc | ⟨-, rfl⟩ := List.getElem?_concat_some hc
    · exact ⟨c, hc, hinside⟩
    · cases hinside
  | on j b d hj hcalls hfinished hnext =>
    rw [hcalls] at hc
    obtain ⟨rfl, rfl⟩ | ⟨-, hc⟩ := List.getElem?_set_some hc
    · obtain hb | hb := hnext hinside
      · exact ⟨b, hj, hb⟩
      · rw [hrun] at hb
        cases hb
    · exact ⟨c, hc, hinside⟩

theorem CallsMove.finished {s s' : LifeCycle} (h : s.CallsMove s') {i : Nat}
    (hi : s.calls[i]?.any Stage.finished = true) : s'.calls[i]?.any Stage.finished = true := by
  obtain ⟨c, hc, hfinished⟩ := any_getElem?.mp hi
  refine any_getElem?.mpr ⟨c, ?_, hfinished⟩
  cases h with
  | same hcalls => exact hcalls ▸ hc
  | begun type fd hcalls =>
    rw [hcalls, List.getElem?_append_left (List.getElem?_eq_some_iff.mp hc).1, hc]
  | on j b d hj hcalls hunfinished _ =>
    have hne : j ≠ i := by
      rintro rfl
      rw [hj] at hc
      cases hc
      rw [hunfinished] at hfinished
      cases hfinished
    rw [hcalls, List.getElem?_set_ne hne, hc]

theorem step_isRunning {s s' : LifeCycle} {a : LifeAct} (h : s.step a = some s') :
    s'.manager.isRunning = s.manager.isRunning := by
  cases a with
  | submitOperation type fd =>
    cases h
    rfl
  | check i =>
    obtain ⟨type, fd, -, rfl⟩ := check_cases h
    rfl
  | getRequest i =>
    simp only [step, getRequest] at h
    split at h
    · split at h
      · cases h
        rfl
      · rename_i hget
        obtain ⟨rest, -, rfl⟩ := Manager.getRequest_eq_some hget
        cases h
        rfl
    · cases h
  | ring i o =>
    obtain ⟨r, -, rfl⟩ := ring_cases h
    cases o with
    | noSqe => rfl
    | submit ret =>
      simp only [Manager.ring]
      split <;> rfl
  | complete k result =>
    simp only [step, complete] at h
    split at h
    · rename_i hq
      obtain ⟨q, -, heq⟩ := Option.map_eq_some_iff.mp hq
      cases heq
      cases h
      rfl
    · cases h
  | reject i | initRequest i | completeWithError i | putRequest i | waitCqe | handleCompletion
  | workerPut =>
    simp only [step, reject, initRequest, completeWithError, putRequest, waitCqe,
      handleCompletion, workerPut] at h
    split at h
    · cases h
      rfl
    · cases h

/-- With nobody at work and nothing in the ring, only calls that are turned away go on. -/
theorem idle_step {s s' : LifeCycle} {a : LifeAct} (h : s.step a = some s')
    (ha : a.ofWorker = false)
    (hinside : ∀ i : Nat, s.calls[i]?.any Stage.inside = false) (hin : s.manager.inflight = []) :
    s'.manager = s.manager ∧ s'.cq = s.cq := by
  have hnone : ∀ {i : Nat} {c : Stage}, s.calls[i]? = some c → c.inside = false := by
    intro i c hc
    have hi := hinside i
    rw [hc] at hi
    exact hi
  cases a with
  | submitOperation type fd =>
    cases h
    exact ⟨rfl, rfl⟩
  | check i =>
    obtain ⟨type, fd, -, rfl⟩ := check_cases h
    exact ⟨rfl, rfl⟩
  | reject i =>
    simp only [step, reject] at h
    split at h
    · cases h
      exact ⟨rfl, rfl⟩
    · cases h
  | getRequest i | initRequest i | completeWithError i | putRequest i =>
    simp only [step, getRequest, initRequest, completeWithError, putRequest] at h
    split at h
    · cases hnone ‹_›
    · cases h
  | ring i o =>
    obtain ⟨r, hi, -⟩ := ring_cases h
    cases hnone hi
  | complete k result => simp [step, complete, Manager.complete, hin] at h
  | waitCqe | handleCompletion | workerPut => cases ha

/-- The worker waits until it takes a completion. -/
theorem waiting_step {s s' : LifeCycle} {a : LifeAct} (h : s.step a = some s')
    (ha : a.ofWorker = false) : s'.worker = s.worker := by
  cases a with
  | submitOperation type fd =>
    cases h
    rfl
  | check i =>
    obtain ⟨type, fd, -, rfl⟩ := check_cases h
    rfl
  | getRequest i =>
    simp only [step, getRequest] at h
    split at h
    · split at h
      · cases h
        rfl
      · cases h
        rfl
    · cases h
  | ring i o =>
    obtain ⟨r, -, rfl⟩ := ring_cases h
    rfl
  | complete k result =>
    simp only [step, complete] at h
    split at h
    · cases h
      rfl
    · cases h
  | reject i | initRequest i | completeWithError i | putRequest i =>
    simp only [step, reject, initRequest, completeWithError, putRequest] at h
    split at h
    · cases h
      rfl
    · cases h
  | waitCqe | handleCompletion | workerPut => cases ha

end LifeCycle

namespace ManagerLife

structure Quiet (s : ManagerLife) : Prop where
  calls : ∀ i, s.inside i = false
  worker : s.life.worker = .waiting

/-- Where the manager is between `Init` and the end of `Exit`. While `Exit` waits for the
worker, no call but those of the worker's callback is inside. -/
inductive Phase (s : ManagerLife) : Prop where
  | closed (hrun : s.isRunning = false) (hring : s.ringInitialized = false)
      (hthread : s.thread = .none) (hexits : s.NoExit) (hquiet : s.Quiet) (hempty : s.inRing = [])
  | running (hrun : s.isRunning = true) (hring : s.ringInitialized = true)
      (hworker : s.hasWorker = true) (hthread : s.thread = .running) (hexits : s.NoExit)
  | ending (done : List ExitCall) (stage : ExitCall) (hrun : s.isRunning = false)
      (hring : s.ringInitialized = true) (hexits : s.exits = done ++ [stage])
      (hdone : ∀ c ∈ done, c = .returned) (hstage : stage = .submitting ∨ stage = .joining)
      (hthread : s.thread = .running ∨ s.thread = .left ∧ s.life.worker = .waiting)
      (hinside : ∀ i, s.inside i = true → i ∈ s.workerCalls)
  | joined (done : List ExitCall) (hrun : s.isRunning = false) (hring : s.ringInitialized = true)
      (hexits : s.exits = done ++ [.releasing]) (hdone : ∀ c ∈ done, c = .returned)
      (hthread : s.thread = .none) (hquiet : s.Quiet)

/-- Nothing that is gone has been used, and nothing that is gone is in anybody's hands. The
calls of a callback return before it does. -/
structure Orderly (s : ManagerLife) : Prop where
  misuses : s.misuses = []
  dangling : s.dangling = []
  workerDangling : s.workerDangling = false
  manager : s.life.manager.isRunning = s.isRunning
  alive : s.ringAlive = s.ringInitialized
  noEntry : s.isRunning = true →
    s.exitPrepared = 0 ∧ s.exitInflight = 0 ∧ s.exitPosted = none
  workerCalls : ∀ i ∈ s.workerCalls, s.finished i = true ∨
    s.thread = .running ∧ ∃ r, s.life.worker = .putting r
  phase : s.Phase

theorem orderly_created : created.Orderly where
  misuses := rfl
  dangling := rfl
  workerDangling := rfl
  manager := rfl
  alive := rfl
  noEntry := nofun
  workerCalls := nofun
  phase := .closed rfl rfl rfl nofun ⟨fun _ => rfl, rfl⟩ rfl

theorem not_finished_of_inside {s : ManagerLife} {i : Nat} (h : s.inside i = true) :
    s.finished i = false := by
  obtain ⟨c, hc, hinside⟩ := LifeCycle.any_getElem?.mp h
  simp only [finished, hc, Option.any_some]
  cases c with
  | returned accepted => cases hinside
  | _ => rfl

theorem mem_holders {s : ManagerLife} {i : Nat} : i ∈ s.holders ↔ s.holds i = true := by
  refine List.mem_filter.trans (and_iff_right_of_imp fun hi => ?_)
  obtain ⟨c, hc, -⟩ := LifeCycle.any_getElem?.mp hi
  exact List.mem_range.mpr (List.getElem?_eq_some_iff.mp hc).1

theorem inside_of_holds {s : ManagerLife} {i : Nat} (h : s.holds i = true) :
    s.inside i = true := by
  obtain ⟨c, hc, hholding⟩ := LifeCycle.any_getElem?.mp h
  refine LifeCycle.any_getElem?.mpr ⟨c, hc, ?_⟩
  cases c <;> first | rfl | cases hholding

theorem Quiet.holders {s : ManagerLife} (h : s.Quiet) : s.holders = [] := by
  refine List.eq_nil_iff_forall_not_mem.mpr fun i hi => ?_
  have hinside := inside_of_holds (mem_holders.mp hi)
  rw [h.calls i] at hinside
  cases hinside

theorem Orderly.badRing {s : ManagerLife} (h : s.Orderly) (hthread : s.thread ≠ .none) :
    s.badRing = [] := by
  have hring : s.ringInitialized = true := by
    cases h.phase with
    | closed _ _ hnone => exact absurd hnone hthread
    | running _ hring => exact hring
    | ending _ _ _ hring => exact hring
    | joined _ _ hring => exact hring
  simp [ManagerLife.badRing, h.alive, hring]

theorem Orderly.badRing_of_inside {s : ManagerLife} (h : s.Orderly) {i : Nat}
    (hi : s.inside i = true) : s.badRing = [] := by
  have hring : s.ringInitialized = true := by
    cases h.phase with
    | closed _ _ _ _ hquiet =>
      rw [hquiet.calls i] at hi
      cases hi
    | running _ hring => exact hring
    | ending _ _ _ hring => exact hring
    | joined _ _ hring => exact hring
  simp [ManagerLife.badRing, h.alive, hring]

theorem Orderly.misusesOf {s : ManagerLife} (h : s.Orderly) {a : LifeAct} {life : LifeCycle}
    (hmove : s.mayMove a = true) (hstep : s.life.step a = some life) : s.misusesOf a = [] := by
  have hrequest : ∀ i, s.badRequest i = [] := by simp [badRequest, h.dangling]
  have hworker : s.badWorker = [] := by simp [badWorker, h.workerDangling]
  cases a with
  | ring i o =>
    obtain ⟨r, hi, -⟩ := LifeCycle.ring_cases hstep
    have hinside : s.inside i = true := LifeCycle.any_getElem?.mpr ⟨_, hi, rfl⟩
    simp [ManagerLife.misusesOf, hrequest, h.badRing_of_inside hinside]
  | waitCqe =>
    simp only [mayMove, Bool.and_eq_true, decide_eq_true_eq] at hmove
    simp [ManagerLife.misusesOf, h.badRing (by simp [hmove.1])]
  | workerPut =>
    simp only [mayMove, Bool.and_eq_true, decide_eq_true_eq] at hmove
    simp [ManagerLife.misusesOf, hworker, h.badRing (by simp [hmove.1])]
  | _ => simp [ManagerLife.misusesOf, hrequest, hworker]

structure LifeFrame (s : ManagerLife) (a : LifeAct) (t : ManagerLife) : Prop where
  move : s.mayMove a = true
  life : s.life.step a = some t.life
  misuses : t.misuses = s.misuses ++ s.misusesOf a
  isRunning : t.isRunning = s.isRunning
  ringInitialized : t.ringInitialized = s.ringInitialized
  ringAlive : t.ringAlive = s.ringAlive
  hasWorker : t.hasWorker = s.hasWorker
  thread : t.thread = s.thread
  exits : t.exits = s.exits
  dangling : t.dangling = s.dangling
  lost : t.lost = s.lost
  workerCalls : t.workerCalls = if a = .workerPut then [] else s.workerCalls
  workerDangling : t.workerDangling = (s.workerDangling && a != .workerPut)
  exitInflight : s.exitInflight ≤ t.exitInflight
  exitPosted : t.exitPosted = if a = .waitCqe then s.exitPosted.map (· - 1) else s.exitPosted
  noEntry : s.exitPrepared = 0 ∧ s.exitInflight = 0 ∧ s.exitPosted = none →
    t.exitPrepared = 0 ∧ t.exitInflight = 0 ∧ t.exitPosted = none

theorem lifeStep_frame {s t : ManagerLife} {a : LifeAct} (h : s.lifeStep a = some t) :
    s.LifeFrame a t := by
  unfold lifeStep at h
  split at h
  · rename_i hmove
    obtain ⟨life, hlife, rfl⟩ := Option.map_eq_some_iff.mp h
    cases a with
    | ring i o =>
      cases o with
      | noSqe => constructor <;> first | assumption | simp_all [after]
      | submit ret =>
        simp only [after]
        split <;> constructor <;> first | assumption | simp_all [handOver]
    | _ => constructor <;> first | assumption | simp_all [after]
  · cases h

theorem LifeFrame.inside {s t : ManagerLife} {a : LifeAct} (h : s.LifeFrame a t)
    (hs : s.Orderly) (hrun : s.isRunning = false) {i : Nat} (hi : t.inside i = true) :
    s.inside i = true :=
  (LifeCycle.step_callsMove h.life).inside (hs.manager.trans hrun) hi

theorem LifeFrame.finished {s t : ManagerLife} {a : LifeAct} (h : s.LifeFrame a t) {i : Nat}
    (hi : s.finished i = true) : t.finished i = true :=
  (LifeCycle.step_callsMove h.life).finished hi

theorem LifeFrame.ofWorker {s t : ManagerLife} {a : LifeAct} (h : s.LifeFrame a t)
    (hthread : s.thread ≠ .running) : a.ofWorker = false := by
  have hmove := h.move
  cases a with
  | waitCqe | handleCompletion | workerPut => simp [mayMove, hthread] at hmove
  | _ => rfl

theorem LifeFrame.quiet {s t : ManagerLife} {a : LifeAct} (h : s.LifeFrame a t)
    (hs : s.Orderly) (hrun : s.isRunning = false) (hthread : s.thread ≠ .running)
    (hquiet : s.Quiet) : t.Quiet where
  calls i := by
    cases hi : t.inside i with
    | false => rfl
    | true =>
      have hheld := h.inside hs hrun hi
      rw [hquiet.calls i] at hheld
      cases hheld
  worker := (LifeCycle.waiting_step h.life (h.ofWorker hthread)).trans hquiet.worker

theorem LifeFrame.workerCalls_keep {s t : ManagerLife} {a : LifeAct} (h : s.LifeFrame a t)
    (hs : s.Orderly) : ∀ i ∈ t.workerCalls, t.finished i = true ∨
      t.thread = .running ∧ ∃ r, t.life.worker = .putting r := by
  intro i hi
  rw [h.workerCalls] at hi
  split at hi
  · cases hi
  · rename_i hput
    obtain hfinished | ⟨hthread, r, hworker⟩ := hs.workerCalls i hi
    · exact .inl (h.finished hfinished)
    · refine .inr ⟨h.thread.trans hthread, r, ?_⟩
      have hlife := h.life
      cases a with
      | waitCqe => simp [LifeCycle.step, LifeCycle.waitCqe, hworker] at hlife
      | handleCompletion => simp [LifeCycle.step, LifeCycle.handleCompletion, hworker] at hlife
      | workerPut => exact absurd rfl hput
      | _ => exact (LifeCycle.waiting_step hlife rfl).trans hworker

theorem LifeFrame.orderly {s t : ManagerLife} {a : LifeAct} (h : s.LifeFrame a t)
    (hs : s.Orderly) : t.Orderly where
  misuses := by rw [h.misuses, hs.misuses, hs.misusesOf h.move h.life, List.append_nil]
  dangling := h.dangling.trans hs.dangling
  workerDangling := by rw [h.workerDangling, hs.workerDangling, Bool.false_and]
  manager := by rw [LifeCycle.step_isRunning h.life, hs.manager, h.isRunning]
  alive := by rw [h.ringAlive, hs.alive, h.ringInitialized]
  noEntry hrun := h.noEntry (hs.noEntry (h.isRunning.symm.trans hrun))
  workerCalls := h.workerCalls_keep hs
  phase := by
    have hno : s.NoExit → t.NoExit := by
      intro hexits
      rw [NoExit, h.exits]
      exact hexits
    cases hs.phase with
    | closed hrun hring hthread hexits hquiet hempty =>
      have hidle : s.thread ≠ .running := by simp [hthread]
      have hnothing : s.life.manager.inflight = [] := by
        simp only [inRing, LifeCycle.inRing, List.append_eq_nil_iff, List.map_eq_nil_iff] at hempty
        exact hempty.1.2
      have hsame := LifeCycle.idle_step h.life (h.ofWorker hidle) hquiet.calls hnothing
      refine .closed (h.isRunning.trans hrun) (h.ringInitialized.trans hring)
        (h.thread.trans hthread) (hno hexits) (h.quiet hs hrun hidle hquiet) ?_
      rw [inRing, LifeCycle.inRing, hsame.1, hsame.2]
      exact hempty
    | running hrun hring hworker hthread hexits =>
      exact .running (h.isRunning.trans hrun) (h.ringInitialized.trans hring)
        (h.hasWorker.trans hworker) (h.thread.trans hthread) (hno hexits)
    | ending done stage hrun hring hexits hdone hstage hthread hinside =>
      refine .ending done stage (h.isRunning.trans hrun) (h.ringInitialized.trans hring)
        (h.exits.trans hexits) hdone hstage ?_ fun i hi => ?_
      · obtain hthread | ⟨hthread, hworker⟩ := hthread
        · exact .inl (h.thread.trans hthread)
        · exact .inr ⟨h.thread.trans hthread,
            (LifeCycle.waiting_step h.life (h.ofWorker (by simp [hthread]))).trans hworker⟩
      · have hcall := hinside i (h.inside hs hrun hi)
        rw [h.workerCalls]
        split
        · rename_i hput
          have hmove := h.move
          simp only [hput, mayMove, Bool.and_eq_true, List.all_eq_true] at hmove
          have hdone := h.finished (hmove.2 i hcall)
          rw [not_finished_of_inside hi] at hdone
          cases hdone
        · exact hcall
    | joined done hrun hring hexits hdone hthread hquiet =>
      exact .joined done (h.isRunning.trans hrun) (h.ringInitialized.trans hring)
        (h.exits.trans hexits) hdone (h.thread.trans hthread)
        (h.quiet hs hrun (by simp [hthread]) hquiet)

theorem current_exit {exits done : List ExitCall} {stage c : ExitCall} {e : Nat}
    (hexits : exits = done ++ [stage]) (hdone : ∀ c ∈ done, c = .returned)
    (hc : exits[e]? = some c) (hne : c ≠ .returned) : e = done.length ∧ c = stage := by
  rw [hexits] at hc
  obtain hc | ⟨he, hc⟩ := List.getElem?_concat_some hc
  · exact absurd (hdone c (List.mem_of_getElem? hc)) hne
  · exact ⟨he, hc⟩

theorem set_current_exit (done : List ExitCall) (stage c : ExitCall) :
    (done ++ [stage]).set done.length c = done ++ [c] := by simp

theorem submitFromCallback_orderly {s t : ManagerLife} {type : RequestType} {fd : Fd}
    (hs : s.Orderly) (h : s.submitFromCallback type fd = some t) : t.Orderly := by
  unfold submitFromCallback at h
  split at h
  · rename_i r hthread hworker
    cases h
    have hcalls : s.life.CallsMove { s.life with calls := s.life.calls ++ [.begun type fd] } :=
      .begun type fd rfl
    refine ⟨hs.misuses, hs.dangling, hs.workerDangling, hs.manager, hs.alive, hs.noEntry,
      fun i _ => .inr ⟨hthread, r, hworker⟩, ?_⟩
    cases hs.phase with
    | closed _ _ hnone => rw [hthread] at hnone; cases hnone
    | running hrun hring hhas hthread hexits => exact .running hrun hring hhas hthread hexits
    | ending done stage hrun hring hexits hdone hstage hrunning hinside =>
      refine .ending done stage hrun hring hexits hdone hstage hrunning fun i hi => ?_
      exact List.mem_append_left _ (hinside i (hcalls.inside (hs.manager.trans hrun) hi))
    | joined _ _ _ _ _ hnone => rw [hthread] at hnone; cases hnone
  · cases h

theorem not_noExit {s : ManagerLife} {done : List ExitCall} {stage : ExitCall}
    (hexits : s.exits = done ++ [stage]) (hne : stage ≠ .returned) : ¬ s.NoExit :=
  fun h => hne (h stage (by simp [hexits]))

/-- A manager that does not run and has no call of `Exit` under way has nothing left. -/
theorem Orderly.closed {s : ManagerLife} (hs : s.Orderly) (hrun : s.isRunning = false)
    (hexits : s.NoExit) : s.ringInitialized = false ∧ s.thread = .none ∧ s.Quiet ∧
      s.inRing = [] := by
  cases hs.phase with
  | closed _ hring hthread _ hquiet hempty => exact ⟨hring, hthread, hquiet, hempty⟩
  | running htrue =>
    rw [hrun] at htrue
    cases htrue
  | ending done stage _ _ hdone _ hstage =>
    refine absurd hexits (not_noExit hdone ?_)
    obtain rfl | rfl := hstage <;> simp
  | joined done _ _ hdone => exact absurd hexits (not_noExit hdone (by simp))

theorem init_orderly {s : ManagerLife} (hs : s.Orderly) (hexits : s.NoExit) (entries : Nat)
    (initialized : Bool) : (s.init entries initialized).Orderly := by
  cases hrun : s.isRunning with
  | true =>
    have hsame : s.init entries initialized = s := by simp [init, hrun]
    rw [hsame]
    exact hs
  | false =>
    obtain ⟨hring, hthread, hquiet, hempty⟩ := hs.closed hrun hexits
    have hmisuses : ∀ initialized, s.misuses ++ s.badInit initialized = [] := by
      simp [hs.misuses, badInit, hempty, hs.alive, hring]
    have hdangling : s.dangling ++ s.holders = [] := by rw [hs.dangling, hquiet.holders]; rfl
    have hworker : (s.workerDangling || s.life.worker.holding) = false := by
      rw [hs.workerDangling, hquiet.worker]
      rfl
    cases initialized with
    | true =>
      simp only [init, hrun, Bool.false_eq_true, if_false, if_true]
      exact ⟨hmisuses true, hdangling, hworker, rfl, rfl, fun _ => ⟨rfl, rfl, rfl⟩,
        fun _ hi => absurd hi List.not_mem_nil, .running rfl rfl rfl rfl hexits⟩
    | false =>
      simp only [init, hrun, Bool.false_eq_true, if_false]
      refine ⟨hmisuses false, hdangling, hworker, hs.manager, hs.alive, hs.noEntry,
        hs.workerCalls, ?_⟩
      exact .closed hrun hring hthread hexits ⟨hquiet.calls, hquiet.worker⟩ hempty

theorem exit_orderly {s : ManagerLife} (hs : s.Orderly) (hx : s.Exclusive .exit) :
    s.exit.Orderly := by
  obtain ⟨hexits, hinside⟩ := hx
  unfold exit
  split
  · rename_i hring
    refine ⟨hs.misuses, hs.dangling, hs.workerDangling, rfl, hs.alive, nofun, hs.workerCalls, ?_⟩
    cases hs.phase with
    | closed _ hnot =>
      rw [hring] at hnot
      cases hnot
    | running _ _ hworker hthread _ =>
      refine .ending s.exits .submitting rfl hring (by simp [hworker]) hexits (.inl rfl)
        (.inl hthread) (hinside hring)
    | ending done stage _ _ hdone _ hstage =>
      refine absurd hexits (not_noExit hdone ?_)
      obtain rfl | rfl := hstage <;> simp
    | joined done _ _ hdone => exact absurd hexits (not_noExit hdone (by simp))
  · rename_i hring
    have hnot : s.ringInitialized = false := by simpa using hring
    refine ⟨hs.misuses, hs.dangling, hs.workerDangling, hs.manager, hs.alive, hs.noEntry,
      hs.workerCalls, ?_⟩
    have hmore : ∀ c ∈ s.exits ++ [.returned], c = .returned := by
      simpa [or_imp, forall_and, NoExit] using hexits
    cases hs.phase with
    | closed hrun _ hthread _ hquiet hempty =>
      exact .closed hrun hnot hthread hmore ⟨hquiet.calls, hquiet.worker⟩ hempty
    | running _ hring => exact absurd hring (by simp [hnot])
    | ending _ _ _ hring => exact absurd hring (by simp [hnot])
    | joined _ _ hring => exact absurd hring (by simp [hnot])

structure Ending (s : ManagerLife) (done : List ExitCall) (stage : ExitCall) : Prop where
  isRunning : s.isRunning = false
  ringInitialized : s.ringInitialized = true
  exits : s.exits = done ++ [stage]
  done : ∀ c ∈ done, c = .returned
  thread : s.thread = .running ∨ s.thread = .left ∧ s.life.worker = .waiting
  inside : ∀ i, s.inside i = true → i ∈ s.workerCalls

theorem Orderly.ending {s : ManagerLife} (hs : s.Orderly) {e : Nat} {c : ExitCall}
    (hc : s.exits[e]? = some c) (hstage : c = .submitting ∨ c = .joining) :
    ∃ done, s.Ending done c ∧ e = done.length := by
  have hne : c ≠ .returned := by obtain rfl | rfl := hstage <;> simp
  have hnot : ¬ s.NoExit := fun h => hne (h c (List.mem_of_getElem? hc))
  cases hs.phase with
  | closed _ _ _ hexits => exact absurd hexits hnot
  | running _ _ _ _ hexits => exact absurd hexits hnot
  | ending done stage hrun hring hexits hdone _ hthread hinside =>
    obtain ⟨he, rfl⟩ := current_exit hexits hdone hc hne
    exact ⟨done, ⟨hrun, hring, hexits, hdone, hthread, hinside⟩, he⟩
  | joined done _ _ hexits hdone =>
    obtain ⟨-, rfl⟩ := current_exit hexits hdone hc hne
    obtain h | h := hstage <;> cases h

structure Round (s : ManagerLife) (e : Nat) (t : ManagerLife) : Prop where
  frame : t = { s with
    life := t.life
    exitPrepared := t.exitPrepared
    exitInflight := t.exitInflight
    exits := t.exits }
  calls : t.life.calls = s.life.calls
  worker : t.life.worker = s.life.worker
  cq : t.life.cq = s.life.cq
  isRunning : t.life.manager.isRunning = s.life.manager.isRunning
  exits : t.exits = s.exits ∨ t.exits = s.exits.set e .joining ∧ 0 < t.exitInflight

theorem submitExit_round {s t : ManagerLife} {e : Nat} {round : ExitRound}
    (hring : s.ringInitialized = true) (hbad : s.badRing = [])
    (h : s.submitExit e round = some t) :
    s.exits[e]? = some .submitting ∧ s.Round e t := by
  unfold submitExit at h
  split at h
  · rename_i hc
    refine ⟨hc, ?_⟩
    cases round with
    | noSqe ret =>
      obtain ⟨-, h⟩ := Option.ite_none_right_eq_some.mp h
      cases h
      by_cases hret : 0 ≤ ret
      · rw [if_pos hret]
        constructor <;> simp [tryAgain, flush, handOver, hring, hbad]
      · rw [if_neg hret]
        constructor <;> simp [tryAgain, hring, hbad]
    | submit ret =>
      obtain ⟨-, h⟩ := Option.ite_none_left_eq_some.mp h
      by_cases hret : 0 ≤ ret
      · simp only [hret, if_true, Option.some.injEq] at h
        subst h
        refine ⟨?_, rfl, rfl, rfl, rfl, .inr ⟨rfl, ?_⟩⟩
        · simp [flush, handOver, setExit, hbad]
        · exact Nat.lt_of_lt_of_le (Nat.succ_pos _) (Nat.le_add_left _ _)
      · simp only [hret, if_false, Option.some.injEq] at h
        subst h
        constructor <;> simp [tryAgain, hring, hbad]
  · cases h

theorem Orderly.round {s t : ManagerLife} (hs : s.Orderly) {e : Nat} {round : ExitRound}
    (h : s.submitExit e round = some t) :
    ∃ done, s.Ending done .submitting ∧ e = done.length ∧ s.Round e t := by
  have hc : s.exits[e]? = some .submitting := by
    by_contra hnot
    simp [submitExit, hnot] at h
  obtain ⟨done, hending, he⟩ := hs.ending hc (.inl rfl)
  have hbad : s.badRing = [] := by simp [ManagerLife.badRing, hs.alive, hending.ringInitialized]
  exact ⟨done, hending, he, (submitExit_round hending.ringInitialized hbad h).2⟩

theorem submitExit_orderly {s t : ManagerLife} {e : Nat} {round : ExitRound} (hs : s.Orderly)
    (h : s.submitExit e round = some t) : t.Orderly := by
  obtain ⟨done, hending, rfl, hround⟩ := hs.round h
  have hinside : ∀ i, t.inside i = s.inside i := fun i => by
    simp only [ManagerLife.inside, hround.calls]
  have hfinished : ∀ i, t.finished i = s.finished i := fun i => by
    simp only [ManagerLife.finished, hround.calls]
  have hexits : ∃ stage, (stage = .submitting ∨ stage = .joining) ∧ t.exits = done ++ [stage] := by
    obtain hsame | ⟨hset, -⟩ := hround.exits
    · exact ⟨.submitting, .inl rfl, hsame.trans hending.exits⟩
    · refine ⟨.joining, .inr rfl, ?_⟩
      rw [hset, hending.exits, set_current_exit]
  obtain ⟨stage, hstage, hexits⟩ := hexits
  have hrun : t.isRunning = false := by
    rw [hround.frame]
    exact hending.isRunning
  refine ⟨?_, ?_, ?_, ?_, ?_, fun htrue => ?_, fun i hi => ?_, ?_⟩
  · rw [hround.frame]
    exact hs.misuses
  · rw [hround.frame]
    exact hs.dangling
  · rw [hround.frame]
    exact hs.workerDangling
  · rw [hround.isRunning, hs.manager, hrun, hending.isRunning]
  · rw [hround.frame]
    exact hs.alive
  · rw [hrun] at htrue
    cases htrue
  · rw [hfinished, hround.worker]
    rw [hround.frame] at hi ⊢
    exact hs.workerCalls i hi
  · refine .ending done stage hrun ?_ hexits hending.done hstage ?_ fun i hi => ?_
    · rw [hround.frame]
      exact hending.ringInitialized
    · rw [hround.worker, hround.frame]
      exact hending.thread
    · rw [hinside] at hi
      rw [hround.frame]
      exact hending.inside i hi

theorem completeExit_orderly {s t : ManagerLife} (hs : s.Orderly)
    (h : s.completeExit = some t) : t.Orderly := by
  unfold completeExit at h
  split at h
  · cases h
  · rename_i hposted
    cases h
    refine ⟨hs.misuses, hs.dangling, hs.workerDangling, hs.manager, hs.alive, fun hrun => ?_,
      hs.workerCalls, ?_⟩
    · exact absurd (hs.noEntry hrun).2.1 hposted
    · cases hs.phase with
      | closed hrun hring hthread hexits hquiet hempty =>
        exact .closed hrun hring hthread hexits ⟨hquiet.calls, hquiet.worker⟩ hempty
      | running hrun hring hworker hthread hexits =>
        exact .running hrun hring hworker hthread hexits
      | ending done stage hrun hring hexits hdone hstage hthread hinside =>
        exact .ending done stage hrun hring hexits hdone hstage hthread hinside
      | joined done hrun hring hexits hdone hthread hquiet =>
        exact .joined done hrun hring hexits hdone hthread ⟨hquiet.calls, hquiet.worker⟩

theorem takeExit_orderly {s t : ManagerLife} (hs : s.Orderly) (h : s.takeExit = some t) :
    t.Orderly := by
  unfold takeExit at h
  split at h
  · rename_i hexit
    obtain ⟨hthread, hworker, hposted⟩ := hexit
    cases h
    refine ⟨?_, hs.dangling, hs.workerDangling, hs.manager, hs.alive, fun hrun => ?_, ?_, ?_⟩
    · simp [hs.misuses, hs.badRing (by simp [hthread])]
    · have hnone := (hs.noEntry hrun).2.2
      rw [hposted] at hnone
      cases hnone
    · intro i hi
      obtain hfinished | ⟨-, r, hputting⟩ := hs.workerCalls i hi
      · exact .inl hfinished
      · rw [hworker] at hputting
        cases hputting
    · cases hs.phase with
      | closed _ _ hnone =>
        rw [hthread] at hnone
        cases hnone
      | running hrun =>
        have hnone := (hs.noEntry hrun).2.2
        rw [hposted] at hnone
        cases hnone
      | ending done stage hrun hring hexits hdone hstage _ hinside =>
        exact .ending done stage hrun hring hexits hdone hstage (.inr ⟨rfl, hworker⟩) hinside
      | joined _ _ _ _ _ hnone =>
        rw [hthread] at hnone
        cases hnone
  · cases h

theorem join_orderly {s t : ManagerLife} {e : Nat} (hs : s.Orderly) (h : s.join e = some t) :
    t.Orderly := by
  unfold join at h
  split at h
  · rename_i hc
    obtain ⟨hc, hleft⟩ := hc
    cases h
    obtain ⟨done, hending, rfl⟩ := hs.ending hc (.inr rfl)
    have hfinished : ∀ i ∈ s.workerCalls, s.finished i = true := by
      intro i hi
      obtain hfinished | ⟨hrunning, -⟩ := hs.workerCalls i hi
      · exact hfinished
      · rw [hleft] at hrunning
        cases hrunning
    have hquiet : s.Quiet := by
      refine ⟨fun i => ?_, ?_⟩
      · cases hi : s.inside i with
        | false => rfl
        | true =>
          have hnot := not_finished_of_inside hi
          rw [hfinished i (hending.inside i hi)] at hnot
          cases hnot
      · obtain hrunning | ⟨-, hworker⟩ := hending.thread
        · rw [hleft] at hrunning
          cases hrunning
        · exact hworker
    refine ⟨hs.misuses, hs.dangling, hs.workerDangling, hs.manager, hs.alive, fun hrun => ?_,
      fun i hi => .inl (hfinished i hi), ?_⟩
    · exact hs.noEntry hrun
    · refine .joined done hending.isRunning hending.ringInitialized ?_ hending.done rfl
        ⟨hquiet.calls, hquiet.worker⟩
      simp [setExit, hending.exits]
  · cases h

theorem release_orderly {s t : ManagerLife} {e : Nat} (hs : s.Orderly)
    (h : s.release e = some t) : t.Orderly := by
  unfold release at h
  split at h
  · rename_i hc
    cases h
    have hnot : ¬ s.NoExit := fun h => by cases h _ (List.mem_of_getElem? hc)
    cases hs.phase with
    | closed _ _ _ hexits => exact absurd hexits hnot
    | running _ _ _ _ hexits => exact absurd hexits hnot
    | ending done stage _ _ hexits hdone hstage =>
      obtain ⟨-, rfl⟩ := current_exit hexits hdone hc (by simp)
      obtain h | h := hstage <;> cases h
    | joined done hrun hring hexits hdone hthread hquiet =>
      obtain ⟨rfl, -⟩ := current_exit hexits hdone hc (by simp)
      refine ⟨?_, ?_, ?_, hrun.symm, rfl, fun _ => ⟨rfl, rfl, rfl⟩, ?_, ?_⟩
      · simp [setExit, hs.misuses, badRing, hs.alive, hring]
      · simp [setExit, dropPool, hs.dangling, hquiet.holders]
      · simp [setExit, dropPool, hs.workerDangling, hquiet.worker, Worker.holding]
      · exact hs.workerCalls
      · refine .closed hrun rfl hthread ?_ ⟨hquiet.calls, hquiet.worker⟩ rfl
        simpa [NoExit, setExit, dropPool, hexits, or_imp, forall_and] using hdone
  · cases h

theorem step_orderly {s t : ManagerLife} {a : ManagerAct} (hs : s.Orderly)
    (h : s.step a = some t) (hx : s.Exclusive a) : t.Orderly := by
  cases a with
  | life a => exact (lifeStep_frame h).orderly hs
  | submitFromCallback type fd => exact submitFromCallback_orderly hs h
  | init entries initialized =>
    cases h
    exact init_orderly hs hx entries initialized
  | exit =>
    cases h
    exact exit_orderly hs hx
  | submitExit e round => exact submitExit_orderly hs h
  | completeExit => exact completeExit_orderly hs h
  | takeExit => exact takeExit_orderly hs h
  | join e => exact join_orderly hs h
  | release e => exact release_orderly hs h

theorem run_orderly {as : List ManagerAct} {t : ManagerLife}
    (h : machine.run created as = some t)
    (hx : machine.Every (fun s a _ => s.Exclusive a) created as) : t.Orderly :=
  machine.run_invariant_of_every (fun _ _ _ hs ha hx => step_orderly hs ha hx) orderly_created
    hx h

/-- The ring and the requests of a pool are not used after their release, nor is a ring replaced
while it is in use, as long as calls of `Init` and `Exit` do not overlap and no other thread
than the worker's is in a submission when `Exit` begins. -/
theorem released_untouched {as : List ManagerAct} {t : ManagerLife}
    (h : machine.run created as = some t)
    (hx : machine.Every (fun s a _ => s.Exclusive a) created as) : t.misuses = [] :=
  (run_orderly h hx).misuses

instance (s : ManagerLife) : Decidable s.NoExit :=
  inferInstanceAs (Decidable (∀ c ∈ s.exits, c = .returned))

theorem forall_inside {s : ManagerLife} {P : Nat → Prop} :
    (∀ i < s.life.calls.length, s.inside i = true → P i) ↔ ∀ i, s.inside i = true → P i := by
  refine forall_congr' fun i => ⟨fun h hi => ?_, fun h _ => h⟩
  obtain ⟨c, hc, -⟩ := LifeCycle.any_getElem?.mp hi
  exact h (List.getElem?_eq_some_iff.mp hc).1 hi

instance decidableExclusive (s : ManagerLife) (a : ManagerAct) : Decidable (s.Exclusive a) :=
  match a with
  | .init _ _ => inferInstanceAs (Decidable s.NoExit)
  | .exit => decidable_of_iff
      (s.NoExit ∧ (s.ringInitialized = true →
        ∀ i < s.life.calls.length, s.inside i = true → i ∈ s.workerCalls))
      (by simp only [Exclusive, forall_inside])
  | .life _ | .submitFromCallback _ _ | .submitExit _ _ | .completeExit | .takeExit | .join _
  | .release _ => inferInstanceAs (Decidable True)

/-- `Exit` while the callback of a read is submitting the next one; then `Init` again. -/
def exitDuringCallback : List ManagerAct :=
  [.init 2 true, .life (.submitOperation .read 5), .life (.check 0), .life (.getRequest 0),
    .life (.initRequest 0), .life (.ring 0 (.submit 1)), .life (.complete 0 10), .life .waitCqe,
    .life .handleCompletion, .submitFromCallback .read 5, .life (.check 1), .exit,
    .submitExit 0 (.submit (-EBUSY)), .life (.getRequest 1), .life (.initRequest 1),
    .submitExit 0 (.submit 1), .life (.ring 1 (.submit 1)), .life .workerPut, .completeExit,
    .takeExit, .join 0, .release 0, .init 2 true]

theorem released_untouched_exitDuringCallback :
    ∃ t, machine.run created exitDuringCallback = some t ∧ t.misuses = [] := by
  have hrun : machine.run created exitDuringCallback = some _ := rfl
  exact ⟨_, hrun, released_untouched hrun (machine.every_of_check (by decide))⟩

end ManagerLife

end Lmnet.IoUring
