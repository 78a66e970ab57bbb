import Lmnet.Epoll.ServerLife
import Lmnet.Lib.Machine
import Lmnet.Posix.DescriptorBooks

/-!
What becomes of the descriptors that arrive at one end of the io_uring backend: the
completion queue, the worker thread from a completion to the next `SubmitRead` or
`StartReceive`, and the descriptor table of the process. Other threads set and destroy
listeners, close and connect, and open and close files between any two steps.
-/

set_option autoImplicit false

namespace Lmnet.IoUring

open Epoll (ControlMessage ReceiveCall RecvReturn UnixEnd filesOf filesOf_congr processMessage
  processMessage_fds receivedFds)
open Posix (DescriptorBooks)

/-- What the control buffer of `SubmitRecvMsgRequest` has room for. -/
def MAX_FDS_PER_MESSAGE : Nat := 32

inductive RingEntry where
  | recvmsg (fd : Fd) (result : RecvReturn) (control : List ControlMessage)
  | other
  | exit
  deriving DecidableEq, Repr

/-- `received_fds`: `HandleCompletion` looks at the control messages of a read that returns
data. -/
def extractedFds : RecvReturn → List ControlMessage → List Fd
  | .bytes _, control => receivedFds control
  | _, _ => []

def RingEntry.fds : RingEntry → List Fd
  | .recvmsg _ result control => extractedFds result control
  | _ => []

/-- How far the worker thread has got with a completion: `HandleReceiveWithFds` is called; it
has its session; it comes to `SubmitRead` or `StartReceive`, or to the end of the
connection. -/
inductive ReceiveStage where
  | idle
  | completed (fd : Fd) (result : RecvReturn) (fds : List Fd)
  | found (fd : Fd) (result : RecvReturn) (fds : List Fd)
  | reading (fd : Fd)
  | closing (fd : Fd)
  deriving DecidableEq, Repr

def ReceiveStage.fds : ReceiveStage → List Fd
  | .completed _ _ fds | .found _ _ fds => fds
  | _ => []

inductive UnixCallback where
  | message (call : ReceiveCall)
  | onError (fd : Fd) (errno : Int)
  | onClose (fd : Fd)
  deriving DecidableEq, Repr

/-- `sessions` are the server's, `socket` and `isConnected` the client's. `inFlight` are the
sockets of the `RECVMSG` requests that the kernel has, and `exited` says that `Run` has
returned. -/
structure RingReceiver where
  listeners : List Bool
  listener : Option Nat
  isRunning : Bool
  sessions : List Fd
  socket : Fd
  isConnected : Bool
  inFlight : List Fd
  cq : List RingEntry
  stage : ReceiveStage
  exited : Bool
  calls : List UnixCallback
  books : DescriptorBooks

inductive RingAct where
  | newListener
  | setListener (listener : Option Nat)
  | destroyListener (listener : Nat)
  | openFile (fd : Fd)
  | closeFile (fd : Fd)
  | start
  | accept (fd : Fd)
  | connect (fd : Fd)
  | stop
  | complete (fd : Fd) (result : RecvReturn) (control : List ControlMessage)
  | post (entry : RingEntry)
  | waitCqe
  | findSession
  | handleReceiveWithFds
  | submitRead (refusal : Option Int)
  | handleConnectionClose
  deriving DecidableEq, Repr

namespace RingReceiver

def created : RingReceiver :=
  ⟨[], none, false, [], invalidSocket, false, [], [], .idle, false, [], .empty⟩

def expired (s : RingReceiver) : Option Nat → Bool
  | none => true
  | some listener => s.listeners[listener]? != some true

def notify (s : RingReceiver) (call : UnixCallback) : RingReceiver :=
  if s.expired s.listener then s else { s with calls := s.calls ++ [call] }

/-- The number a callback is given: the server's lambda has its own, the client reads
`socket_`. -/
def handle (unixEnd : UnixEnd) (s : RingReceiver) (fd : Fd) : Fd :=
  match unixEnd with
  | .server => fd
  | .client => s.socket

def accept (s : RingReceiver) (fd : Fd) : Option RingReceiver :=
  if s.stage = .idle ∧ s.exited = false then
    some { s with sessions := fd :: s.sessions, stage := .reading fd }
  else none

def connect (s : RingReceiver) (fd : Fd) : RingReceiver :=
  { s with isRunning := true, isConnected := true, socket := fd, inFlight := fd :: s.inFlight }

def handleClose (s : RingReceiver) : RingReceiver :=
  let told := if s.isConnected then s.notify (.onClose s.socket) else s
  { told with isConnected := false, socket := invalidSocket }

def stop (unixEnd : UnixEnd) (s : RingReceiver) : RingReceiver :=
  if s.isRunning then
    match unixEnd with
    | .server => { s with isRunning := false, sessions := [] }
    | .client => { s with isRunning := false }.handleClose
  else s

/-- The kernel completes a receive. What it opens for a message comes with data, and is no
more than the control buffer has room for. -/
def complete (s : RingReceiver) (fd : Fd) (result : RecvReturn)
    (control : List ControlMessage) : Option RingReceiver :=
  if fd ∈ s.inFlight ∧ result ≠ .bytes [] ∧
      (receivedFds control).length ≤ MAX_FDS_PER_MESSAGE then
    (s.books.install (extractedFds result control)).map fun books =>
      { s with
        inFlight := s.inFlight.erase fd
        cq := s.cq ++ [.recvmsg fd result control]
        books := books }
  else none

def waitCqe (s : RingReceiver) : Option RingReceiver :=
  if s.stage = .idle ∧ s.exited = false then
    match s.cq with
    | [] => none
    | .exit :: cq => some { s with cq := cq, exited := true }
    | .other :: cq => some { s with cq := cq }
    | .recvmsg fd result control :: cq =>
        some { s with cq := cq, stage := .completed fd result (extractedFds result control) }
  else none

def findSession (unixEnd : UnixEnd) (s : RingReceiver) : Option RingReceiver :=
  match s.stage with
  | .completed fd result fds =>
      if unixEnd = .client ∨ fd ∈ s.sessions then
        some { s with stage := .found fd result fds }
      else some { s with stage := .idle, books := s.books.cleanup fds }
  | _ => none

def process (unixEnd : UnixEnd) (s : RingReceiver) (fd : Fd) (data : List UInt8)
    (fds : List Fd) : RingReceiver :=
  if s.expired s.listener then { s with books := s.books.cleanup fds }
  else
    let (calls, left) := processMessage (s.handle unixEnd fd) (some data) fds
    { s with
      calls := s.calls ++ calls.map .message
      books := (s.books.handOver (calls.flatMap ReceiveCall.fds)).cleanup left }

def handleReceiveWithFds (unixEnd : UnixEnd) (s : RingReceiver) : Option RingReceiver :=
  match s.stage with
  | .found fd (.bytes data) fds =>
      some { s.process unixEnd fd data fds with stage := .reading fd }
  | .found fd .disconnect fds =>
      some { s with books := s.books.cleanup fds, stage := .closing fd }
  | .found fd (.error errno) fds =>
      let cleaned := { s with books := s.books.cleanup fds }
      if errno = EAGAIN then some { cleaned with stage := .reading fd }
      else if s.isRunning then
        some { cleaned.notify (.onError (s.handle unixEnd fd) errno) with stage := .closing fd }
      else some { cleaned with stage := .idle }
  | _ => none

/-- `SubmitRead` or `StartReceive`. A refused submission calls the callback at once, with its
error and no descriptors. -/
def submitRead (unixEnd : UnixEnd) (s : RingReceiver) (refusal : Option Int) :
    Option RingReceiver :=
  match s.stage with
  | .reading fd =>
      let number := s.handle unixEnd fd
      if !s.isRunning || (unixEnd == .client && !s.isConnected) then
        some { s with stage := .idle }
      else
        match refusal with
        | none => some { s with stage := .idle, inFlight := number :: s.inFlight }
        | some errno => some { s with stage := .completed number (.error errno) [] }
  | _ => none

def handleConnectionClose (unixEnd : UnixEnd) (s : RingReceiver) : Option RingReceiver :=
  match s.stage with
  | .closing fd =>
      match unixEnd with
      | .server =>
          let told := if fd ∈ s.sessions then s.notify (.onClose fd) else s
          some { told with stage := .idle, sessions := s.sessions.filter (· ≠ fd) }
      | .client => some { s.handleClose with stage := .idle }
  | _ => none

/-- `closeFile` is a `close` or a `CLOSE` request that the kernel gets to, of the server or of
anybody else. -/
def step (unixEnd : UnixEnd) (s : RingReceiver) : RingAct → Option RingReceiver
  | .newListener => some { s with listeners := s.listeners ++ [true] }
  | .setListener listener =>
      if listener.isNone || !s.expired listener then some { s with listener := listener } else none
  | .destroyListener listener => some { s with listeners := s.listeners.set listener false }
  | .openFile fd => (s.books.openFd fd).map fun books => { s with books := books }
  | .closeFile fd => some { s with books := s.books.closeFd fd }
  | .start => some { s with isRunning := true }
  | .accept fd => s.accept fd
  | .connect fd => if unixEnd = .client then some (s.connect fd) else none
  | .stop => some (s.stop unixEnd)
  | .complete fd result control => s.complete fd result control
  | .post entry => if entry.fds = [] then some { s with cq := s.cq ++ [entry] } else none
  | .waitCqe => s.waitCqe
  | .findSession => s.findSession unixEnd
  | .handleReceiveWithFds => s.handleReceiveWithFds unixEnd
  | .submitRead refusal => s.submitRead unixEnd refusal
  | .handleConnectionClose => s.handleConnectionClose unixEnd

def machine (unixEnd : UnixEnd) : Machine RingReceiver RingAct where
  init s := s = created
  step := step unixEnd

def waitingFds (s : RingReceiver) : List Fd := s.cq.flatMap RingEntry.fds ++ s.stage.fds

def waiting (s : RingReceiver) : List Nat := filesOf s.books.table s.waitingFds

/-- Every descriptor that came with a message is on its way, or was handed to one
`OnReceiveUnixMessage`, or was closed once. -/
def NoneLost (s : RingReceiver) : Prop :=
  ∀ file ∈ s.books.installed,
    s.waiting.count file + s.books.handed.count file + s.books.closed.count file = 1

/-- Nobody closes the number of a descriptor that is still on its way. -/
def Spares (s : RingReceiver) (a : RingAct) : Prop :=
  match a with
  | .closeFile fd => fd ∉ s.waitingFds
  | _ => True

instance decidableSpares (s : RingReceiver) (a : RingAct) : Decidable (s.Spares a) :=
  match a with
  | .closeFile fd => inferInstanceAs (Decidable (fd ∉ s.waitingFds))
  | .newListener | .setListener _ | .destroyListener _ | .openFile _ | .start | .accept _
  | .connect _ | .stop | .complete .. | .post _ | .waitCqe | .findSession | .handleReceiveWithFds
  | .submitRead _ | .handleConnectionClose => inferInstanceAs (Decidable True)

/-- What stands in the completion queue when `Run` returns stays open for good. -/
def Stranded (unixEnd : UnixEnd) (s : RingReceiver) : Prop :=
  ∀ t as, (machine unixEnd).run s as = some t →
    (machine unixEnd).Every (fun u a _ => u.Spares a) s as → ∀ file ∈ s.waiting,
    file ∈ t.waiting ∧ file ∉ t.books.handed ∧ file ∉ t.books.closed

structure Inv (s : RingReceiver) : Prop where
  balanced : s.books.Balanced s.waitingFds
  exited : s.exited = true → s.stage = .idle

theorem created_inv : created.Inv where
  balanced := Posix.DescriptorBooks.empty_balanced
  exited _ := rfl

variable {unixEnd : UnixEnd} {s s' : RingReceiver}

@[simp] theorem notify_cq (call : UnixCallback) : (s.notify call).cq = s.cq := by
  unfold notify
  split <;> rfl

@[simp] theorem notify_stage (call : UnixCallback) : (s.notify call).stage = s.stage := by
  unfold notify
  split <;> rfl

@[simp] theorem notify_exited (call : UnixCallback) : (s.notify call).exited = s.exited := by
  unfold notify
  split <;> rfl

@[simp] theorem notify_books (call : UnixCallback) : (s.notify call).books = s.books := by
  unfold notify
  split <;> rfl

structure Same (s s' : RingReceiver) : Prop where
  cq : s'.cq = s.cq
  exited : s'.exited = s.exited
  books : s'.books = s.books

theorem handleClose_same : s.Same s.handleClose ∧ s.handleClose.stage = s.stage := by
  unfold handleClose
  split
  · exact ⟨⟨notify_cq _, notify_exited _, notify_books _⟩, notify_stage _⟩
  · exact ⟨⟨rfl, rfl, rfl⟩, rfl⟩

theorem stop_same (s : RingReceiver) (unixEnd : UnixEnd) :
    s.Same (s.stop unixEnd) ∧ (s.stop unixEnd).stage = s.stage := by
  unfold stop
  split
  · cases unixEnd with
    | server => exact ⟨⟨rfl, rfl, rfl⟩, rfl⟩
    | client =>
      obtain ⟨hsame, hstage⟩ := handleClose_same (s := { s with isRunning := false })
      exact ⟨⟨hsame.cq, hsame.exited, hsame.books⟩, hstage⟩
  · exact ⟨⟨rfl, rfl, rfl⟩, rfl⟩

theorem Inv.of_same (h : s.Inv) (hsame : s.Same s') (hfds : s'.stage.fds = s.stage.fds)
    (hexited : s.exited = true → s'.stage = s.stage) : s'.Inv where
  balanced := by
    rw [waitingFds, hsame.books, hsame.cq, hfds]
    exact h.balanced
  exited he := by
    rw [hsame.exited] at he
    exact (hexited he).trans (h.exited he)

theorem Inv.of_books (h : s.Inv) (hbusy : s.stage ≠ .idle) {fds : List Fd}
    (hstage : s.stage.fds = fds) (hcq : s'.cq = s.cq) (hexited : s'.exited = s.exited)
    (hnone : s'.stage.fds = [])
    (hbooks : ∀ held, s.books.Balanced (fds ++ held) → s'.books.Balanced held) : s'.Inv where
  balanced := by
    have hheld : s.books.Balanced (fds ++ s.cq.flatMap RingEntry.fds) := by
      rw [← hstage]
      exact h.balanced.perm List.perm_append_comm
    rw [waitingFds, hcq, hnone, List.append_nil]
    exact hbooks _ hheld
  exited he := by
    rw [hexited] at he
    exact absurd (h.exited he) hbusy

theorem process_spec (s : RingReceiver) (unixEnd : UnixEnd) (fd : Fd) (data : List UInt8)
    (fds : List Fd) :
    (s.process unixEnd fd data fds).cq = s.cq ∧
      (s.process unixEnd fd data fds).exited = s.exited ∧
      ∀ held, s.books.Balanced (fds ++ held) →
        (s.process unixEnd fd data fds).books.Balanced held := by
  unfold process
  split
  · exact ⟨rfl, rfl, fun held h => h.cleanup⟩
  · obtain ⟨hcalls, hleft⟩ := processMessage_fds (s.handle unixEnd fd) (some data) fds
    refine ⟨rfl, rfl, fun held h => ?_⟩
    simp only [hcalls, hleft]
    have hgiven : (s.books.handOver fds).Balanced ([] ++ held) := h.handOver
    exact hgiven.cleanup

theorem Inv.complete (h : s.Inv) {fd : Fd} {result : RecvReturn}
    {control : List ControlMessage} (hs : s.complete fd result control = some s') : s'.Inv := by
  unfold RingReceiver.complete at hs
  split at hs
  · obtain ⟨books, hinstall, rfl⟩ := Option.map_eq_some_iff.mp hs
    refine ⟨?_, h.exited⟩
    refine (h.balanced.install hinstall).1.perm ?_
    simp only [waitingFds, List.flatMap_append, List.flatMap_cons, List.flatMap_nil,
      RingEntry.fds, List.append_nil, List.append_assoc]
    exact List.perm_append_comm_assoc _ _ _
  · cases hs

theorem Inv.waitCqe (h : s.Inv) (hs : s.waitCqe = some s') : s'.Inv := by
  unfold RingReceiver.waitCqe at hs
  split at hs
  · rename_i hidle
    have hheld := h.balanced
    rw [waitingFds, hidle.1] at hheld
    split at hs
    · cases hs
    · rename_i cq hcq
      cases hs
      rw [hcq] at hheld
      exact ⟨by rw [waitingFds, hidle.1]; exact hheld, fun _ => hidle.1⟩
    · rename_i cq hcq
      cases hs
      rw [hcq] at hheld
      exact ⟨by rw [waitingFds, hidle.1]; exact hheld, fun _ => hidle.1⟩
    · rename_i fd result control cq hcq
      cases hs
      rw [hcq] at hheld
      refine ⟨hheld.perm ?_, fun he => by rw [hidle.2] at he; cases he⟩
      simpa [waitingFds, RingEntry.fds, ReceiveStage.fds] using List.perm_append_comm
  · cases hs

theorem Inv.findSession (h : s.Inv) (hs : s.findSession unixEnd = some s') : s'.Inv := by
  unfold RingReceiver.findSession at hs
  split at hs
  · rename_i fd result fds hstage
    split at hs
    · cases hs
      refine h.of_same ⟨rfl, rfl, rfl⟩ (by rw [hstage]; rfl) fun he => ?_
      rw [h.exited he] at hstage
      cases hstage
    · cases hs
      exact h.of_books (by simp [hstage]) (congrArg ReceiveStage.fds hstage) rfl rfl rfl
        fun _ hheld => hheld.cleanup
  · cases hs

theorem Inv.handleReceiveWithFds (h : s.Inv)
    (hs : s.handleReceiveWithFds unixEnd = some s') : s'.Inv := by
  unfold RingReceiver.handleReceiveWithFds at hs
  split at hs
  · rename_i fd data fds hstage
    cases hs
    obtain ⟨hcq, hexited, hbooks⟩ := s.process_spec unixEnd fd data fds
    exact h.of_books (by simp [hstage]) (congrArg ReceiveStage.fds hstage) hcq hexited rfl hbooks
  · rename_i fd fds hstage
    cases hs
    exact h.of_books (by simp [hstage]) (congrArg ReceiveStage.fds hstage) rfl rfl rfl
      fun _ hheld => hheld.cleanup
  · rename_i fd errno fds hstage
    have hbusy : s.stage ≠ .idle := by simp [hstage]
    have hfds := congrArg ReceiveStage.fds hstage
    dsimp only at hs
    split at hs
    · cases hs
      exact h.of_books hbusy hfds rfl rfl rfl fun _ hheld => hheld.cleanup
    · split at hs
      · cases hs
        refine h.of_books hbusy hfds (notify_cq _) (notify_exited _) rfl fun held hheld => ?_
        simp only [notify_books]
        exact hheld.cleanup
      · cases hs
        exact h.of_books hbusy hfds rfl rfl rfl fun _ hheld => hheld.cleanup
  · cases hs

theorem Inv.submitRead (h : s.Inv) {refusal : Option Int}
    (hs : s.submitRead unixEnd refusal = some s') : s'.Inv := by
  unfold RingReceiver.submitRead at hs
  split at hs
  · rename_i fd hstage
    have hnone : s.stage.fds = [] := congrArg ReceiveStage.fds hstage
    have hbusy : s.exited = true → s'.stage = s.stage := fun he => by
      rw [h.exited he] at hstage
      cases hstage
    dsimp only at hs
    split at hs
    · cases hs
      exact h.of_same ⟨rfl, rfl, rfl⟩ hnone.symm hbusy
    · split at hs <;>
      · cases hs
        exact h.of_same ⟨rfl, rfl, rfl⟩ hnone.symm hbusy
  · cases hs

theorem Inv.handleConnectionClose (h : s.Inv)
    (hs : s.handleConnectionClose unixEnd = some s') : s'.Inv := by
  unfold RingReceiver.handleConnectionClose at hs
  split at hs
  · rename_i fd hstage
    have hnone : s.stage.fds = [] := congrArg ReceiveStage.fds hstage
    have hbusy : s.exited = true → s'.stage = s.stage := fun he => by
      rw [h.exited he] at hstage
      cases hstage
    cases unixEnd with
    | server =>
      cases hs
      split
      · exact h.of_same ⟨notify_cq _, notify_exited _, notify_books _⟩ hnone.symm hbusy
      · exact h.of_same ⟨rfl, rfl, rfl⟩ hnone.symm hbusy
    | client =>
      cases hs
      obtain ⟨hsame, -⟩ := handleClose_same (s := s)
      exact h.of_same ⟨hsame.cq, hsame.exited, hsame.books⟩ hnone.symm hbusy
  · cases hs

theorem Inv.step (h : s.Inv) {a : RingAct} (hs : s.step unixEnd a = some s')
    (hspares : s.Spares a) : s'.Inv := by
  cases a with
  | newListener | destroyListener | start =>
    cases hs
    exact h.of_same ⟨rfl, rfl, rfl⟩ rfl fun _ => rfl
  | setListener listener =>
    simp only [RingReceiver.step] at hs
    split at hs
    · cases hs
      exact h.of_same ⟨rfl, rfl, rfl⟩ rfl fun _ => rfl
    · cases hs
  | openFile fd =>
    obtain ⟨books, hopen, rfl⟩ := Option.map_eq_some_iff.mp hs
    exact ⟨h.balanced.openFd hopen, h.exited⟩
  | closeFile fd =>
    cases hs
    exact ⟨h.balanced.closeFd hspares, h.exited⟩
  | accept fd =>
    simp only [RingReceiver.step, accept] at hs
    split at hs
    · rename_i hidle
      cases hs
      refine h.of_same ⟨rfl, rfl, rfl⟩ (by rw [hidle.1]; rfl) fun he => ?_
      rw [hidle.2] at he
      cases he
    · cases hs
  | connect fd =>
    simp only [RingReceiver.step] at hs
    split at hs
    · cases hs
      exact h.of_same ⟨rfl, rfl, rfl⟩ rfl fun _ => rfl
    · cases hs
  | stop =>
    cases hs
    obtain ⟨hsame, hstage⟩ := s.stop_same unixEnd
    exact h.of_same hsame (congrArg ReceiveStage.fds hstage) fun _ => hstage
  | complete fd result control => exact h.complete hs
  | post entry =>
    simp only [RingReceiver.step] at hs
    split at hs
    · rename_i hnone
      cases hs
      refine ⟨?_, h.exited⟩
      have hsame : s.waitingFds =
          (s.cq ++ [entry]).flatMap RingEntry.fds ++ s.stage.fds := by
        simp [waitingFds, hnone]
      exact h.balanced.perm (List.Perm.of_eq hsame)
    · cases hs
  | waitCqe => exact h.waitCqe hs
  | findSession => exact h.findSession hs
  | handleReceiveWithFds => exact h.handleReceiveWithFds hs
  | submitRead refusal => exact h.submitRead hs
  | handleConnectionClose => exact h.handleConnectionClose hs

theorem inv_of_run {as : List RingAct} (h : s.Inv)
    (hrun : (machine unixEnd).run s as = some s')
    (hspares : (machine unixEnd).Every (fun u a _ => u.Spares a) s as) : s'.Inv :=
  (machine unixEnd).run_invariant_of_every (fun _ _ _ hs hstep => hs.step hstep) h hspares hrun

structure Lingers (s s' : RingReceiver) : Prop where
  exited : s'.exited = true
  fds : s.waitingFds ⊆ s'.waitingFds
  kept : ∀ fd ∈ s.waitingFds, s'.books.table.lookup fd = s.books.table.lookup fd

theorem Lingers.of_same (he : s.exited = true) (hsame : s.Same s')
    (hstage : s'.stage = s.stage) : s.Lingers s' where
  exited := hsame.exited.trans he
  fds := by
    rw [waitingFds, waitingFds, hsame.cq, hstage]
    exact List.Subset.refl _
  kept _ _ := by rw [hsame.books]

theorem Inv.lingers (h : s.Inv) (he : s.exited = true) {a : RingAct}
    (hs : s.step unixEnd a = some s') (hspares : s.Spares a) : s.Lingers s' := by
  have hidle := h.exited he
  cases a with
  | newListener | destroyListener | start =>
    cases hs
    exact .of_same he ⟨rfl, rfl, rfl⟩ rfl
  | setListener listener =>
    simp only [RingReceiver.step] at hs
    split at hs
    · cases hs
      exact .of_same he ⟨rfl, rfl, rfl⟩ rfl
    · cases hs
  | openFile fd =>
    obtain ⟨books, hopen, rfl⟩ := Option.map_eq_some_iff.mp hs
    exact ⟨he, List.Subset.refl _, fun x hx => h.balanced.lookup_openFd hopen hx⟩
  | closeFile fd =>
    cases hs
    exact ⟨he, List.Subset.refl _, fun x hx =>
      Posix.DescriptorBooks.lookup_closeFd fun hxfd => hspares (hxfd ▸ hx)⟩
  | connect fd =>
    simp only [RingReceiver.step] at hs
    split at hs
    · cases hs
      exact .of_same he ⟨rfl, rfl, rfl⟩ rfl
    · cases hs
  | stop =>
    cases hs
    obtain ⟨hsame, hstage⟩ := s.stop_same unixEnd
    exact .of_same he hsame hstage
  | complete fd result control =>
    simp only [RingReceiver.step, RingReceiver.complete] at hs
    split at hs
    · obtain ⟨books, hinstall, rfl⟩ := Option.map_eq_some_iff.mp hs
      refine ⟨he, ?_, (h.balanced.install hinstall).2⟩
      simp only [waitingFds, hidle, List.flatMap_append]
      exact List.append_subset.mpr ⟨List.subset_append_of_subset_left _
        (List.subset_append_left _ _), List.subset_append_right _ _⟩
    · cases hs
  | post entry =>
    simp only [RingReceiver.step] at hs
    split at hs
    · rename_i hnone
      cases hs
      refine ⟨he, ?_, fun _ _ => rfl⟩
      simp [waitingFds, hnone]
    · cases hs
  | accept | waitCqe =>
    simp [RingReceiver.step, RingReceiver.accept, RingReceiver.waitCqe, he] at hs
  | findSession | handleReceiveWithFds | submitRead | handleConnectionClose =>
    simp [RingReceiver.step, RingReceiver.findSession, RingReceiver.handleReceiveWithFds,
      RingReceiver.submitRead, RingReceiver.handleConnectionClose, hidle] at hs

theorem Lingers.run {t : RingReceiver} {as : List RingAct} (h : s.Inv) (he : s.exited = true)
    (hrun : (machine unixEnd).run s as = some t)
    (hspares : (machine unixEnd).Every (fun u a _ => u.Spares a) s as) : s.Lingers t := by
  induction as generalizing s with
  | nil =>
    cases hrun
    exact ⟨he, List.Subset.refl _, fun _ _ => rfl⟩
  | cons a as ih =>
    obtain ⟨s', ha, has⟩ := (machine unixEnd).run_cons.mp hrun
    obtain ⟨hspare, hspares⟩ := hspares s' ha
    have hfirst := h.lingers he ha hspare
    have hrest := ih (h.step ha hspare) hfirst.exited has hspares
    refine ⟨hrest.exited, List.Subset.trans hfirst.fds hrest.fds, fun fd hfd => ?_⟩
    exact (hrest.kept fd (hfirst.fds hfd)).trans (hfirst.kept fd hfd)

theorem Inv.stranded (h : s.Inv) (he : s.exited = true) : s.Stranded unixEnd := by
  intro t as hrun hspares file hfile
  have hlingers := Lingers.run h he hrun hspares
  obtain ⟨fd, hfd, hlookup⟩ := List.mem_filterMap.mp hfile
  have hwaits : file ∈ t.waiting := by
    refine List.mem_filterMap.mpr ⟨fd, hlingers.fds hfd, ?_⟩
    rw [hlingers.kept fd hfd]
    exact hlookup
  exact ⟨hwaits, ((inv_of_run h hrun hspares).balanced.of_held hwaits).2⟩

/-- As long as nobody closes what is on its way, nothing that came with a message to either end
is lost or handled twice, and once `Run` has returned what is still in the completion queue is
stranded there. -/
theorem received_accounted {as : List RingAct}
    (h : (machine unixEnd).run created as = some s)
    (hspares : (machine unixEnd).Every (fun u a _ => u.Spares a) created as) :
    s.NoneLost ∧ (s.exited = true → s.Stranded unixEnd) := by
  have hinv := inv_of_run created_inv h hspares
  exact ⟨fun _ hfile => hinv.balanced.once hfile, hinv.stranded⟩

/-- Two messages stand in the queue with the exit request between them; the listener has gone
when the first is processed, and a number of the first is used for a while by somebody else. -/
def exitBetween : List RingAct :=
  [.newListener, .setListener (some 0), .start, .accept 4, .submitRead none,
    .complete 4 (.bytes [97]) [⟨true, [5, 6]⟩], .waitCqe, .findSession, .destroyListener 0,
    .handleReceiveWithFds, .submitRead none, .openFile 6, .post .exit,
    .complete 4 (.bytes [0]) [⟨true, [5]⟩], .closeFile 6, .waitCqe]

theorem received_accounted_exitBetween :
    ∃ s, (machine .server).run created exitBetween = some s ∧
      (s.waiting = [3] ∧ s.books.handed = [] ∧ s.books.closed = [0, 1]) ∧
      s.NoneLost ∧ s.Stranded .server := by
  have hrun : (machine .server).run created exitBetween = some _ := rfl
  have h := received_accounted hrun ((machine .server).every_of_check (by decide))
  exact ⟨_, hrun, by decide, h.1, h.2 rfl⟩

end RingReceiver

end Lmnet.IoUring
