import Lmnet.Windows.ClientClose
import Mathlib.Data.List.Perm.Subperm

/-!
The Windows `TcpClientImpl`: its calls, the completions of its connects, reads and writes,
and the handlers that its task queue runs for them. Each handler is one step, and so are
the two ends of `Connect`, which waits in between. The listener is alive; what it calls
from `OnError` and `OnClose` comes after everything a handler does.
-/

set_option autoImplicit false

namespace Lmnet.Windows

/-- How `ReInit` ends: `WSASocketW` fails, the new socket cannot be bound, associated or
addressed and is closed again, or it is there. -/
inductive ReInitOutcome where
  | noSocket | unusable | created
  deriving DecidableEq, Repr

inductive ClientIoKind where
  | connect | read | write
  deriving DecidableEq, Repr

/-- An operation on a socket with the generation its callback has captured. -/
structure ClientIo where
  kind : ClientIoKind
  generation : Nat
  socket : Option Nat
  deriving DecidableEq, Repr

structure ClientTask where
  io : ClientIo
  bytes : Nat
  error : Nat
  deriving DecidableEq, Repr

inductive ClientEvent where
  | connected (fd : Option Nat)
  | onReceive (fd : Option Nat)
  | onError (fd : Option Nat)
  | onClose (fd : Option Nat)
  | closesocket (fd : Nat)
  deriving DecidableEq, Repr

/-- The calls that run in one step. `connectBlocking` is a `Connect` from `OnReceive`, where
it keeps the task queue from running a handler until it returns. -/
inductive ClientCall where
  | init (taskQueue iocp : Bool) (reInit : ReInitOutcome)
  | send (data submitted : Bool)
  | close
  | connectBlocking (submitted : Bool) (reInit timeoutReInit : ReInitOutcome)
  deriving DecidableEq, Repr

/-- What a handler meets: the error of `setsockopt`, whether `SubmitReadRequest` succeeds
and, if not, what `IsSocketInBenignCloseState` says, the outcome of a `ReInit`, and the
calls that the listener makes from `OnReceive`. -/
structure HandlerAnswers where
  setsockopt : Nat
  submitted : Bool
  benign : Bool
  reInit : ReInitOutcome
  calls : List ClientCall
  deriving DecidableEq, Repr

/-- Sockets are numbered as they are created. `socketGeneration_` is a `uint64_t`, which no client
gets through. `waiting` are the calls of `Connect` in `wait_for`. -/
structure TcpClient where
  isRunning : Bool
  isConnected : Bool
  socket : Option Nat
  sockets : Nat
  socketGeneration : Nat
  connectPending : Bool
  connectSuccess : Bool
  lastConnectError : Nat
  waiting : Nat
  posted : List ClientIo
  tasks : List ClientTask
  log : List ClientEvent
  deriving DecidableEq, Repr

inductive ClientAct where
  | call (c : ClientCall)
  | connect (submitted : Bool) (reInit : ReInitOutcome)
  | connectReturn
  | connectTimeout (reInit : ReInitOutcome)
  | complete (k bytes error : Nat)
  | runTask (k : Nat) (answers : HandlerAnswers)
  deriving DecidableEq, Repr

namespace TcpClient

def created : TcpClient :=
  ⟨false, false, none, 0, 0, false, false, 0, 0, [], [], []⟩

def advanceGeneration (s : TcpClient) : TcpClient :=
  { s with socketGeneration := s.socketGeneration + 1 }

def isCurrentGeneration (s : TcpClient) (generation : Nat) : Bool :=
  s.socketGeneration == generation

def closesocket (s : TcpClient) : TcpClient :=
  match s.socket with
  | none => s
  | some fd => { s with log := s.log ++ [.closesocket fd] }

def replaceSocket (s : TcpClient) (outcome : ReInitOutcome) : TcpClient :=
  let s := s.closesocket
  match outcome with
  | .noSocket => { s with socket := none }
  | .unusable =>
      { s with
        socket := none
        sockets := s.sockets + 1
        log := s.log ++ [.closesocket s.sockets] }
  | .created =>
      { s with socket := some s.sockets, sockets := s.sockets + 1, isConnected := false }

def reInit (s : TcpClient) (outcome : ReInitOutcome) : TcpClient :=
  s.advanceGeneration.replaceSocket outcome

/-- `Init`; its arguments say whether the task queue and the IOCP manager start. -/
def init (s : TcpClient) (taskQueue iocp : Bool) (outcome : ReInitOutcome) : TcpClient :=
  if taskQueue && iocp then
    let s := s.reInit outcome
    if s.socket = none then s else { s with isRunning := true }
  else s

def notifyClose (s : TcpClient) (fd : Option Nat) (isError : Bool) : TcpClient :=
  { s with log := s.log ++ if isError then [.onError fd, .onClose fd] else [.onClose fd] }

def abandonConnect (s : TcpClient) (abortError : Nat) : TcpClient :=
  if s.connectPending then
    { s with connectPending := false, connectSuccess := false, lastConnectError := abortError }
  else s

def dropSocket (s : TcpClient) : TcpClient := { s.closesocket with socket := none }

/-- What `Close` and `HandleClose` have in common. -/
def tearDown (s : TcpClient) (isError : Bool) (abortError : Nat) : TcpClient :=
  let closed : TcpClient := { s with isConnected := false, isRunning := false }
  let closed := closed.advanceGeneration.dropSocket.abandonConnect abortError
  if s.isConnected then closed.notifyClose s.socket isError else closed

def handleClose (s : TcpClient) (isError : Bool) : TcpClient :=
  s.tearDown isError (if isError then ERROR_OPERATION_ABORTED else 0)

def close (s : TcpClient) : TcpClient :=
  if s.isRunning then s.tearDown false ERROR_OPERATION_ABORTED else s

def send (s : TcpClient) (data submitted : Bool) : TcpClient :=
  if data && s.isRunning && s.isConnected && submitted then
    { s with posted := s.posted ++ [⟨.write, s.socketGeneration, s.socket⟩] }
  else s

def beginConnect (s : TcpClient) : TcpClient :=
  { s with connectPending := true, connectSuccess := false, lastConnectError := 0 }

def failConnect (s : TcpClient) : TcpClient :=
  { s with
    connectPending := false
    connectSuccess := false
    lastConnectError := ERROR_OPERATION_ABORTED
    isConnected := false }

def publishConnect (s : TcpClient) (connectError : Nat) : TcpClient :=
  { s with
    connectPending := false
    connectSuccess := connectError = 0
    lastConnectError := connectError
    isConnected := connectError = 0 }

def submitConnect (s : TcpClient) (submitted : Bool) (outcome : ReInitOutcome) : TcpClient :=
  if submitted then
    { s with posted := s.posted ++ [⟨.connect, s.socketGeneration, s.socket⟩] }
  else s.failConnect.reInit outcome

def connect (s : TcpClient) (submitted : Bool) (outcome : ReInitOutcome) : TcpClient :=
  if !s.isRunning || s.isConnected || s.connectPending then s
  else submitConnect { s.beginConnect with waiting := s.waiting + 1 } submitted outcome

def connectReturn (s : TcpClient) : Option TcpClient :=
  if 0 < s.waiting ∧ s.connectPending = false then some { s with waiting := s.waiting - 1 }
  else none

def connectTimeout (s : TcpClient) (outcome : ReInitOutcome) : Option TcpClient :=
  if 0 < s.waiting ∧ s.connectPending = true then
    some (reInit { s with connectPending := false, waiting := s.waiting - 1 } outcome)
  else none

/-- `Connect` where nothing comes between its submission and the end of its wait. -/
def connectBlocking (s : TcpClient) (submitted : Bool) (outcome timeout : ReInitOutcome) :
    TcpClient :=
  let t := s.connect submitted outcome
  if s.waiting < t.waiting then (t.connectReturn.or (t.connectTimeout timeout)).getD t else t

def call (s : TcpClient) : ClientCall → TcpClient
  | .init taskQueue iocp outcome => s.init taskQueue iocp outcome
  | .send data submitted => s.send data submitted
  | .close => s.close
  | .connectBlocking submitted outcome timeout => s.connectBlocking submitted outcome timeout

def submitRead (s : TcpClient) (answers : HandlerAnswers) : TcpClient :=
  if !s.isRunning || !s.isConnected then s
  else if answers.submitted then
    { s with posted := s.posted ++ [⟨.read, s.socketGeneration, s.socket⟩] }
  else s.handleClose (!answers.benign)

def handleConnect (s : TcpClient) (generation error : Nat) (answers : HandlerAnswers) :
    TcpClient :=
  if !s.isCurrentGeneration generation then s
  else
    let connectError := if error = 0 then answers.setsockopt else error
    let s := s.publishConnect connectError
    if connectError = 0 then
      submitRead { s with log := s.log ++ [.connected s.socket] } answers
    else s.reInit answers.reInit

def handleReceive (s : TcpClient) (generation bytesReceived error : Nat)
    (answers : HandlerAnswers) : TcpClient :=
  if !s.isCurrentGeneration generation then s
  else if error ≠ 0 then s.handleClose (!isExpectedSocketShutdownError error)
  else if bytesReceived = 0 then s.handleClose false
  else
    (answers.calls.foldl call { s with log := s.log ++ [.onReceive s.socket] }).submitRead answers

def handleSend (s : TcpClient) (generation error : Nat) : TcpClient :=
  if !s.isCurrentGeneration generation then s
  else if error ≠ 0 then s.handleClose true
  else s

/-- The callback of a completion queues the task, unless it finds the client closed. -/
def complete (s : TcpClient) (k bytes error : Nat) : Option TcpClient :=
  s.posted[k]?.map fun io =>
    let queued :=
      match io.kind with
      | .connect => s.isCurrentGeneration io.generation || s.isRunning
      | .read => true
      | .write => s.isRunning
    { s with
      posted := s.posted.eraseIdx k
      tasks := s.tasks ++ if queued then [⟨io, bytes, error⟩] else [] }

def handle (s : TcpClient) (task : ClientTask) (answers : HandlerAnswers) : TcpClient :=
  match task.io.kind with
  | .connect => s.handleConnect task.io.generation task.error answers
  | .read => s.handleReceive task.io.generation task.bytes task.error answers
  | .write => s.handleSend task.io.generation task.error

def step (s : TcpClient) : ClientAct → Option TcpClient
  | .call c => some (s.call c)
  | .connect submitted outcome => some (s.connect submitted outcome)
  | .connectReturn => s.connectReturn
  | .connectTimeout outcome => s.connectTimeout outcome
  | .complete k bytes error => s.complete k bytes error
  | .runTask k answers =>
      s.tasks[k]?.map fun task => handle { s with tasks := s.tasks.eraseIdx k } task answers

def machine : Machine TcpClient ClientAct where
  init s := s = created
  step := step

def outstanding (s : TcpClient) : List ClientIo := s.posted ++ s.tasks.map ClientTask.io

def isCurrent (generation : Nat) (kind : ClientIoKind) (io : ClientIo) : Bool :=
  io.kind == kind && io.generation == generation

def current (s : TcpClient) (kind : ClientIoKind) : Nat :=
  s.outstanding.countP (isCurrent s.socketGeneration kind)

def completionOf (s : TcpClient) : ClientAct → Option Nat
  | .complete k _ _ => s.posted[k]?.map ClientIo.generation
  | .runTask k _ => s.tasks[k]?.map fun task => task.io.generation
  | _ => none

end TcpClient

namespace ClientEvent

def permits (b : Bool) : ClientEvent → Bool
  | .connected _ => true
  | .onClose _ => false
  | .onReceive _ | .onError _ | .closesocket _ => b

/-- There has been a connect since the last `OnClose`. -/
def mayClose (log : List ClientEvent) : Bool := log.foldl permits false

/-- Each `OnClose` has a connect of its own before it. -/
def Matched (log : List ClientEvent) : Prop :=
  ∀ l r fd, log = l ++ .onClose fd :: r → mayClose l = true

@[simp] theorem mayClose_concat (log : List ClientEvent) (e : ClientEvent) :
    mayClose (log ++ [e]) = e.permits (mayClose log) := by
  simp [mayClose]

theorem Matched.concat {log : List ClientEvent} (h : Matched log) {e : ClientEvent}
    (he : ∀ fd, e = .onClose fd → mayClose log = true) : Matched (log ++ [e]) := by
  intro l r fd hsplit
  obtain rfl | ⟨r, e', rfl⟩ := List.eq_nil_or_concat r
  · obtain ⟨rfl, heq⟩ := List.append_inj' hsplit rfl
    obtain rfl := List.singleton_inj.mp heq
    exact he fd rfl
  · have hassoc : log ++ [e] = (l ++ .onClose fd :: r) ++ [e'] := by simpa using hsplit
    exact h l r fd (List.append_inj' hassoc rfl).1

end ClientEvent

namespace TcpClient

open ClientEvent

def Aged (s : TcpClient) : Prop := ∀ io ∈ s.outstanding, io.generation < s.socketGeneration

/-- At most one connect or one read of the current generation is outstanding, and a
connected client may still deliver an `OnClose`. -/
structure Inv (s : TcpClient) : Prop where
  bounded : ∀ io ∈ s.outstanding, io.generation ≤ s.socketGeneration
  connects : s.current .connect ≤ (s.connectPending && !s.isConnected).toNat
  reads : s.current .read ≤ s.isConnected.toNat
  closable : s.isConnected = true → mayClose s.log = true
  matched : Matched s.log

theorem inv_created : created.Inv where
  bounded _ h := absurd h List.not_mem_nil
  connects := Nat.zero_le _
  reads := Nat.zero_le _
  closable h := by cases h
  matched l r fd h := by
    have hnil : ([] : List ClientEvent) = l ++ .onClose fd :: r := h
    simp at hnil

theorem Aged.current_eq_zero {s : TcpClient} (h : s.Aged) (kind : ClientIoKind) :
    s.current kind = 0 := by
  rw [current, List.countP_eq_zero]
  intro io hio
  have hlt := h io hio
  simp only [isCurrent, Bool.and_eq_true, beq_iff_eq, not_and]
  omega

theorem Aged.inv {s : TcpClient} (h : s.Aged)
    (hclosable : s.isConnected = true → mayClose s.log = true) (hmatched : Matched s.log) :
    s.Inv where
  bounded io hio := Nat.le_of_lt (h io hio)
  connects := by rw [h.current_eq_zero]; exact Nat.zero_le _
  reads := by rw [h.current_eq_zero]; exact Nat.zero_le _
  closable := hclosable
  matched := hmatched

theorem Inv.aged {s t : TcpClient} (hs : s.Inv) (hout : t.outstanding = s.outstanding)
    (hgen : s.socketGeneration < t.socketGeneration) : t.Aged := by
  intro io hio
  rw [hout] at hio
  have hle := hs.bounded io hio
  omega

structure Renewed (s t : TcpClient) : Prop where
  outstanding : t.outstanding = s.outstanding
  generation : t.socketGeneration = s.socketGeneration + 1
  connected : t.isConnected = true → s.isConnected = true
  mayClose : ClientEvent.mayClose t.log = ClientEvent.mayClose s.log
  matched : Matched s.log → Matched t.log

theorem renewed_closesocket (s : TcpClient) : s.Renewed s.advanceGeneration.closesocket := by
  unfold closesocket
  split
  · exact ⟨rfl, rfl, id, rfl, id⟩
  · exact ⟨rfl, rfl, id, mayClose_concat s.log _, fun h => h.concat (by simp)⟩

theorem renewed_dropSocket (s : TcpClient) : s.Renewed s.advanceGeneration.dropSocket := by
  have h := s.renewed_closesocket
  exact ⟨h.outstanding, h.generation, h.connected, h.mayClose, h.matched⟩

theorem reInit_renewed (s : TcpClient) (outcome : ReInitOutcome) :
    s.Renewed (s.reInit outcome) := by
  have hclosed := s.renewed_closesocket
  unfold reInit replaceSocket
  cases outcome with
  | noSocket =>
    exact ⟨hclosed.outstanding, hclosed.generation, hclosed.connected, hclosed.mayClose,
      hclosed.matched⟩
  | unusable =>
    refine ⟨hclosed.outstanding, hclosed.generation, hclosed.connected, ?_, fun h => ?_⟩
    · exact (mayClose_concat _ _).trans hclosed.mayClose
    · exact (hclosed.matched h).concat (by simp)
  | created =>
    exact ⟨hclosed.outstanding, hclosed.generation, by simp, hclosed.mayClose, hclosed.matched⟩

theorem Renewed.abandonConnect {s t : TcpClient} (h : s.Renewed t) (abortError : Nat) :
    s.Renewed (t.abandonConnect abortError) := by
  unfold TcpClient.abandonConnect
  split
  · exact ⟨h.outstanding, h.generation, h.connected, h.mayClose, h.matched⟩
  · exact h

theorem Inv.renewed_aged {s t : TcpClient} (hs : s.Inv) (h : s.Renewed t) : t.Aged :=
  hs.aged h.outstanding (h.generation ▸ Nat.lt_succ_self _)

theorem Inv.renewed {s t : TcpClient} (hs : s.Inv) (h : s.Renewed t) : t.Inv := by
  refine (hs.renewed_aged h).inv (fun hconnected => ?_) (h.matched hs.matched)
  rw [h.mayClose]
  exact hs.closable (h.connected hconnected)

theorem closed_renewed (s : TcpClient) (abortError : Nat) :
    let closed := ({ s with isConnected := false, isRunning := false } :
      TcpClient).advanceGeneration.dropSocket.abandonConnect abortError
    s.Renewed closed ∧ closed.isConnected = false := by
  have hdropped := renewed_dropSocket { s with isConnected := false, isRunning := false }
  have h := hdropped.abandonConnect abortError
  have hconnected := Bool.eq_false_iff.mpr fun hc => absurd (h.connected hc) (by simp)
  exact ⟨⟨h.outstanding, h.generation, fun hc => absurd (h.connected hc) (by simp), h.mayClose,
    h.matched⟩, hconnected⟩

theorem notifyClose_inv {s : TcpClient} (hs : s.Inv) (hconnected : s.isConnected = false)
    (hmay : mayClose s.log = true) (fd : Option Nat) (isError : Bool) :
    (s.notifyClose fd isError).Inv := by
  refine ⟨hs.bounded, hs.connects, hs.reads, fun h => ?_, ?_⟩
  · exact absurd h (by simp [notifyClose, hconnected])
  · unfold notifyClose
    cases isError with
    | false => exact hs.matched.concat fun _ _ => hmay
    | true =>
      have herror : Matched (s.log ++ [.onError fd]) := hs.matched.concat (by simp)
      have hclose := herror.concat (e := .onClose fd) fun _ _ => (mayClose_concat _ _).trans hmay
      simpa using hclose

theorem tearDown_inv {s : TcpClient} (hs : s.Inv) (isError : Bool) (abortError : Nat) :
    (s.tearDown isError abortError).Inv := by
  obtain ⟨hrenewed, hdown⟩ := s.closed_renewed abortError
  unfold tearDown
  dsimp only
  split
  · rename_i hconnected
    have hmay := hrenewed.mayClose.trans (hs.closable hconnected)
    exact notifyClose_inv (hs.renewed hrenewed) hdown hmay s.socket isError
  · exact hs.renewed hrenewed

theorem tearDown_reads {s : TcpClient} (hs : s.Inv) (isError : Bool) (abortError : Nat) :
    (s.tearDown isError abortError).current .read = 0 := by
  have haged := hs.renewed_aged (s.closed_renewed abortError).1
  unfold tearDown
  dsimp only
  split
  · exact haged.current_eq_zero .read
  · exact haged.current_eq_zero .read

theorem handleClose_inv {s : TcpClient} (hs : s.Inv) (isError : Bool) :
    (s.handleClose isError).Inv := tearDown_inv hs isError _

theorem close_inv {s : TcpClient} (hs : s.Inv) : s.close.Inv := by
  unfold close
  split
  · exact tearDown_inv hs false _
  · exact hs

theorem init_inv {s : TcpClient} (hs : s.Inv) (taskQueue iocp : Bool)
    (outcome : ReInitOutcome) : (s.init taskQueue iocp outcome).Inv := by
  have hrenewed := hs.renewed (s.reInit_renewed outcome)
  unfold init
  split
  · dsimp only
    split
    · exact hrenewed
    · exact ⟨hrenewed.bounded, hrenewed.connects, hrenewed.reads, hrenewed.closable,
        hrenewed.matched⟩
  · exact hs

theorem current_post (s : TcpClient) (kind kind' : ClientIoKind) (socket : Option Nat) :
    ({ s with posted := s.posted ++ [⟨kind, s.socketGeneration, socket⟩] } :
      TcpClient).current kind' = s.current kind' + (kind == kind').toNat := by
  have hnew : isCurrent s.socketGeneration kind' ⟨kind, s.socketGeneration, socket⟩ =
      (kind == kind') := by
    simp [isCurrent]
  simp only [current, outstanding, List.countP_append, List.countP_singleton, hnew]
  cases kind == kind' with
  | false => simp
  | true =>
    simp
    omega

theorem bounded_post {s : TcpClient} (hs : s.Inv) (kind : ClientIoKind)
    (socket : Option Nat) : ∀ io ∈ ({ s with
      posted := s.posted ++ [⟨kind, s.socketGeneration, socket⟩] } : TcpClient).outstanding,
      io.generation ≤ s.socketGeneration := by
  intro io hio
  simp only [outstanding, List.mem_append, List.mem_singleton] at hio
  obtain (hio | rfl) | hio := hio
  · exact hs.bounded io (List.mem_append_left _ hio)
  · exact Nat.le_refl _
  · exact hs.bounded io (List.mem_append_right _ hio)

theorem send_inv {s : TcpClient} (hs : s.Inv) (data submitted : Bool) :
    (s.send data submitted).Inv := by
  unfold send
  split
  · have hconnect := s.current_post .write .connect s.socket
    have hread := s.current_post .write .read s.socket
    exact ⟨bounded_post hs .write s.socket, by rw [hconnect]; exact hs.connects,
      by rw [hread]; exact hs.reads, hs.closable, hs.matched⟩
  · exact hs

theorem submitConnect_inv {s : TcpClient} (hs : s.Inv) (hpending : s.connectPending = true)
    (hconnected : s.isConnected = false) (hnone : s.current .connect = 0) (submitted : Bool)
    (outcome : ReInitOutcome) : (s.submitConnect submitted outcome).Inv := by
  unfold submitConnect
  split
  · have hconnect := s.current_post .connect .connect s.socket
    have hread := s.current_post .connect .read s.socket
    refine ⟨bounded_post hs .connect s.socket, ?_, by rw [hread]; exact hs.reads, hs.closable,
      hs.matched⟩
    rw [hconnect, hnone, hpending, hconnected]
    exact Nat.le_refl _
  · have h := s.failConnect.reInit_renewed outcome
    exact hs.renewed ⟨h.outstanding, h.generation,
      fun hc => absurd (h.connected hc) (by simp [failConnect]), h.mayClose, h.matched⟩

theorem connect_inv {s : TcpClient} (hs : s.Inv) (submitted : Bool)
    (outcome : ReInitOutcome) : (s.connect submitted outcome).Inv := by
  unfold connect
  split
  · exact hs
  · rename_i hfree
    simp only [Bool.or_eq_true, Bool.not_eq_true', not_or, Bool.not_eq_false,
      Bool.not_eq_true] at hfree
    obtain ⟨⟨-, hconnected⟩, hpending⟩ := hfree
    have hzero : s.current .connect = 0 := by
      have hle := hs.connects
      rw [hpending] at hle
      exact Nat.le_zero.mp hle
    have hwaiting : ({ s.beginConnect with waiting := s.waiting + 1 } : TcpClient).Inv :=
      ⟨hs.bounded, Nat.le_trans (Nat.le_of_eq hzero) (Nat.zero_le _), hs.reads, hs.closable,
        hs.matched⟩
    exact submitConnect_inv hwaiting rfl hconnected hzero submitted outcome

theorem submitRead_inv {s : TcpClient} (hs : s.Inv) (hnone : s.current .read = 0)
    (answers : HandlerAnswers) : (s.submitRead answers).Inv := by
  unfold submitRead
  split
  · exact hs
  · rename_i hconnected
    simp only [Bool.or_eq_true, Bool.not_eq_true', not_or, Bool.not_eq_false] at hconnected
    split
    · have hconnect := s.current_post .read .connect s.socket
      have hread := s.current_post .read .read s.socket
      refine ⟨bounded_post hs .read s.socket, by rw [hconnect]; exact hs.connects, ?_,
        hs.closable, hs.matched⟩
      rw [hread, hnone, hconnected.2]
      exact Nat.le_refl _
    · exact handleClose_inv hs _

theorem connectReturn_inv {s t : TcpClient} (hs : s.Inv) (h : s.connectReturn = some t) :
    t.Inv := by
  unfold connectReturn at h
  split at h
  · cases h
    exact ⟨hs.bounded, hs.connects, hs.reads, hs.closable, hs.matched⟩
  · cases h

theorem connectTimeout_inv {s t : TcpClient} (hs : s.Inv) {outcome : ReInitOutcome}
    (h : s.connectTimeout outcome = some t) : t.Inv := by
  unfold connectTimeout at h
  split at h
  · cases h
    have hrenewed := reInit_renewed { s with
      connectPending := false
      waiting := s.waiting - 1 } outcome
    exact hs.renewed ⟨hrenewed.outstanding, hrenewed.generation, hrenewed.connected,
      hrenewed.mayClose, hrenewed.matched⟩
  · cases h

theorem connectBlocking_inv {s : TcpClient} (hs : s.Inv) (submitted : Bool)
    (outcome timeout : ReInitOutcome) : (s.connectBlocking submitted outcome timeout).Inv := by
  have hconnect := connect_inv hs submitted outcome
  unfold connectBlocking
  dsimp only
  split
  · cases hreturn : (s.connect submitted outcome).connectReturn with
    | some t => exact connectReturn_inv hconnect hreturn
    | none =>
      cases htimeout : (s.connect submitted outcome).connectTimeout timeout with
      | some t => exact connectTimeout_inv hconnect htimeout
      | none => exact hconnect
  · exact hconnect

theorem call_inv {s : TcpClient} (hs : s.Inv) (c : ClientCall) : (s.call c).Inv := by
  cases c with
  | init taskQueue iocp outcome => exact init_inv hs taskQueue iocp outcome
  | send data submitted => exact send_inv hs data submitted
  | close => exact close_inv hs
  | connectBlocking submitted outcome timeout =>
    exact connectBlocking_inv hs submitted outcome timeout

theorem connect_reads {s : TcpClient} (hs : s.Inv) (submitted : Bool)
    (outcome : ReInitOutcome) : (s.connect submitted outcome).current .read ≤ s.current .read := by
  unfold connect
  split
  · exact Nat.le_refl _
  · unfold submitConnect
    split
    · exact Nat.le_of_eq (current_post { s.beginConnect with waiting := s.waiting + 1 }
        .connect .read s.socket)
    · have h := reInit_renewed { s.failConnect with waiting := s.waiting + 1 } outcome
      have haged := hs.aged h.outstanding (h.generation ▸ Nat.lt_succ_self _)
      exact Nat.le_trans (Nat.le_of_eq (haged.current_eq_zero .read)) (Nat.zero_le _)

theorem connectTimeout_reads {s t : TcpClient} (hs : s.Inv) {outcome : ReInitOutcome}
    (h : s.connectTimeout outcome = some t) : t.current .read = 0 := by
  unfold connectTimeout at h
  split at h
  · cases h
    have hrenewed := reInit_renewed { s with
      connectPending := false
      waiting := s.waiting - 1 } outcome
    have haged := hs.aged hrenewed.outstanding (hrenewed.generation ▸ Nat.lt_succ_self _)
    exact haged.current_eq_zero .read
  · cases h

theorem connectReturn_reads {s t : TcpClient} (h : s.connectReturn = some t) :
    t.current .read = s.current .read := by
  unfold connectReturn at h
  split at h
  · cases h
    rfl
  · cases h

theorem connectBlocking_reads {s : TcpClient} (hs : s.Inv) (submitted : Bool)
    (outcome timeout : ReInitOutcome) :
    (s.connectBlocking submitted outcome timeout).current .read ≤ s.current .read := by
  have hconnect := connect_reads hs submitted outcome
  unfold connectBlocking
  dsimp only
  split
  · cases hreturn : (s.connect submitted outcome).connectReturn with
    | some t => exact Nat.le_trans (Nat.le_of_eq (connectReturn_reads hreturn)) hconnect
    | none =>
      cases htimeout : (s.connect submitted outcome).connectTimeout timeout with
      | some t =>
        have hzero := connectTimeout_reads (connect_inv hs submitted outcome) htimeout
        exact Nat.le_trans (Nat.le_of_eq hzero) (Nat.zero_le _)
      | none => exact hconnect
  · exact hconnect

theorem call_reads {s : TcpClient} (hs : s.Inv) (c : ClientCall) :
    (s.call c).current .read ≤ s.current .read := by
  cases c with
  | init taskQueue iocp outcome =>
    have hzero := (hs.renewed_aged (s.reInit_renewed outcome)).current_eq_zero .read
    simp only [call, init]
    split
    · split
      · exact Nat.le_trans (Nat.le_of_eq hzero) (Nat.zero_le _)
      · exact Nat.le_trans (Nat.le_of_eq hzero) (Nat.zero_le _)
    · exact Nat.le_refl _
  | send data submitted =>
    simp only [call, send]
    split
    · exact Nat.le_of_eq (s.current_post .write .read s.socket)
    · exact Nat.le_refl _
  | close =>
    simp only [call, close]
    split
    · have hzero := tearDown_reads hs false ERROR_OPERATION_ABORTED
      exact Nat.le_trans (Nat.le_of_eq hzero) (Nat.zero_le _)
    · exact Nat.le_refl _
  | connectBlocking submitted outcome timeout =>
    exact connectBlocking_reads hs submitted outcome timeout

theorem calls_quiet (calls : List ClientCall) {s : TcpClient} (hs : s.Inv)
    (hnone : s.current .read = 0) :
    (calls.foldl call s).Inv ∧ (calls.foldl call s).current .read = 0 := by
  induction calls generalizing s with
  | nil => exact ⟨hs, hnone⟩
  | cons c calls ih =>
    have hle := call_reads hs c
    exact ih (call_inv hs c) (by omega)

theorem handleReceive_inv {s : TcpClient} (hs : s.Inv) {generation : Nat}
    (hnone : s.socketGeneration = generation → s.current .read = 0) (bytesReceived error : Nat)
    (answers : HandlerAnswers) :
    (s.handleReceive generation bytesReceived error answers).Inv := by
  unfold handleReceive
  split
  · exact hs
  · rename_i hcurrent
    split
    · exact handleClose_inv hs _
    · split
      · exact handleClose_inv hs _
      · have hnotified : ({ s with log := s.log ++ [.onReceive s.socket] } : TcpClient).Inv :=
          ⟨hs.bounded, hs.connects, hs.reads, fun h => (mayClose_concat _ _).trans (hs.closable h),
            hs.matched.concat (by simp)⟩
        have hgen : s.socketGeneration = generation := by simpa [isCurrentGeneration] using hcurrent
        obtain ⟨hcalls, hread⟩ := calls_quiet answers.calls hnotified (hnone hgen)
        exact submitRead_inv hcalls hread answers

theorem handleConnect_inv {s : TcpClient} (hs : s.Inv) {generation : Nat}
    (hnone : s.socketGeneration = generation → s.current .connect = 0 ∧ s.current .read = 0)
    (error : Nat) (answers : HandlerAnswers) : (s.handleConnect generation error answers).Inv := by
  unfold handleConnect
  split
  · exact hs
  · rename_i hcurrent
    have hgen : s.socketGeneration = generation := by simpa [isCurrentGeneration] using hcurrent
    obtain ⟨hconnect, hread⟩ := hnone hgen
    generalize (if error = 0 then answers.setsockopt else error) = connectError
    dsimp only
    split
    · have hconnected : ({ s.publishConnect connectError with
          log := s.log ++ [.connected s.socket] } : TcpClient).Inv :=
        ⟨hs.bounded, Nat.le_trans (Nat.le_of_eq hconnect) (Nat.zero_le _),
          Nat.le_trans (Nat.le_of_eq hread) (Nat.zero_le _), fun _ => mayClose_concat _ _,
          hs.matched.concat (by simp)⟩
      exact submitRead_inv hconnected hread answers
    · rename_i hfailed
      have h := (s.publishConnect connectError).reInit_renewed answers.reInit
      refine hs.renewed ⟨h.outstanding, h.generation, fun hc => ?_, h.mayClose, h.matched⟩
      exact absurd (h.connected hc) (by simpa [publishConnect] using hfailed)

theorem handleSend_inv {s : TcpClient} (hs : s.Inv) (generation error : Nat) :
    (s.handleSend generation error).Inv := by
  unfold handleSend
  split
  · exact hs
  · split
    · exact handleClose_inv hs true
    · exact hs

theorem Inv.of_subperm {s : TcpClient} (hs : s.Inv) {posted : List ClientIo}
    {tasks : List ClientTask}
    (h : (posted ++ tasks.map ClientTask.io).Subperm s.outstanding) :
    ({ s with posted := posted, tasks := tasks } : TcpClient).Inv where
  bounded io hio := hs.bounded io (h.subset hio)
  connects := Nat.le_trans (h.countP_le _) hs.connects
  reads := Nat.le_trans (h.countP_le _) hs.reads
  closable := hs.closable
  matched := hs.matched

theorem complete_inv {s t : TcpClient} (hs : s.Inv) {k bytes error : Nat}
    (h : s.complete k bytes error = some t) : t.Inv := by
  obtain ⟨io, hio, rfl⟩ := Option.map_eq_some_iff.mp h
  refine hs.of_subperm ?_
  generalize (match io.kind with
    | .connect => s.isCurrentGeneration io.generation || s.isRunning
    | .read => true
    | .write => s.isRunning) = queued
  obtain ⟨front, back, hposted, herased⟩ := List.exists_eraseIdx hio
  rw [herased, outstanding, hposted]
  cases queued with
  | true =>
    refine List.Perm.subperm ?_
    simp only [if_true, List.map_append, List.map_cons, List.map_nil, List.append_assoc,
      List.cons_append]
    refine List.Perm.append_left front ?_
    rw [← List.append_assoc]
    exact List.perm_append_singleton io (back ++ s.tasks.map ClientTask.io)
  | false =>
    simp only [Bool.false_eq_true, if_false, List.append_nil]
    refine List.Sublist.subperm (List.Sublist.append_right ?_ _)
    exact (List.sublist_cons_self io back).append_left front

theorem erased_current {s : TcpClient} {k : Nat} {task : ClientTask}
    (htask : s.tasks[k]? = some task) (kind : ClientIoKind) :
    ({ s with tasks := s.tasks.eraseIdx k } : TcpClient).current kind +
      (isCurrent s.socketGeneration kind task.io).toNat = s.current kind := by
  have hmap := List.countP_eraseIdx_add (p := isCurrent s.socketGeneration kind ∘ ClientTask.io)
    htask
  simp only [current, outstanding, List.countP_append, List.countP_map]
  simp only [Function.comp_apply] at hmap
  omega

theorem Inv.unconnected {s : TcpClient} (hs : s.Inv) (h : 0 < s.current .connect) :
    s.isConnected = false := by
  have hle := hs.connects
  cases hconnected : s.isConnected with
  | false => rfl
  | true =>
    rw [hconnected, Bool.not_true, Bool.and_false, Bool.toNat_false] at hle
    omega

theorem runTask_inv {s : TcpClient} (hs : s.Inv) {k : Nat} {task : ClientTask}
    (htask : s.tasks[k]? = some task) (answers : HandlerAnswers) :
    (handle { s with tasks := s.tasks.eraseIdx k } task answers).Inv := by
  have herased : ({ s with tasks := s.tasks.eraseIdx k } : TcpClient).Inv := by
    refine hs.of_subperm (List.Sublist.subperm ?_)
    exact ((List.eraseIdx_sublist s.tasks k).map ClientTask.io).append_left s.posted
  have hconnects := erased_current htask .connect
  have hreads := erased_current htask .read
  unfold handle
  cases hkind : task.io.kind with
  | connect =>
    refine handleConnect_inv herased (fun hgen => ?_) task.error answers
    have hself : isCurrent s.socketGeneration .connect task.io = true := by
      simp [isCurrent, hkind, ← hgen]
    rw [hself, Bool.toNat_true] at hconnects
    have hone := Nat.le_trans hs.connects (Bool.toNat_le _)
    have hread := hs.reads
    rw [hs.unconnected (by omega), Bool.toNat_false] at hread
    constructor
    · omega
    · omega
  | read =>
    refine handleReceive_inv herased (fun hgen => ?_) task.bytes task.error answers
    have hself : isCurrent s.socketGeneration .read task.io = true := by
      simp [isCurrent, hkind, ← hgen]
    have hone := Nat.le_trans hs.reads (Bool.toNat_le _)
    rw [hself, Bool.toNat_true] at hreads
    omega
  | write => exact handleSend_inv herased task.io.generation task.error

theorem step_inv {s t : TcpClient} {a : ClientAct} (hs : s.Inv) (h : machine.step s a = some t) :
    t.Inv := by
  cases a with
  | call c =>
    cases h
    exact call_inv hs c
  | connect submitted outcome =>
    cases h
    exact connect_inv hs submitted outcome
  | connectReturn => exact connectReturn_inv hs h
  | connectTimeout outcome => exact connectTimeout_inv hs h
  | complete k bytes error => exact complete_inv hs h
  | runTask k answers =>
    obtain ⟨task, htask, rfl⟩ := Option.map_eq_some_iff.mp h
    exact runTask_inv hs htask answers

theorem handle_stale {s : TcpClient} {task : ClientTask}
    (hstale : task.io.generation ≠ s.socketGeneration) (answers : HandlerAnswers) :
    s.handle task answers = s := by
  have hcurrent : s.isCurrentGeneration task.io.generation = false := by
    simp [isCurrentGeneration, Ne.symm hstale]
  unfold handle
  cases task.io.kind with
  | connect => simp [handleConnect, hcurrent]
  | read => simp [handleReceive, hcurrent]
  | write => simp [handleSend, hcurrent]

theorem step_stale {s t : TcpClient} {a : ClientAct} (h : machine.step s a = some t)
    {generation : Nat} (hcompletion : s.completionOf a = some generation)
    (hstale : generation ≠ s.socketGeneration) : t.log = s.log := by
  cases a with
  | complete k bytes error =>
    obtain ⟨io, -, rfl⟩ := Option.map_eq_some_iff.mp h
    rfl
  | runTask k answers =>
    obtain ⟨task, htask, rfl⟩ := Option.map_eq_some_iff.mp h
    simp only [completionOf, htask, Option.map_some, Option.some.injEq] at hcompletion
    subst hcompletion
    have hsame := handle_stale (s := { s with tasks := s.tasks.eraseIdx k }) hstale answers
    rw [hsame]
  | call | connect | connectReturn | connectTimeout => cases hcompletion

/-- In every run, a completion of another generation tells the listener nothing and closes
no socket; at most one connect and one read of the current generation are outstanding, and
each `OnClose` has a successful connect of its own. -/
theorem stale_inert {as : List ClientAct} {t : TcpClient}
    (hrun : machine.run created as = some t) :
    machine.Every (fun s a s' => ∀ generation, s.completionOf a = some generation →
        generation ≠ s.socketGeneration → s'.log = s.log) created as ∧
      t.current .connect ≤ 1 ∧ t.current .read ≤ 1 ∧ Matched t.log := by
  have hinv := machine.run_invariant (fun s a s' hs h => step_inv hs h) inv_created hrun
  refine ⟨?_, Nat.le_trans hinv.connects (Bool.toNat_le _),
    Nat.le_trans hinv.reads (Bool.toNat_le _), hinv.matched⟩
  exact machine.every_of_invariant (fun s a s' hs h => ⟨step_inv hs h, fun _ => step_stale h⟩)
    inv_created

def lateCompletions : List ClientAct :=
  let answers : HandlerAnswers := ⟨0, true, true, .created, []⟩
  [.call (.init true true .created), .connect true .created, .connectTimeout .created,
    .connect true .created, .complete 0 0 1225, .complete 0 0 0, .runTask 0 answers,
    .runTask 0 answers, .connectReturn, .complete 0 5 0, .runTask 0 answers, .call .close,
    .complete 0 0 ERROR_OPERATION_ABORTED, .runTask 0 answers]

theorem stale_inert_lateCompletions :
    ∃ t, machine.run created lateCompletions = some t ∧ Matched t.log ∧
      t.log = [.closesocket 0, .connected (some 1), .onReceive (some 1), .closesocket 1,
        .onClose (some 1)] := by
  have hrun : machine.run created lateCompletions =
      some ((machine.run created lateCompletions).get (by decide)) := by simp
  exact ⟨_, hrun, (stale_inert hrun).2.2.2, by decide⟩

end TcpClient

end Lmnet.Windows
