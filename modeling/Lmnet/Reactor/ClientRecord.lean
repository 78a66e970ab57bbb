import Lmnet.Epoll.ServerLife
import Lmnet.Lib.WorkQueue
import Mathlib.Tactic.Tauto

/-!
What a TCP client of the two reactor backends leaves behind it: the sockets it made, the
connections it had, and the tasks it gave its callback queue. Its listener is alive.
-/

set_option autoImplicit false

namespace Lmnet.Reactor

open Lmnet.Epoll (Reason RecvReturn)

/-- What `socket` and the binding to the local address come to in `Init`: no socket, one
that is closed again because it cannot be bound, or one to connect with. -/
inductive InitAnswer where
  | noSocket
  | unusable (fd : Fd)
  | ready (fd : Fd)
  deriving DecidableEq, Repr

structure ConnectAnswers where
  /-- `inet_pton` takes the remote address. -/
  validAddress : Bool
  /-- The `errno` of `connect`, `none` when it returns 0. -/
  connect : Option Int
  /-- `select` finds the socket writable in time. -/
  selected : Bool
  /-- `SO_ERROR`, `none` when `getsockopt` fails. -/
  socketError : Option Int
  /-- For the `Init` of `ReInit`. -/
  reInit : InitAnswer
  /-- `TaskQueue::Start` makes its thread, if it has none. -/
  started : Bool
  /-- The `errno` with which the kernel refuses the registration. -/
  ctl : Option Int
  deriving DecidableEq, Repr

def ConnectAnswers.established (ans : ConnectAnswers) (inProgress : Int) : Bool :=
  ans.validAddress && (ans.connect == none || ans.connect == some inProgress) &&
    ans.selected && ans.socketError == some 0

def ConnectAnswers.attempt {α : Type} (ans : ConnectAnswers) (inProgress : Int)
    (reInit register : α) : α :=
  if !ans.validAddress then reInit
  else if ans.connect ≠ none ∧ ans.connect ≠ some inProgress then reInit
  else if !ans.selected then reInit
  else if ans.socketError ≠ some 0 then reInit
  else register

theorem ConnectAnswers.attempt_eq {α : Type} (ans : ConnectAnswers) (inProgress : Int)
    (reInit register : α) : ans.attempt inProgress reInit register =
      if ans.established inProgress then register else reInit := by
  unfold attempt established
  by_cases hconnect : ans.connect = none ∨ ans.connect = some inProgress
  · have hreturn : ¬ (ans.connect ≠ none ∧ ans.connect ≠ some inProgress) := by tauto
    by_cases herror : ans.socketError = some 0 <;> cases ans.validAddress <;>
      cases ans.selected <;> simp [hreturn, hconnect, herror]
  · have hreturn : ans.connect ≠ none ∧ ans.connect ≠ some inProgress := by tauto
    cases ans.validAddress <;> simp [hreturn]

inductive ClientCallback where
  | onReceive (fd : Fd) (data : List UInt8)
  | onError (fd : Fd) (reason : Reason)
  | onClose (fd : Fd)
  deriving DecidableEq, Repr

def ClientCallback.isReceive : ClientCallback → Bool
  | .onReceive _ _ => true
  | _ => false

/-- A task of the callback queue; that of `NotifyClose` calls `OnError` when there is a
reason. -/
inductive ClientTask where
  | receive (fd : Fd) (data : List UInt8)
  | close (fd : Fd) (error : Option Reason)
  deriving DecidableEq, Repr

def closing (fd : Fd) (error : Option Reason) : List ClientCallback :=
  (error.map (ClientCallback.onError fd)).toList ++ [.onClose fd]

def ClientTask.callbacks : ClientTask → List ClientCallback
  | .receive fd data => [.onReceive fd data]
  | .close fd error => closing fd error

def ClientTask.isClose : ClientTask → Bool
  | .receive _ _ => false
  | .close _ _ => true

def closings (tasks : List ClientTask) : List ClientCallback :=
  (tasks.flatMap ClientTask.callbacks).filter fun c => !c.isReceive

structure Socket where
  fd : Fd
  isOpen : Bool
  deriving DecidableEq, Repr

structure Connection where
  fd : Fd
  ended : Option (Option Reason)
  deriving DecidableEq, Repr

def Connection.closing (c : Connection) : List ClientCallback :=
  match c.ended with
  | none => []
  | some error => Reactor.closing c.fd error

def Connection.finish (error : Option Reason) (c : Connection) : Connection :=
  if c.ended = none then { c with ended := some error } else c

/-- `strayCloses` counts the calls of `close` on a number that was not an open socket of
the client. -/
structure ClientRecord where
  sockets : List Socket
  strayCloses : Nat
  queue : WorkQueue ClientTask
  connections : List Connection

namespace ClientRecord

/-- The constructor makes the queue and does not start it. -/
def new : ClientRecord := ⟨[], 0, .new, []⟩

/-- The kernel gives a socket any number that is not in use. -/
def openSocket (r : ClientRecord) (fd : Fd) : Option ClientRecord :=
  if fd < 0 ∨ ⟨fd, true⟩ ∈ r.sockets then none
  else some { r with sockets := r.sockets ++ [⟨fd, true⟩] }

def closeSocket (r : ClientRecord) (fd : Fd) : ClientRecord :=
  if ⟨fd, true⟩ ∈ r.sockets then { r with sockets := r.sockets.replace ⟨fd, true⟩ ⟨fd, false⟩ }
  else { r with strayCloses := r.strayCloses + 1 }

def init (r : ClientRecord) : InitAnswer → Option (ClientRecord × Fd)
  | .noSocket => some (r, invalidSocket)
  | .unusable fd => (r.openSocket fd).map fun r => (r.closeSocket fd, invalidSocket)
  | .ready fd => (r.openSocket fd).map (·, fd)

def enqueueTask (r : ClientRecord) (p : WorkQueue.Policy) (task : ClientTask) : ClientRecord :=
  { r with queue := r.queue.enqueue p task }

/-- The loop of `HandleReceive`, and the error it calls `HandleConnectionClose` for. -/
def receiveLoop (r : ClientRecord) (p : WorkQueue.Policy) (wouldBlock : Int) (fd : Fd) :
    List RecvReturn → Option (ClientRecord × Option Reason)
  | .bytes data :: rs =>
      if data = [] then none
      else (r.enqueueTask p (.receive fd data)).receiveLoop p wouldBlock fd rs
  | [.disconnect] => some (r, none)
  | [.error errno] => some (r, if errno = wouldBlock then none else some (.errno errno))
  | _ => none

def begin (r : ClientRecord) (fd : Fd) : ClientRecord :=
  { r with connections := r.connections ++ [⟨fd, none⟩] }

def finish (r : ClientRecord) (error : Option Reason) : ClientRecord :=
  { r with connections := r.connections.map (Connection.finish error) }

/-- Notes the connection that a `Connect` has returned true for, or that the client is no
longer connected. -/
def watch (r : ClientRecord) (began live live' : Option Fd) (error : Option Reason) :
    ClientRecord :=
  match began with
  | some fd => r.begin fd
  | none => if live ≠ none ∧ live' = none then r.finish error else r

def callbacks (r : ClientRecord) : List ClientCallback :=
  r.queue.handed.flatMap ClientTask.callbacks

/-- Every connection that has ended, and no other, has had the calls for its end: one
`OnClose` with its number, and before it one `OnError` just when an error ended it. -/
def Matched (r : ClientRecord) : Prop :=
  (r.callbacks.filter fun c => !c.isReceive) = r.connections.flatMap Connection.closing

instance decidableMatched (r : ClientRecord) : Decidable r.Matched :=
  inferInstanceAs (Decidable (_ = _))

/-- All sockets but the current one, if there is one, have been closed, each one time. -/
def ClosedOnce (r : ClientRecord) (socket : Fd) : Prop :=
  r.strayCloses = 0 ∧ ∃ closed : List Fd, r.sockets =
    closed.map (⟨·, false⟩) ++ if socket = invalidSocket then [] else [⟨socket, true⟩]

def Live (r : ClientRecord) (live : Option Fd) : Prop :=
  ∃ past : List Connection, (∀ c ∈ past, c.ended ≠ none) ∧
    r.connections = past ++ (live.map (⟨·, none⟩)).toList

end ClientRecord

def recvError (wouldBlock : Int) : List RecvReturn → Option Reason
  | [.error errno] => if errno = wouldBlock then none else some (.errno errno)
  | _ :: rs => recvError wouldBlock rs
  | [] => none

/-- What a step of a client does to its connection. -/
inductive Turn where
  | quiet
  | began (fd : Fd)
  /-- It ends, and the callback queue is told. -/
  | ended (error : Option Reason)
  /-- The callback queue is stopped, and is then told that the connection, if there is
  one, has ended. -/
  | stopped
  /-- It ends, and the callback queue is not told. -/
  | dropped
  deriving DecidableEq, Repr

namespace Turn

/-- The listener hears of every end, this one or one that it has still to be told of. -/
def Delivers (p : WorkQueue.Policy) (r : ClientRecord) (live : Option Fd) : Turn → Prop
  | .quiet | .began _ => True
  | .ended _ => r.queue.takes p = true
  | .stopped => (p.drains = true ∨ ∀ task ∈ r.queue.waiting, task.isClose = false) ∧
      (live = none ∨ p.runsIdle = true)
  | .dropped => False

def Holds (p : WorkQueue.Policy) (q q' : WorkQueue ClientTask) (live live' began : Option Fd)
    (error : Option Reason) : Turn → Prop
  | .quiet => began = none ∧ live' = live ∧ closings q'.handed = closings q.handed
  | .began fd => began = some fd ∧ live = none ∧ live' = some fd ∧
      closings q'.handed = closings q.handed
  | .ended reason => began = none ∧ reason = error ∧ live' = none ∧ ∃ fd, live = some fd ∧
      closings q'.handed = closings q.handed ++ if q.takes p then closing fd error else []
  | .stopped => began = none ∧ error = none ∧ live' = none ∧
      closings q'.handed = closings (q.stop p).handed ++
        if p.runsIdle then live.toList.flatMap (closing · none) else []
  | .dropped => began = none ∧ live' = none ∧ live ≠ none ∧
      closings q'.handed = closings q.handed

end Turn

theorem closings_append (xs ys : List ClientTask) :
    closings (xs ++ ys) = closings xs ++ closings ys := by
  simp [closings]

@[simp] theorem closings_receive (fd : Fd) (data : List UInt8) :
    closings [.receive fd data] = [] := rfl

@[simp] theorem closings_close (fd : Fd) (error : Option Reason) :
    closings [.close fd error] = closing fd error := by
  cases error <;> rfl

theorem closing_ne_nil (fd : Fd) (error : Option Reason) : closing fd error ≠ [] := by
  simp [closing]

theorem closings_eq_nil {tasks : List ClientTask} :
    closings tasks = [] ↔ ∀ task ∈ tasks, task.isClose = false := by
  induction tasks with
  | nil => simp [closings]
  | cons task tasks ih =>
    rw [← List.singleton_append, closings_append, List.append_eq_nil_iff, ih]
    cases task <;> simp [ClientTask.isClose, closing_ne_nil]

theorem closings_enqueue {q : WorkQueue ClientTask} {p : WorkQueue.Policy} (task : ClientTask) :
    closings (q.enqueue p task).handed =
      closings q.handed ++ if q.takes p then closings [task] else [] := by
  rw [WorkQueue.handed_enqueue]
  split
  · exact closings_append _ _
  · exact (List.append_nil _).symm

theorem closings_stop_append {q : WorkQueue ClientTask} {p : WorkQueue.Policy}
    (h : p.drains = false) :
    closings (q.stop p).handed ++ closings q.waiting = closings q.handed := by
  rw [← closings_append, WorkQueue.handed_stop_append h]

theorem closings_stop {q : WorkQueue ClientTask} {p : WorkQueue.Policy} :
    closings (q.stop p).handed = closings q.handed ↔
      p.drains = true ∨ ∀ task ∈ q.waiting, task.isClose = false := by
  cases hp : p.drains with
  | true => simp [WorkQueue.handed_stop, hp]
  | false =>
    rw [← closings_stop_append (q := q) hp, ← closings_eq_nil]
    simp

theorem closings_stop_length {q : WorkQueue ClientTask} {p : WorkQueue.Policy} :
    (closings (q.stop p).handed).length ≤ (closings q.handed).length := by
  obtain ⟨lost, hlost⟩ := WorkQueue.handed_stop_prefix (q := q) (p := p)
  rw [← hlost, closings_append, List.length_append]
  exact Nat.le_add_right _ _

namespace ClientRecord

variable {r r' : ClientRecord} {p : WorkQueue.Policy}

theorem matched_iff : r.Matched ↔
    closings r.queue.handed = r.connections.flatMap Connection.closing := Iff.rfl

theorem live_begin {fd : Fd} (h : r.Live none) : (r.begin fd).Live (some fd) := by
  obtain ⟨past, hpast, hconnections⟩ := h
  exact ⟨past, hpast, by simpa [begin] using hconnections⟩

theorem closedOnce_watch {began live live' : Option Fd} {error : Option Reason} {fd : Fd} :
    (r.watch began live live' error).ClosedOnce fd ↔ r.ClosedOnce fd := by
  unfold watch
  split
  · exact Iff.rfl
  · split <;> exact Iff.rfl

@[simp] theorem watch_queue {began live live' : Option Fd} {error : Option Reason} :
    (r.watch began live live' error).queue = r.queue := by
  unfold watch
  split
  · rfl
  · split <;> rfl

theorem callbacks_stop {q : WorkQueue ClientTask} (hr : r.queue = q) (hr' : r'.queue = q.stop p) :
    r'.callbacks <+: r.callbacks := by
  obtain ⟨lost, hlost⟩ := WorkQueue.handed_stop_prefix (q := q) (p := p)
  refine ⟨lost.flatMap ClientTask.callbacks, ?_⟩
  rw [callbacks, callbacks, hr, hr', ← List.flatMap_append, hlost]

theorem map_finish {past : List Connection} {error : Option Reason}
    (h : ∀ c ∈ past, c.ended ≠ none) : past.map (Connection.finish error) = past := by
  have hid : past.map (Connection.finish error) = past.map id :=
    List.map_congr_left fun c hc => if_neg (h c hc)
  rw [hid, List.map_id]

theorem finish_connections {fd : Fd} {error : Option Reason} {past : List Connection}
    (hpast : ∀ c ∈ past, c.ended ≠ none) (h : r.connections = past ++ [⟨fd, none⟩]) :
    (r.finish error).connections = past ++ [⟨fd, some error⟩] := by
  simp [finish, h, map_finish hpast, Connection.finish]

theorem live_finish {fd : Fd} {error : Option Reason} (h : r.Live (some fd)) :
    (r.finish error).Live none := by
  obtain ⟨past, hpast, hconnections⟩ := h
  refine ⟨past ++ [⟨fd, some error⟩], fun c hc => ?_, ?_⟩
  · rcases List.mem_append.mp hc with hc | hc
    · exact hpast c hc
    · simp [List.mem_singleton.mp hc]
  · simpa using finish_connections hpast hconnections

theorem matched_begin {fd : Fd} : (r.begin fd).Matched ↔ r.Matched := by
  simp [matched_iff, begin, Connection.closing]

theorem matched_finish (error : Option Reason) {fd : Fd} (h : r.Live (some fd))
    (hconnections : r'.connections = r.connections) (hmatched : r.Matched) :
    (r'.finish error).Matched ↔
      closings r'.queue.handed = closings r.queue.handed ++ closing fd error := by
  obtain ⟨past, hpast, heq⟩ := h
  rw [matched_iff] at hmatched ⊢
  rw [finish_connections hpast (hconnections.trans heq), hmatched, heq]
  simp [finish, Connection.closing]

end ClientRecord

namespace Turn

open ClientRecord

variable {p : WorkQueue.Policy} {r r' : ClientRecord} {live live' began : Option Fd}
  {error : Option Reason} {t : Turn}

theorem holds_ended {q q' : WorkQueue ClientTask} {connected : Bool} {fd : Fd}
    (hlive : live' = none)
    (hqueue : q' = (if connected then some fd else none).elim q fun fd =>
      q.enqueue p (.close fd error)) :
    (if connected then Turn.ended error else .quiet).Holds p q q'
      (if connected then some fd else none) live' none error := by
  cases connected with
  | true =>
    subst hqueue
    exact ⟨rfl, rfl, hlive, fd, rfl, by simp [closings_enqueue]⟩
  | false =>
    subst hqueue
    exact ⟨rfl, hlive, rfl⟩

theorem holds_stopped {q q' : WorkQueue ClientTask} (hlive : live' = none)
    (hqueue : q' = live.elim (q.stop p) fun fd => (q.stop p).enqueue p (.close fd none)) :
    Turn.stopped.Holds p q q' live live' none none := by
  refine ⟨rfl, rfl, hlive, ?_⟩
  subst hqueue
  cases live with
  | none => simp
  | some fd => simp [closings_enqueue]

/-- What the listener is given first makes no difference to the end of the connection. -/
theorem holds_ended_of_receives {q' : WorkQueue ClientTask} {reason : Option Reason}
    (hclosings : closings r'.queue.handed = closings r.queue.handed)
    (hrunning : r'.queue.running = r.queue.running)
    (h : (Turn.ended reason).Holds p r'.queue q' live live' began error) :
    (Turn.ended reason).Holds p r.queue q' live live' began error := by
  obtain ⟨hbegan, hreason, hlive, fd, hfd, hcalls⟩ := h
  rw [hclosings, WorkQueue.takes, hrunning] at hcalls
  exact ⟨hbegan, hreason, hlive, fd, hfd, hcalls⟩

theorem live_watch (hlive : r.Live live) (hconnections : r'.connections = r.connections)
    (h : t.Holds p r.queue r'.queue live live' began error) :
    (r'.watch began live live' error).Live live' := by
  have hlive' : r'.Live live := by
    rw [Live, hconnections]
    exact hlive
  cases t with
  | quiet =>
    obtain ⟨rfl, rfl, -⟩ := h
    simpa [watch] using hlive'
  | began fd =>
    obtain ⟨rfl, rfl, rfl, -⟩ := h
    exact live_begin hlive'
  | ended reason =>
    obtain ⟨rfl, -, rfl, fd, rfl, -⟩ := h
    simpa [watch] using live_finish hlive'
  | stopped =>
    obtain ⟨rfl, -, rfl, -⟩ := h
    cases live with
    | none => simpa [watch] using hlive'
    | some fd => simpa [watch] using live_finish hlive'
  | dropped =>
    obtain ⟨rfl, rfl, hne, -⟩ := h
    obtain ⟨fd, rfl⟩ := Option.ne_none_iff_exists'.mp hne
    simpa [watch] using live_finish hlive'

theorem matched_of_same (hconnections : r'.connections = r.connections)
    (hmatched : r.Matched) :
    r'.Matched ↔ closings r'.queue.handed = closings r.queue.handed := by
  rw [matched_iff] at hmatched ⊢
  rw [hmatched, hconnections]

theorem stopped_iff {fd : Fd} :
    closings (r.queue.stop p).handed ++ (if p.runsIdle then closing fd none else []) =
        closings r.queue.handed ++ closing fd none ↔
      (p.drains = true ∨ ∀ task ∈ r.queue.waiting, task.isClose = false) ∧
        p.runsIdle = true := by
  cases hidle : p.runsIdle with
  | true => simp [closings_stop]
  | false =>
    simp only [Bool.false_eq_true, if_false, List.append_nil, and_false, iff_false]
    intro heq
    have hle := closings_stop_length (q := r.queue) (p := p)
    have hpos := List.length_pos_iff.mpr (closing_ne_nil fd none)
    rw [heq, List.length_append] at hle
    omega

/-- The connections and the calls still match after the step if and only if none is lost. -/
theorem matched_watch (hlive : r.Live live) (hconnections : r'.connections = r.connections)
    (hmatched : r.Matched) (h : t.Holds p r.queue r'.queue live live' began error) :
    (r'.watch began live live' error).Matched ↔ t.Delivers p r live := by
  cases t with
  | quiet =>
    obtain ⟨rfl, rfl, hcalls⟩ := h
    simpa [watch, Delivers, matched_of_same hconnections hmatched] using hcalls
  | began fd =>
    obtain ⟨rfl, rfl, rfl, hcalls⟩ := h
    simpa [watch, Delivers, matched_begin, matched_of_same hconnections hmatched] using hcalls
  | ended reason =>
    obtain ⟨rfl, rfl, rfl, fd, rfl, hcalls⟩ := h
    have hfinish := matched_finish reason hlive hconnections hmatched
    simp only [watch, ne_eq, reduceCtorEq, not_false_eq_true, and_self, if_true, hfinish, hcalls,
      Delivers]
    cases r.queue.takes p <;> simp [closing_ne_nil]
  | stopped =>
    obtain ⟨rfl, rfl, rfl, hcalls⟩ := h
    cases live with
    | none =>
      simp only [Option.toList_none, List.flatMap_nil, ite_self, List.append_nil] at hcalls
      simp [watch, Delivers, matched_of_same hconnections hmatched, hcalls, closings_stop]
    | some fd =>
      have hfinish := matched_finish none hlive hconnections hmatched
      simp only [Option.toList_some, List.flatMap_cons, List.flatMap_nil, List.append_nil] at hcalls
      simp only [watch, ne_eq, reduceCtorEq, not_false_eq_true, and_self, if_true, hfinish, hcalls,
        Delivers, false_or]
      exact stopped_iff
  | dropped =>
    obtain ⟨rfl, rfl, hne, hcalls⟩ := h
    obtain ⟨fd, rfl⟩ := Option.ne_none_iff_exists'.mp hne
    have hfinish := matched_finish error hlive hconnections hmatched
    simp [watch, hfinish, hcalls, Delivers, closing_ne_nil]

end Turn

namespace ClientRecord

variable {r r' : ClientRecord} {p : WorkQueue.Policy} {fd : Fd}

theorem closedOnce_new : new.ClosedOnce invalidSocket := ⟨rfl, [], rfl⟩

theorem live_new : new.Live none := ⟨[], by simp, rfl⟩

theorem matched_new : new.Matched := rfl

theorem openSocket_spec (h : r.ClosedOnce invalidSocket) (hopen : r.openSocket fd = some r') :
    r'.ClosedOnce fd ∧ fd ≠ invalidSocket ∧ r'.queue = r.queue ∧
      r'.connections = r.connections := by
  unfold openSocket at hopen
  split at hopen
  · cases hopen
  · rename_i hfree
    cases hopen
    obtain ⟨hstray, closed, hsockets⟩ := h
    have hne : fd ≠ invalidSocket := by
      rintro rfl
      exact hfree (.inl (by decide))
    refine ⟨⟨hstray, closed, ?_⟩, hne, rfl, rfl⟩
    simp [hsockets, hne]

theorem closeSocket_spec (h : r.ClosedOnce fd) (hne : fd ≠ invalidSocket) :
    (r.closeSocket fd).ClosedOnce invalidSocket ∧ (r.closeSocket fd).queue = r.queue ∧
      (r.closeSocket fd).connections = r.connections := by
  obtain ⟨hstray, closed, hsockets⟩ := h
  rw [if_neg hne] at hsockets
  have hmem : (⟨fd, true⟩ : Socket) ∈ r.sockets := by simp [hsockets]
  have hclosed : (⟨fd, true⟩ : Socket) ∉ closed.map fun fd => (⟨fd, false⟩ : Socket) := by simp
  rw [closeSocket, if_pos hmem]
  refine ⟨⟨hstray, closed ++ [fd], ?_⟩, rfl, rfl⟩
  simp only [hsockets, List.replace_append_right hclosed]
  simp

theorem init_spec (h : r.ClosedOnce invalidSocket) {answer : InitAnswer}
    {out : ClientRecord × Fd} (hinit : r.init answer = some out) :
    out.1.ClosedOnce out.2 ∧ out.1.queue = r.queue ∧ out.1.connections = r.connections := by
  cases answer with
  | noSocket =>
    cases hinit
    exact ⟨h, rfl, rfl⟩
  | unusable fd =>
    obtain ⟨r', hopen, rfl⟩ := Option.map_eq_some_iff.mp hinit
    obtain ⟨hopened, hne, hqueue, hconnections⟩ := openSocket_spec h hopen
    obtain ⟨hclosed, hqueue', hconnections'⟩ := closeSocket_spec hopened hne
    exact ⟨hclosed, hqueue'.trans hqueue, hconnections'.trans hconnections⟩
  | ready fd =>
    obtain ⟨r', hopen, rfl⟩ := Option.map_eq_some_iff.mp hinit
    obtain ⟨hopened, -, hqueue, hconnections⟩ := openSocket_spec h hopen
    exact ⟨hopened, hqueue, hconnections⟩

structure Receives (r r' : ClientRecord) : Prop where
  closedOnce : ∀ fd, r.ClosedOnce fd → r'.ClosedOnce fd
  connections : r'.connections = r.connections
  closings : closings r'.queue.handed = closings r.queue.handed
  running : r'.queue.running = r.queue.running

theorem Receives.refl (r : ClientRecord) : Receives r r := ⟨fun _ h => h, rfl, rfl, rfl⟩

theorem receives_enqueueTask (fd : Fd) (data : List UInt8) :
    Receives r (r.enqueueTask p (.receive fd data)) where
  closedOnce _ h := h
  connections := rfl
  closings := by simp [enqueueTask, closings_enqueue]
  running := WorkQueue.running_enqueue _

theorem receiveLoop_spec {wouldBlock : Int} {rs : List RecvReturn} {error : Option Reason}
    (h : r.receiveLoop p wouldBlock fd rs = some (r', error)) :
    error = recvError wouldBlock rs ∧ Receives r r' := by
  induction rs generalizing r with
  | nil => cases h
  | cons ret rs ih =>
    cases ret with
    | bytes data =>
      simp only [receiveLoop] at h
      split at h
      · cases h
      · obtain ⟨herror, hrest⟩ := ih h
        have hdata := receives_enqueueTask (r := r) (p := p) fd data
        exact ⟨herror, fun fd h => hrest.closedOnce fd (hdata.closedOnce fd h),
          hrest.connections.trans hdata.connections, hrest.closings.trans hdata.closings,
          hrest.running.trans hdata.running⟩
    | disconnect =>
      cases rs with
      | nil =>
        cases h
        exact ⟨rfl, .refl _⟩
      | cons ret rs => cases h
    | error errno =>
      cases rs with
      | nil =>
        cases h
        exact ⟨rfl, .refl _⟩
      | cons ret rs => cases h

end ClientRecord

end Lmnet.Reactor
