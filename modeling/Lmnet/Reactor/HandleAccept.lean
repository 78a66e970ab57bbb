import Lmnet.Epoll.EventReactor
import Lmnet.Lib.Machine

/-!
Listening sockets of the two reactor backends: arrivals, the readiness event the
kernel reports, and the `HandleAccept` it leads to, in the four servers.
-/

set_option autoImplicit false

namespace Lmnet.Reactor

open Lmnet.Epoll (EventType EventReactor epollEvents baseEvents EPOLLET)

def EV_ADD : Nat := 0x0001
def EV_ENABLE : Nat := 0x0004
def EV_CLEAR : Nat := 0x0020

def filterFlags : Nat := EV_ADD ||| EV_CLEAR ||| EV_ENABLE

/-- What distinguishes one server's `HandleAccept` from another's. -/
structure AcceptClass where
  /-- The kernel forgets a reported event until the next arrival. -/
  edgeTriggered : Bool
  /-- Whether a failed `accept` is logged. -/
  logsError : Int → Bool
  /-- Whether the accepted socket goes through `ConfigureAcceptedSocket`, and the
  text logged when that fails. -/
  configures : Option (List String)
  /-- `sessions_[fd] = session` rather than `sessions_.emplace(fd, session)`. -/
  assignsSession : Bool

def listenEvents : Nat := baseEvents

def epollTcpServer : AcceptClass where
  edgeTriggered := epollEvents listenEvents &&& EPOLLET != 0
  logsError _ := true
  configures := none
  assignsSession := false

def epollUnixServer : AcceptClass where
  edgeTriggered := epollEvents listenEvents &&& EPOLLET != 0
  logsError _ := true
  configures := none
  assignsSession := false

def kqueueTcpServer : AcceptClass where
  edgeTriggered := filterFlags &&& EV_CLEAR != 0
  logsError _ := true
  configures := some ["Failed to configure client socket"]
  assignsSession := true

def kqueueUnixServer : AcceptClass where
  edgeTriggered := filterFlags &&& EV_CLEAR != 0
  logsError errno := errno ≠ EAGAIN
  configures := some []
  assignsSession := true

inductive ServerClass where
  | epollTcp | epollUnix | kqueueTcp | kqueueUnix
  deriving DecidableEq, Repr

def ServerClass.accepts : ServerClass → AcceptClass
  | .epollTcp => epollTcpServer
  | .epollUnix => epollUnixServer
  | .kqueueTcp => kqueueTcpServer
  | .kqueueUnix => kqueueUnixServer

theorem ServerClass.edgeTriggered (k : ServerClass) : k.accepts.edgeTriggered = true := by
  cases k <;> decide

inductive AcceptResult where
  | error (errno : Int)
  | socket (fd : Fd)
  deriving DecidableEq, Repr

/-- What one `HandleAccept` meets: `accept`, `ConfigureAcceptedSocket`, `RegisterHandler`,
`!listener_.expired()` and `taskQueue_`. -/
structure AcceptOutcome where
  result : AcceptResult
  configured : Bool
  registered : Bool
  listenerAlive : Bool
  hasTaskQueue : Bool
  deriving DecidableEq, Repr

/-- `accept` failed, and not because nobody was waiting. -/
def AcceptOutcome.failed (o : AcceptOutcome) : Bool :=
  match o.result with
  | .error errno => errno ≠ EAGAIN
  | .socket _ => false

/-- A started server and its listening socket. Clients are numbered by their
arrival; `tasks` are the queued `OnAccept` calls, and `eventPending` says that
the reactor has a readiness event of this socket still to report. -/
structure Listener where
  backlog : List Nat
  eventPending : Bool
  sessions : FdMap Nat
  connectionHandlers : FdMap Nat
  tasks : List (Option Nat)
  closed : List Fd
  log : List String

inductive ListenAct where
  | arrive (client : Nat)
  | dispatch (o : AcceptOutcome)
  deriving DecidableEq, Repr

def ListenAct.failed : ListenAct → Bool
  | .arrive _ => false
  | .dispatch o => o.failed

namespace Listener

def started (backlog : List Nat) : Listener where
  backlog := backlog
  eventPending := !backlog.isEmpty
  sessions := ∅
  connectionHandlers := ∅
  tasks := []
  closed := []
  log := []

def addConnection (s : Listener) (k : AcceptClass) (fd : Fd) (client : Nat) : Listener :=
  { s with
    connectionHandlers := s.connectionHandlers.insert fd client
    sessions := if !k.assignsSession && decide (fd ∈ s.sessions) then s.sessions
      else s.sessions.insert fd client }

def enqueueAccept (s : Listener) (k : AcceptClass) (o : AcceptOutcome) (fd : Fd) (client : Nat) :
    Listener :=
  if !o.listenerAlive then { s with log := s.log ++ ["listener is null"] }
  else if o.hasTaskQueue then
    { s with tasks := s.tasks ++
        [if k.assignsSession then s.sessions.lookup fd else some client] }
  else s

def handleClient (s : Listener) (k : AcceptClass) (o : AcceptOutcome) (fd : Fd) (client : Nat) :
    Listener :=
  if k.configures.isSome && !o.configured then
    { s with closed := s.closed ++ [fd], log := s.log ++ k.configures.getD [] }
  else if !o.registered then
    { s with
      closed := s.closed ++ [fd]
      log := s.log ++ ["Failed to register connection handler for fd"] }
  else (s.addConnection k fd client).enqueueAccept k o fd client

/-- `accept` would block exactly when nobody is waiting. -/
def handleAccept (s : Listener) (k : AcceptClass) (o : AcceptOutcome) : Option Listener :=
  match s.backlog, o.result with
  | [], .error errno =>
      if errno = EAGAIN then
        some (if k.logsError errno then { s with log := s.log ++ ["accept error"] } else s)
      else none
  | [], .socket _ => none
  | _ :: _, .error errno =>
      if errno = EAGAIN then none
      else some (if k.logsError errno then { s with log := s.log ++ ["accept error"] } else s)
  | client :: rest, .socket fd => some ({ s with backlog := rest }.handleClient k o fd client)

/-- The reactor takes the event out of the kernel and calls the handler. -/
def dispatch (s : Listener) (k : AcceptClass) (o : AcceptOutcome) : Option Listener :=
  if s.eventPending then
    (s.handleAccept k o).map fun s' =>
      { s' with eventPending := !k.edgeTriggered && !s'.backlog.isEmpty }
  else none

def step (k : ServerClass) (s : Listener) : ListenAct → Option Listener
  | .arrive client => some { s with backlog := s.backlog ++ [client], eventPending := true }
  | .dispatch o => s.dispatch k.accepts o

def machine (k : ServerClass) : Machine Listener ListenAct where
  init s := ∃ backlog, s = started backlog
  step := step k

/-- A `HandleAccept` that meets no error of `accept` leaves nobody waiting. -/
def Drains : Listener → ListenAct → Listener → Prop
  | _, .dispatch o, s' => o.failed = false → s'.backlog = []
  | _, .arrive _, _ => True

/-- At most one client is waiting when `HandleAccept` runs. -/
def AtMostOne : Listener → ListenAct → Listener → Prop
  | s, .dispatch o, _ => o.failed = false → s.backlog.length ≤ 1
  | _, .arrive _, _ => True

/-- Whoever waits will be reported. -/
def Reported (s : Listener) : Prop := s.backlog ≠ [] → s.eventPending = true

@[simp] theorem handleClient_backlog (s : Listener) (k : AcceptClass) (o : AcceptOutcome)
    (fd : Fd) (client : Nat) : (s.handleClient k o fd client).backlog = s.backlog := by
  unfold handleClient enqueueAccept addConnection
  repeat' split
  all_goals rfl

/-- One call of `HandleAccept` takes one client, unless `accept` fails. -/
theorem handleAccept_backlog {s s' : Listener} {k : AcceptClass} {o : AcceptOutcome}
    (h : s.handleAccept k o = some s') :
    s'.backlog = if o.failed then s.backlog else s.backlog.tail := by
  unfold handleAccept at h
  split at h
  · rename_i errno hb hr
    split at h
    · rename_i he
      cases h
      split <;> simp [AcceptOutcome.failed, hb, hr, he]
    · cases h
  · cases h
  · rename_i c cs errno hb hr
    split at h
    · cases h
    · rename_i he
      cases h
      split <;> simp [AcceptOutcome.failed, hb, hr, he]
  · rename_i client rest fd hb hr
    cases h
    simp [AcceptOutcome.failed, hb, hr]

theorem dispatch_cases {s s' : Listener} {k : ServerClass} {o : AcceptOutcome}
    (h : s.dispatch k.accepts o = some s') :
    s'.eventPending = false ∧ s'.backlog = if o.failed then s.backlog else s.backlog.tail := by
  unfold dispatch at h
  split at h
  · obtain ⟨s₁, hs₁, rfl⟩ := Option.map_eq_some_iff.mp h
    have hb := handleAccept_backlog hs₁
    exact ⟨by simp [k.edgeTriggered], hb⟩
  · cases h

theorem drains_iff {k : ServerClass} {s s' : Listener} {a : ListenAct}
    (h : s.step k a = some s') : Drains s a s' ↔ AtMostOne s a s' := by
  cases a with
  | arrive client => exact Iff.rfl
  | dispatch o =>
    obtain ⟨-, hb⟩ := dispatch_cases h
    refine forall_congr' fun hf => ?_
    rw [hb, hf]
    cases s.backlog with
    | nil => simp
    | cons c cs => simp

/-- With nothing left behind by a call, everybody who waits came after the last one. -/
theorem step_reported {k : ServerClass} {s s' : Listener} {a : ListenAct}
    (h : s.step k a = some s') (hf : a.failed = false) (hone : AtMostOne s a s') :
    s'.Reported := by
  cases a with
  | arrive client =>
    cases h
    exact fun _ => rfl
  | dispatch o =>
    intro hne
    exact absurd ((drains_iff h).mpr hone hf) hne

theorem reported_started (backlog : List Nat) : (started backlog).Reported := by
  intro h
  simpa [started] using h

/-- Along every run `HandleAccept` drains the backlog exactly when it never finds
more than one client there; and as long as it does, and `accept` does not fail,
nobody waits for a later arrival. -/
theorem drains_iff_atMostOne (k : ServerClass) (backlog : List Nat) {as : List ListenAct}
    {t : Listener} (h : (machine k).run (started backlog) as = some t) :
    ((machine k).Every Drains (started backlog) as ↔
      (machine k).Every AtMostOne (started backlog) as) ∧
      ((∀ a ∈ as, a.failed = false) → (machine k).Every AtMostOne (started backlog) as →
        t.Reported) := by
  refine ⟨?_, fun hf hone => ?_⟩
  · exact (machine k).every_iff_every (I := fun _ => True)
      (fun s a s' _ hs hone => ⟨trivial, (drains_iff hs).mpr hone⟩)
      (fun s a s' _ hs hd => (drains_iff hs).mp hd) trivial
  · exact (machine k).run_invariant_of_every (I := Reported)
      (fun s a s' _ hs hc => step_reported hs hc.1 hc.2) (reported_started backlog)
      ((machine k).every_and hf hone) h

def accepted (fd : Fd) : ListenAct := .dispatch ⟨.socket fd, true, true, true, true⟩

theorem drains_iff_atMostOne_oneByOne :
    ∃ t, (machine .epollTcp).run (started []) [.arrive 0, accepted 7, .arrive 1, accepted 8] =
        some t ∧
      ((machine .epollTcp).Every Drains (started [])
          [.arrive 0, accepted 7, .arrive 1, accepted 8] ↔
        (machine .epollTcp).Every AtMostOne (started [])
          [.arrive 0, accepted 7, .arrive 1, accepted 8]) := by
  have hrun : (machine .epollTcp).run (started [])
      [.arrive 0, accepted 7, .arrive 1, accepted 8] = some _ := rfl
  exact ⟨_, hrun, (drains_iff_atMostOne .epollTcp [] hrun).1⟩

def twoArrivals : List ListenAct := [.arrive 0, .arrive 1, accepted 7]

theorem twoArrivals_not_drained :
    ¬ ∃ k : ServerClass, ∀ (backlog : List Nat) (as : List ListenAct) (t : Listener),
      (machine k).run (started backlog) as = some t →
        (machine k).Every Drains (started backlog) as := by
  rintro ⟨k, h⟩
  cases k
  all_goals
    have hd := h [] twoArrivals _ rfl
    have hlast : Drains _ (accepted 7) _ := (((hd _ rfl).2 _ rfl).2 _ rfl).1
    exact absurd (hlast rfl) (by decide)

end Listener

end Lmnet.Reactor
