import Lmnet.Reactor.ClientRecord

/-!
The epoll `TcpClientImpl` from one `Init` to the next: `Connect` with its six failing
exits, `Close`, and what the reactor dispatches to the client. Each is one step. Nothing
is sent, so a `HandleWrite` finds its queue empty.
-/

set_option autoImplicit false

namespace Lmnet.Epoll

open Lmnet.Reactor

def EINPROGRESS : Int := 115

/-- `clientHandler` is whether there is one; the reactor's table is that of the client's
own registrations. -/
structure TcpClient where
  socket : Fd
  isConnected : Bool
  clientHandler : Bool
  handlerRegistered : Bool
  reactor : EventReactor Unit
  record : ClientRecord

namespace TcpClient

def new (running : Bool) : TcpClient where
  socket := invalidSocket
  isConnected := false
  clientHandler := false
  handlerRegistered := false
  reactor := ⟨running, ∅, ∅⟩
  record := .new

inductive Act where
  | init (answer : InitAnswer)
  | connect (answers : ConnectAnswers)
  | close
  | dispatchEvent (fd : Fd) (events : Nat) (rs : List RecvReturn)
  /-- The thread of the callback queue runs a task. -/
  | runTask
  deriving DecidableEq, Repr

def init (s : TcpClient) (answer : InitAnswer) : Option TcpClient :=
  (s.record.init answer).map fun out =>
    { s with isConnected := false, record := out.1, socket := out.2 }

/-- What `Close` and `HandleConnectionClose` do with the socket. The `epoll_ctl` of
`RemoveHandler` succeeds. -/
def dropSocket (s : TcpClient) : TcpClient :=
  let reactor :=
    if s.handlerRegistered then (s.reactor.removeHandler s.socket none).1 else s.reactor
  { s with
    isConnected := false
    clientHandler := false
    handlerRegistered := false
    reactor := reactor.onClose s.socket
    record := s.record.closeSocket s.socket
    socket := invalidSocket }

section Queue

variable (p : WorkQueue.Policy)

def notifyClose (s : TcpClient) (fd : Fd) (error : Option Reason) : TcpClient :=
  { s with record := s.record.enqueueTask p (.close fd error) }

def close (s : TcpClient) : TcpClient :=
  let closed :=
    if s.socket ≠ invalidSocket then s.dropSocket
    else { s with isConnected := false, clientHandler := false, handlerRegistered := false }
  if s.isConnected then closed.notifyClose p s.socket none else closed

def handleConnectionClose (s : TcpClient) (fd : Fd) (error : Option Reason) : TcpClient :=
  if s.socket ≠ fd then s
  else if s.isConnected then s.dropSocket.notifyClose p fd error
  else s.dropSocket

def reInit (s : TcpClient) (answer : InitAnswer) : Option TcpClient :=
  { s.close p with isConnected := false }.init answer

def register (s : TcpClient) (ans : ConnectAnswers) : TcpClient × Bool :=
  let s : TcpClient := { s with
    record := { s.record with queue := s.record.queue.start ans.started }
    clientHandler := true }
  let registered := s.reactor.registerHandler s.socket (getEvents false) () ans.ctl
  if registered.2 then
    ({ s with reactor := registered.1, handlerRegistered := true, isConnected := true }, true)
  else
    let s : TcpClient := { s with
      clientHandler := false
      record := { s.record with queue := s.record.queue.stop p } }
    (s.close p, false)

def connect (s : TcpClient) (ans : ConnectAnswers) : Option (TcpClient × Bool) :=
  if s.socket = invalidSocket then some (s, false)
  else
    ans.attempt EINPROGRESS ((s.reInit p ans.reInit).map (·, false)) (some (s.register p ans))

def handleReceive (s : TcpClient) (fd : Fd) (rs : List RecvReturn) : Option TcpClient :=
  (s.record.receiveLoop p EAGAIN fd rs).map fun out =>
    match out.2 with
    | none => { s with record := out.1 }
    | some reason => { s with record := out.1 }.handleConnectionClose p fd (some reason)

def dispatchEvent (s : TcpClient) (fd : Fd) (events : Nat) (rs : List RecvReturn) :
    Option TcpClient :=
  (if events &&& EPOLLIN != 0 then s.handleReceive p fd rs else some s).map fun s =>
    let s :=
      if events &&& EPOLLERR != 0 then s.handleConnectionClose p fd (some .connectionError)
      else s
    if events &&& (EPOLLHUP ||| EPOLLRDHUP) != 0 then s.handleConnectionClose p fd none else s

/-- With the socket of a `Connect` that returns true. `Init` is called only when there is
no socket. -/
def perform (s : TcpClient) : Act → Option (TcpClient × Option Fd)
  | .init answer => if s.socket = invalidSocket then (s.init answer).map (·, none) else none
  | .connect ans =>
      (s.connect p ans).map fun out => (out.1, if out.2 then some out.1.socket else none)
  | .close => some (s.close p, none)
  | .dispatchEvent fd events rs =>
      match s.reactor.handlers.lookup fd with
      | none => some (s, none)
      | some () => (s.dispatchEvent p fd events rs).map (·, none)
  | .runTask =>
      s.record.queue.work.map fun q => ({ s with record := { s.record with queue := q } }, none)

def dispatchEnd (events : Nat) (rs : List RecvReturn) : Option (Option Reason) :=
  match (if events &&& EPOLLIN != 0 then recvError EAGAIN rs else none) with
  | some reason => some (some reason)
  | none =>
      if events &&& EPOLLERR != 0 then some (some .connectionError)
      else if events &&& (EPOLLHUP ||| EPOLLRDHUP) != 0 then some none
      else none

def Act.error : Act → Option Reason
  | .dispatchEvent _ events rs => (dispatchEnd events rs).join
  | _ => none

def live (s : TcpClient) : Option Fd := if s.isConnected then some s.socket else none

def step (s : TcpClient) (a : Act) : Option TcpClient :=
  (s.perform p a).map fun out =>
    { out.1 with record := out.1.record.watch out.2 s.live out.1.live a.error }

def machine : Machine TcpClient Act where
  init s := ∃ running, s = new running
  step := step p

end Queue

/-- What a step does to the connection, by what the client is before it and is answered. -/
def turn (s : TcpClient) : Act → Turn
  | .init _ | .runTask => .quiet
  | .connect ans =>
      if s.socket = invalidSocket then .quiet
      else if ans.established EINPROGRESS then
        if s.isConnected ∨ ans.ctl ≠ none ∨ s.reactor.running = false then .stopped
        else .began s.socket
      else if s.isConnected then .ended none
      else .quiet
  | .close => if s.isConnected then .ended none else .quiet
  | .dispatchEvent fd events rs =>
      if s.isConnected ∧ s.socket = fd then ((dispatchEnd events rs).map .ended).getD .quiet
      else .quiet

/-- The listener is told of every end: the step does not end a connection while the
callback queue is not running, or by a `Connect` that stops it first; and it does not stop
the queue while an `OnClose` waits there. Unless the queue runs such tasks all the same. -/
def Delivers (p : WorkQueue.Policy) (s : TcpClient) (a : Act) : Prop :=
  (s.turn a).Delivers p s.record s.live

/-- The reactor has a handler for a number exactly while it is the socket of a connected
client. -/
def Registered (s : TcpClient) : Prop :=
  ∀ fd, fd ∈ s.reactor.handlers ↔ s.isConnected = true ∧ s.socket = fd

structure LifeCycle (s : TcpClient) (a : Act) (s' : TcpClient) : Prop where
  matched : s'.record.Matched
  closedOnce : s'.record.ClosedOnce s'.socket
  registered : s'.Registered
  quiet : ∀ ans, a = .connect ans → s.isConnected = false → s'.isConnected = false →
    s'.record.callbacks <+: s.record.callbacks

structure Shape (s : TcpClient) : Prop where
  closedOnce : s.record.ClosedOnce s.socket
  connected : s.isConnected = true → s.socket ≠ invalidSocket
  handlerRegistered : s.handlerRegistered = s.isConnected
  registered : s.Registered

section Steps

variable {p : WorkQueue.Policy} {s s' : TcpClient} {fd : Fd} {error : Option Reason}

theorem live_connected (h : s.isConnected = true) : s.live = some s.socket := by
  simp [live, h]

theorem live_unconnected (h : s.isConnected = false) : s.live = none := by
  simp [live, h]

theorem shape_new (running : Bool) : (new running).Shape where
  closedOnce := ClientRecord.closedOnce_new
  connected h := absurd h (by simp [new])
  handlerRegistered := rfl
  registered fd := by simp [new]

theorem mem_handlers_removeHandler {r : EventReactor Unit} :
    fd ∈ (r.removeHandler s.socket none).1.handlers ↔ fd ≠ s.socket ∧ fd ∈ r.handlers := by
  unfold EventReactor.removeHandler
  split
  · split <;> exact AList.mem_erase
  · rename_i hnone
    refine ⟨fun h => ⟨?_, h⟩, fun h => h.2⟩
    rintro rfl
    exact hnone h

theorem Shape.dropSocket (h : s.Shape) (hne : s.socket ≠ invalidSocket) : s.dropSocket.Shape where
  closedOnce := (ClientRecord.closeSocket_spec h.closedOnce hne).1
  connected hconnected := absurd hconnected (by simp [TcpClient.dropSocket])
  handlerRegistered := rfl
  registered fd := by
    simp only [TcpClient.dropSocket, EventReactor.onClose, Bool.false_eq_true, false_and,
      iff_false]
    intro hmem
    rw [h.handlerRegistered] at hmem
    split at hmem
    · obtain ⟨hother, hmem⟩ := mem_handlers_removeHandler.mp hmem
      exact hother ((h.registered fd).mp hmem).2.symm
    · rename_i hunconnected
      exact hunconnected ((h.registered fd).mp hmem).1

structure Over (p : WorkQueue.Policy) (s : TcpClient) (error : Option Reason) (s' : TcpClient) :
    Prop where
  shape : s'.Shape
  unconnected : s'.isConnected = false
  connections : s'.record.connections = s.record.connections
  queue : s'.record.queue = s.live.elim s.record.queue fun fd =>
    s.record.queue.enqueue p (.close fd error)

theorem Shape.notifyClose (h : s.Shape) : (s.notifyClose p fd error).Shape :=
  ⟨h.closedOnce, h.connected, h.handlerRegistered, h.registered⟩

theorem over_dropSocket (h : s.Shape) (hconnected : s.isConnected = true)
    (error : Option Reason) :
    Over p s error (s.dropSocket.notifyClose p s.socket error) := by
  have hne := h.connected hconnected
  obtain ⟨-, hqueue, hconnections⟩ := ClientRecord.closeSocket_spec h.closedOnce hne
  refine ⟨(h.dropSocket hne).notifyClose, rfl, hconnections, ?_⟩
  rw [live_connected hconnected]
  exact congrArg (fun q => q.enqueue p (.close s.socket error)) hqueue

theorem over_close (h : s.Shape) : Over p s none (s.close p) := by
  cases hconnected : s.isConnected with
  | true =>
    have hclose : s.close p = s.dropSocket.notifyClose p s.socket none := by
      simp [close, hconnected, h.connected hconnected]
    rw [hclose]
    exact over_dropSocket h hconnected none
  | false =>
    by_cases hsocket : s.socket = invalidSocket
    · have hclose : s.close p =
          { s with isConnected := false, clientHandler := false, handlerRegistered := false } := by
        simp [close, hconnected, hsocket]
      rw [hclose]
      refine ⟨⟨h.closedOnce, nofun, rfl, fun fd => ?_⟩, rfl, rfl, ?_⟩
      · simpa [hconnected] using h.registered fd
      · simp [live, hconnected]
    · have hclose : s.close p = s.dropSocket := by
        simp [close, hconnected, hsocket]
      obtain ⟨-, hqueue, hconnections⟩ := ClientRecord.closeSocket_spec h.closedOnce hsocket
      rw [hclose]
      refine ⟨h.dropSocket hsocket, rfl, hconnections, ?_⟩
      rw [live_unconnected hconnected]
      exact hqueue

theorem close_socket : (s.close p).socket = invalidSocket := by
  unfold close
  split <;> split <;> simp_all [notifyClose, dropSocket]

structure Fresh (s s' : TcpClient) : Prop where
  shape : s'.Shape
  unconnected : s'.isConnected = false
  connections : s'.record.connections = s.record.connections
  queue : s'.record.queue = s.record.queue

theorem Shape.unconnected (h : s.Shape) (hsocket : s.socket = invalidSocket) :
    s.isConnected = false := by
  by_contra hconnected
  exact h.connected (by simpa using hconnected) hsocket

theorem Shape.free (h : s.Shape) (hunconnected : s.isConnected = false) :
    fd ∉ s.reactor.handlers := by
  rw [h.registered, hunconnected]
  simp

theorem fresh_init (h : s.Shape) (hsocket : s.socket = invalidSocket) {answer : InitAnswer}
    (hinit : s.init answer = some s') : Fresh s s' := by
  have hunconnected := h.unconnected hsocket
  have hclosed := h.closedOnce
  rw [hsocket] at hclosed
  obtain ⟨out, hout, rfl⟩ := Option.map_eq_some_iff.mp hinit
  obtain ⟨hclosed', hqueue, hconnections⟩ := ClientRecord.init_spec hclosed hout
  refine ⟨⟨hclosed', nofun, h.handlerRegistered.trans hunconnected, fun fd => ?_⟩, rfl,
    hconnections, hqueue⟩
  simpa using h.free hunconnected

theorem over_reInit (h : s.Shape) {answer : InitAnswer} (hinit : s.reInit p answer = some s') :
    Over p s none s' := by
  have hclose := over_close (p := p) h
  have hstop : ({ s.close p with isConnected := false } : TcpClient) = s.close p := by
    rw [← hclose.unconnected]
  rw [reInit, hstop] at hinit
  have hfresh := fresh_init hclose.shape close_socket hinit
  exact ⟨hfresh.shape, hfresh.unconnected, hfresh.connections.trans hclose.connections,
    hfresh.queue.trans hclose.queue⟩

theorem Over.holds (h : Over p s error s') :
    (if s.isConnected then Turn.ended error else .quiet).Holds p s.record.queue s'.record.queue
      s.live s'.live none error :=
  Turn.holds_ended (live_unconnected h.unconnected) h.queue

/-- The registration is refused to a number that has a handler already. -/
theorem registerHandler_snd {r : EventReactor Unit} {events : Nat} {ctl : Option Int} :
    (r.registerHandler fd events () ctl).2 = false ↔
      r.running = false ∨ fd ∈ r.handlers ∨ ctl ≠ none := by
  unfold EventReactor.registerHandler
  cases r.running with
  | false => simp
  | true =>
    by_cases hmem : fd ∈ r.handlers
    · simp [hmem]
    · cases ctl <;> simp [hmem]

def stopped (p : WorkQueue.Policy) (s : TcpClient) : TcpClient :=
  { s with clientHandler := false, record := { s.record with queue := s.record.queue.stop p } }

theorem register_refused (h : s.Shape) {ans : ConnectAnswers}
    (hrefused : s.isConnected = true ∨ ans.ctl ≠ none ∨ s.reactor.running = false) :
    s.register p ans = ((s.stopped p).close p, false) := by
  have hsnd : (s.reactor.registerHandler s.socket (getEvents false) () ans.ctl).2 = false := by
    rw [registerHandler_snd, h.registered]
    tauto
  simp [register, hsnd, stopped]

theorem register_registered {ans : ConnectAnswers}
    (hfree : s.socket ∉ s.reactor.handlers) (hctl : ans.ctl = none)
    (hrunning : s.reactor.running = true) :
    s.register p ans = ({ s with
      record := { s.record with queue := s.record.queue.start ans.started }
      clientHandler := true
      reactor := { s.reactor with
        handlers := s.reactor.handlers.insert s.socket ()
        interest := s.reactor.interest.insert s.socket (epollEvents (getEvents false)) }
      handlerRegistered := true
      isConnected := true }, true) := by
  simp [register, EventReactor.registerHandler, hfree, hctl, hrunning]

theorem over_stopped (h : s.Shape) : Over p (s.stopped p) none ((s.stopped p).close p) :=
  over_close ⟨h.closedOnce, h.connected, h.handlerRegistered, h.registered⟩

theorem holds_stopped (h : s.Shape) : Turn.stopped.Holds p s.record.queue
    ((s.stopped p).close p).record.queue s.live ((s.stopped p).close p).live none none :=
  Turn.holds_stopped (live_unconnected (over_stopped h).unconnected) (over_stopped h).queue

structure Outcome (p : WorkQueue.Policy) (s : TcpClient) (t : Turn) (error : Option Reason)
    (out : TcpClient × Option Fd) : Prop where
  shape : out.1.Shape
  connections : out.1.record.connections = s.record.connections
  holds : t.Holds p s.record.queue out.1.record.queue s.live out.1.live out.2 error

theorem Over.outcome (h : Over p s error s') :
    Outcome p s (if s.isConnected then .ended error else .quiet) error (s', none) :=
  ⟨h.shape, h.connections, h.holds⟩

theorem outcome_register (h : s.Shape) (hne : s.socket ≠ invalidSocket) (ans : ConnectAnswers) :
    Outcome p s
      (if s.isConnected = true ∨ ans.ctl ≠ none ∨ s.reactor.running = false then .stopped
        else .began s.socket) none
      ((s.register p ans).1,
        if (s.register p ans).2 then some (s.register p ans).1.socket else none) := by
  by_cases hrefused : s.isConnected = true ∨ ans.ctl ≠ none ∨ s.reactor.running = false
  · rw [if_pos hrefused, register_refused h hrefused]
    have hover := over_stopped (p := p) h
    exact ⟨hover.shape, hover.connections, holds_stopped h⟩
  · rw [if_neg hrefused]
    simp only [not_or, Bool.not_eq_true, ne_eq, not_not, Bool.not_eq_false] at hrefused
    obtain ⟨hunconnected, hctl, hrunning⟩ := hrefused
    rw [register_registered (h.free hunconnected) hctl hrunning]
    refine ⟨⟨h.closedOnce, fun _ => hne, rfl, fun fd => ?_⟩, rfl, rfl,
      live_unconnected hunconnected, rfl, rfl⟩
    simp [AList.mem_insert, h.free hunconnected, eq_comm]

theorem handleConnectionClose_connected (hconnected : s.isConnected = true)
    (error : Option Reason) :
    s.handleConnectionClose p s.socket error = s.dropSocket.notifyClose p s.socket error := by
  simp [handleConnectionClose, hconnected]

theorem handleConnectionClose_gone {reason : Option Reason} (hne : fd ≠ invalidSocket) :
    (s.dropSocket.notifyClose p fd error).handleConnectionClose p fd reason =
      s.dropSocket.notifyClose p fd error :=
  if_pos hne.symm

theorem Shape.receives (h : s.Shape) {r : ClientRecord}
    (hr : ClientRecord.Receives s.record r) : ({ s with record := r } : TcpClient).Shape :=
  ⟨hr.closedOnce _ h.closedOnce, h.connected, h.handlerRegistered, h.registered⟩

theorem handleRead_cases (hconnected : s.isConnected = true) {reads : Bool}
    {rs : List RecvReturn}
    (hread : (if reads then s.handleReceive p s.socket rs else some s) = some s') :
    ∃ r, ClientRecord.Receives s.record r ∧
      match (if reads then recvError EAGAIN rs else none) with
      | none => s' = { s with record := r }
      | some reason => s' = ({ s with record := r } : TcpClient).dropSocket.notifyClose p s.socket
          (some reason) := by
  cases reads with
  | false =>
    cases hread
    exact ⟨s.record, .refl _, rfl⟩
  | true =>
    simp only [if_true, handleReceive] at hread ⊢
    obtain ⟨⟨r, found⟩, hloop, rfl⟩ := Option.map_eq_some_iff.mp hread
    obtain ⟨rfl, hr⟩ := ClientRecord.receiveLoop_spec hloop
    refine ⟨r, hr, ?_⟩
    cases recvError EAGAIN rs with
    | none => rfl
    | some reason =>
      exact handleConnectionClose_connected (s := { s with record := r }) hconnected _

theorem dispatchEvent_cases (h : s.Shape) (hconnected : s.isConnected = true) {events : Nat}
    {rs : List RecvReturn} (hdispatch : s.dispatchEvent p s.socket events rs = some s') :
    ∃ r, ClientRecord.Receives s.record r ∧
      match dispatchEnd events rs with
      | none => s' = { s with record := r }
      | some error => Over p { s with record := r } error s' := by
  obtain ⟨mid, hread, rfl⟩ := Option.map_eq_some_iff.mp hdispatch
  obtain ⟨r, hr, hmid⟩ := handleRead_cases hconnected hread
  refine ⟨r, hr, ?_⟩
  have hne := h.connected hconnected
  have hover := fun error => over_dropSocket (p := p) (h.receives hr) hconnected error
  have hclose := fun error =>
    handleConnectionClose_connected (p := p) (s := { s with record := r }) hconnected error
  unfold dispatchEnd
  generalize (if events &&& EPOLLIN != 0 then recvError EAGAIN rs else none) = found at hmid ⊢
  cases found with
  | some reason =>
    subst hmid
    simp only [handleConnectionClose_gone hne, ite_self]
    exact hover (some reason)
  | none =>
    subst hmid
    simp only at hclose ⊢
    cases events &&& EPOLLERR != 0 with
    | true =>
      simp only [if_true, hclose, handleConnectionClose_gone hne, ite_self]
      exact hover (some .connectionError)
    | false =>
      cases events &&& (EPOLLHUP ||| EPOLLRDHUP) != 0 with
      | true =>
        simp only [Bool.false_eq_true, if_true, if_false, hclose]
        exact hover none
      | false => simp only [Bool.false_eq_true, if_false]

theorem outcome_dispatch (h : s.Shape) (hconnected : s.isConnected = true) {events : Nat}
    {rs : List RecvReturn} (hdispatch : s.dispatchEvent p s.socket events rs = some s') :
    Outcome p s (((dispatchEnd events rs).map .ended).getD .quiet) (dispatchEnd events rs).join
      (s', none) := by
  obtain ⟨r, hr, hend⟩ := dispatchEvent_cases h hconnected hdispatch
  cases hhow : dispatchEnd events rs with
  | none =>
    rw [hhow] at hend
    subst hend
    exact ⟨h.receives hr, hr.connections, rfl, rfl, hr.closings⟩
  | some error =>
    rw [hhow] at hend
    have hholds := hend.holds
    rw [if_pos hconnected] at hholds
    exact ⟨hend.shape, hend.connections.trans hr.connections,
      Turn.holds_ended_of_receives hr.closings hr.running hholds⟩

theorem perform_spec (h : s.Shape) {a : Act} {out : TcpClient × Option Fd}
    (hperform : s.perform p a = some out) : Outcome p s (s.turn a) a.error out := by
  have hsame : ∀ error, Outcome p s .quiet error (s, none) := fun _ => ⟨h, rfl, rfl, rfl, rfl⟩
  cases a with
  | init answer =>
    simp only [perform] at hperform
    split at hperform
    · rename_i hsocket
      obtain ⟨s', hinit, rfl⟩ := Option.map_eq_some_iff.mp hperform
      have hfresh := fresh_init h hsocket hinit
      have hlive :=
        (live_unconnected hfresh.unconnected).trans (live_unconnected (h.unconnected hsocket)).symm
      exact ⟨hfresh.shape, hfresh.connections, rfl, hlive,
        congrArg (closings ·.handed) hfresh.queue⟩
    · cases hperform
  | connect ans =>
    obtain ⟨out, hconnect, rfl⟩ := Option.map_eq_some_iff.mp hperform
    simp only [connect, ConnectAnswers.attempt_eq] at hconnect
    simp only [turn, Act.error]
    split at hconnect
    · rename_i hsocket
      cases hconnect
      rw [if_pos hsocket]
      exact hsame none
    · rename_i hsocket
      rw [if_neg hsocket]
      split at hconnect
      · rename_i hestablished
        cases hconnect
        rw [if_pos hestablished]
        exact outcome_register h hsocket ans
      · rename_i hestablished
        obtain ⟨s', hreInit, rfl⟩ := Option.map_eq_some_iff.mp hconnect
        rw [if_neg hestablished]
        exact (over_reInit h hreInit).outcome
  | close =>
    cases hperform
    exact (over_close h).outcome
  | dispatchEvent fd events rs =>
    simp only [perform] at hperform
    simp only [turn, Act.error]
    split at hperform
    · rename_i hlookup
      cases hperform
      rw [AList.lookup_eq_none] at hlookup
      rw [if_neg fun hthis => hlookup ((h.registered fd).mpr hthis)]
      exact hsame _
    · rename_i hlookup
      obtain ⟨s', hdispatch, rfl⟩ := Option.map_eq_some_iff.mp hperform
      have hmem : fd ∈ s.reactor.handlers := AList.lookup_isSome.mp (by rw [hlookup]; rfl)
      obtain ⟨hconnected, rfl⟩ := (h.registered fd).mp hmem
      rw [if_pos ⟨hconnected, rfl⟩]
      exact outcome_dispatch h hconnected hdispatch
  | runTask =>
    obtain ⟨q, hwork, rfl⟩ := Option.map_eq_some_iff.mp hperform
    exact ⟨⟨h.closedOnce, h.connected, h.handlerRegistered, h.registered⟩, rfl, rfl, rfl,
      congrArg closings (WorkQueue.handed_work hwork)⟩

structure Inv (s : TcpClient) : Prop where
  shape : s.Shape
  live : s.record.Live s.live

theorem inv_new (running : Bool) : (new running).Inv := ⟨shape_new running, ClientRecord.live_new⟩

/-- A step keeps the invariant, and the callbacks go on to match the connections if and
only if it delivers. -/
theorem step_spec {a : Act} (h : s.Inv) (hstep : s.step p a = some s') :
    s'.Inv ∧ (s.record.Matched → (s'.record.Matched ↔ s.Delivers p a)) := by
  obtain ⟨out, hperform, rfl⟩ := Option.map_eq_some_iff.mp hstep
  obtain ⟨hshape, hconnections, hholds⟩ := perform_spec h.shape hperform
  refine ⟨⟨⟨?_, hshape.connected, hshape.handlerRegistered, hshape.registered⟩,
    Turn.live_watch h.live hconnections hholds⟩, fun hmatched =>
      Turn.matched_watch h.live hconnections hmatched hholds⟩
  exact ClientRecord.closedOnce_watch.mpr hshape.closedOnce

theorem connect_quiet (h : s.Shape) {ans : ConnectAnswers} {out : TcpClient × Bool}
    (hconnect : s.connect p ans = some out) (hbefore : s.isConnected = false)
    (hafter : out.1.isConnected = false) : out.1.record.callbacks <+: s.record.callbacks := by
  simp only [connect, ConnectAnswers.attempt_eq] at hconnect
  split at hconnect
  · cases hconnect
    exact List.prefix_rfl
  · rename_i hsocket
    split at hconnect
    · cases hconnect
      by_cases hrefused : s.isConnected = true ∨ ans.ctl ≠ none ∨ s.reactor.running = false
      · have hqueue := (over_stopped (p := p) h).queue
        rw [live_unconnected (s := s.stopped p) hbefore] at hqueue
        rw [register_refused h hrefused]
        exact ClientRecord.callbacks_stop rfl hqueue
      · simp only [not_or, Bool.not_eq_true, ne_eq, not_not, Bool.not_eq_false] at hrefused
        obtain ⟨-, hctl, hrunning⟩ := hrefused
        rw [register_registered (h.free hbefore) hctl hrunning] at hafter
        cases hafter
    · obtain ⟨s', hreInit, rfl⟩ := Option.map_eq_some_iff.mp hconnect
      have hqueue := (over_reInit h hreInit).queue
      rw [live_unconnected hbefore] at hqueue
      rw [ClientRecord.callbacks, hqueue]
      exact List.prefix_rfl

theorem step_lifeCycle {a : Act} (h : s.Inv) (hstep : s.step p a = some s')
    (hmatched : s'.record.Matched) : s.LifeCycle a s' := by
  have hinv := (step_spec h hstep).1.shape
  refine ⟨hmatched, hinv.closedOnce, hinv.registered, ?_⟩
  rintro ans rfl hbefore hafter
  obtain ⟨out, hperform, rfl⟩ := Option.map_eq_some_iff.mp hstep
  obtain ⟨out, hconnect, rfl⟩ := Option.map_eq_some_iff.mp hperform
  simp only [ClientRecord.callbacks, ClientRecord.watch_queue]
  exact connect_quiet h.shape hconnect hbefore hafter

end Steps

/-- In every run of a client, whatever `Init`, `Connect`, `Close` and the dispatches are
answered, each connection is told of as it ends, if and only if none ends while the
callback queue is stopped and no queue is stopped while an `OnClose` waits in it. -/
theorem lifeCycle_iff_delivers (p : WorkQueue.Policy) (running : Bool) (as : List Act) :
    (machine p).Every LifeCycle (new running) as ↔
      (machine p).Every (fun s a _ => s.Delivers p a) (new running) as := by
  refine (machine p).every_iff_every (I := fun s => s.Inv ∧ s.record.Matched)
    (fun s a s' ⟨hinv, hmatched⟩ hstep hdelivers => ?_)
    (fun s a s' ⟨hinv, hmatched⟩ hstep hlife => ?_) ⟨inv_new running, ClientRecord.matched_new⟩
  · obtain ⟨hinv', hiff⟩ := step_spec hinv hstep
    have hmatched' := (hiff hmatched).mpr hdelivers
    exact ⟨⟨hinv', hmatched'⟩, step_lifeCycle hinv hstep hmatched'⟩
  · exact ((step_spec hinv hstep).2 hmatched).mp hlife.matched

/-- `connect` is still in progress when it is called first, and returns 0 when it is called
again. -/
def connectAnswers (connect : Option Int) : ConnectAnswers where
  validAddress := true
  connect := connect
  selected := true
  socketError := some 0
  reInit := .noSocket
  started := true
  ctl := none

/-- A connected client is connected once more. -/
theorem connectTwice_unmatched :
    ¬ (machine ⟨false, false⟩).Every LifeCycle (new true)
      [.init (.ready 3), .connect (connectAnswers (some EINPROGRESS)),
        .connect (connectAnswers none)] := by
  intro h
  obtain ⟨-, h⟩ := h _ rfl
  obtain ⟨-, h⟩ := h _ rfl
  obtain ⟨hlife, -⟩ := h _ rfl
  exact absurd hlife.matched (by decide)

end TcpClient

end Lmnet.Epoll
