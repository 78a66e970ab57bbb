import Lmnet.Darwin.EventReactor
import Lmnet.Reactor.ClientRecord

/-!
The kqueue `TcpClientImpl` from one `Init` to the next. A connection is taken down either
by `CloseInternal` or, in the failing exits of `Connect`, by `ReInit`. Each call and each
dispatch is one step, and nothing is sent.
-/

set_option autoImplicit false

namespace Lmnet.Darwin

open Lmnet.Reactor
open Lmnet.Epoll (Reason RecvReturn getEvents)

def EAGAIN : Int := 35
def EINPROGRESS : Int := 36

inductive Filter where
  | read | write
  deriving DecidableEq, Repr

def EV_ERROR : Nat := 0x4000
def EV_EOF : Nat := 0x8000

/-- `clientHandler` is whether there is one; the reactor's tables are those of the client's
own registrations. -/
structure TcpClient where
  socket : Fd
  isConnected : Bool
  clientHandler : Bool
  reactor : EventReactor Unit
  record : ClientRecord

namespace TcpClient

def new (running : Bool) : TcpClient where
  socket := invalidSocket
  isConnected := false
  clientHandler := false
  reactor := ⟨running, ∅, ∅⟩
  record := .new

inductive Act where
  | init (answer : InitAnswer)
  | connect (answers : ConnectAnswers)
  | close
  | dispatchEvent (fd : Fd) (filter : Filter) (flags : Nat) (rs : List RecvReturn)
  /-- The thread of the callback queue runs a task. -/
  | runTask
  deriving DecidableEq, Repr

def init (s : TcpClient) (answer : InitAnswer) : Option TcpClient :=
  (s.record.init answer).map fun out =>
    { s with isConnected := false, record := out.1, socket := out.2 }

/-- The handler stays with the client, and with the reactor. -/
def reInit (s : TcpClient) (answer : InitAnswer) : Option TcpClient :=
  let closed : TcpClient :=
    if s.socket ≠ invalidSocket then
      { s with record := s.record.closeSocket s.socket, socket := invalidSocket }
    else s
  { closed with isConnected := false }.init answer

section Queue

variable (p : WorkQueue.Policy)

def notifyClose (s : TcpClient) (fd : Fd) (error : Option Reason) : TcpClient :=
  { s with record := s.record.enqueueTask p (.close fd error) }

/-- What `CloseInternal` does with the socket. The `kevent` of `RemoveHandler` succeeds. -/
def dropSocket (s : TcpClient) : TcpClient :=
  { s with
    isConnected := false
    clientHandler := false
    reactor := if s.clientHandler then (s.reactor.removeHandler s.socket none).1 else s.reactor
    record := s.record.closeSocket s.socket
    socket := invalidSocket }

def closeInternal (s : TcpClient) (fd : Fd) (error : Option Reason) : TcpClient :=
  if s.socket = invalidSocket then s
  else if fd ≠ invalidSocket ∧ s.socket ≠ fd then s
  else if s.isConnected then s.dropSocket.notifyClose p s.socket error
  else s.dropSocket

def close (s : TcpClient) : TcpClient := s.closeInternal p s.socket none

def handleConnectionClose (s : TcpClient) (fd : Fd) (error : Option Reason) : TcpClient :=
  s.closeInternal p fd error

def register (s : TcpClient) (ans : ConnectAnswers) : TcpClient × Bool :=
  let s : TcpClient := { s with
    record := { s.record with queue := s.record.queue.start ans.started } }
  if !ans.started then (s.close p, false)
  else
    let s : TcpClient := { s with clientHandler := true }
    let registered := s.reactor.registerHandler s.socket (getEvents false) () ans.ctl
    if registered.2 then ({ s with reactor := registered.1, isConnected := true }, true)
    else
      let s : TcpClient := { s with
        clientHandler := false
        reactor := registered.1
        record := { s.record with queue := s.record.queue.stop p } }
      (s.close p, false)

def connect (s : TcpClient) (ans : ConnectAnswers) : Option (TcpClient × Bool) :=
  if s.socket = invalidSocket then some (s, false)
  else ans.attempt EINPROGRESS ((s.reInit ans.reInit).map (·, false)) (some (s.register p ans))

def handleReceive (s : TcpClient) (fd : Fd) (rs : List RecvReturn) : Option TcpClient :=
  if s.socket ≠ fd then some s
  else
    (s.record.receiveLoop p EAGAIN fd rs).map fun out =>
      match out.2 with
      | none => { s with record := out.1 }
      | some reason => { s with record := out.1 }.handleConnectionClose p fd (some reason)

def dispatchEvent (s : TcpClient) (fd : Fd) (filter : Filter) (flags : Nat)
    (rs : List RecvReturn) : Option TcpClient :=
  let s :=
    if flags &&& EV_ERROR != 0 then s.handleConnectionClose p fd (some .connectionError) else s
  (if flags &&& EV_ERROR == 0 && filter == .read then s.handleReceive p fd rs else some s).map
    fun s => if flags &&& EV_EOF != 0 then s.handleConnectionClose p fd none else s

/-- With the socket of a `Connect` that returns true. `Init` is called only when there is
no socket. -/
def perform (s : TcpClient) : Act → Option (TcpClient × Option Fd)
  | .init answer => if s.socket = invalidSocket then (s.init answer).map (·, none) else none
  | .connect ans =>
      (s.connect p ans).map fun out => (out.1, if out.2 then some out.1.socket else none)
  | .close => some (s.close p, none)
  | .dispatchEvent fd filter flags rs =>
      match s.reactor.handlers.lookup fd with
      | none => some (s, none)
      | some () => (s.dispatchEvent p fd filter flags rs).map (·, none)
  | .runTask =>
      s.record.queue.work.map fun q => ({ s with record := { s.record with queue := q } }, none)

def dispatchEnd (filter : Filter) (flags : Nat) (rs : List RecvReturn) : Option (Option Reason) :=
  if flags &&& EV_ERROR != 0 then some (some .connectionError)
  else
    match (if filter == .read then recvError EAGAIN rs else none) with
    | some reason => some (some reason)
    | none => if flags &&& EV_EOF != 0 then some none else none

def Act.error : Act → Option Reason
  | .dispatchEvent _ filter flags rs => (dispatchEnd filter flags rs).join
  | _ => none

def live (s : TcpClient) : Option Fd := if s.isConnected then some s.socket else none

def step (s : TcpClient) (a : Act) : Option TcpClient :=
  (s.perform p a).map fun out =>
    { out.1 with record := out.1.record.watch out.2 s.live out.1.live a.error }

def machine : Machine TcpClient Act where
  init s := ∃ running, s = new running
  step := step p

end Queue

/-- What a step does to the connection, by what the client is before it and is answered. -/
def turn (s : TcpClient) : Act → Turn
  | .init _ | .runTask => .quiet
  | .connect ans =>
      if s.socket = invalidSocket then .quiet
      else if ans.established EINPROGRESS then
        if !ans.started then if s.isConnected then .ended none else .quiet
        else if s.isConnected ∨ ans.ctl ≠ none ∨ s.reactor.running = false then .stopped
        else .began s.socket
      else if s.isConnected then .dropped
      else .quiet
  | .close => if s.isConnected then .ended none else .quiet
  | .dispatchEvent fd filter flags rs =>
      if s.isConnected ∧ s.socket = fd then ((dispatchEnd filter flags rs).map .ended).getD .quiet
      else .quiet

/-- The step takes the connection down as it should: no `Connect` of a connected client
forgets its handler, which it does in `ReInit` and when the registration is refused, and a
refused registration does not stop the queue while an `OnClose` waits there, unless the
queue runs what waits when it is stopped. -/
def TearsDown (p : WorkQueue.Policy) (s : TcpClient) (a : Act) : Prop :=
  s.turn a ≠ .dropped ∧ (s.turn a = .stopped → s.isConnected = false ∧
    (p.drains = true ∨ ∀ task ∈ s.record.queue.waiting, task.isClose = false))

/-- The reactor has a handler for a number exactly while it is the socket of a connected
client. -/
def Registered (s : TcpClient) : Prop :=
  ∀ fd, fd ∈ s.reactor.handlers ↔ s.isConnected = true ∧ s.socket = fd

structure Sound (s : TcpClient) : Prop where
  closedOnce : s.record.ClosedOnce s.socket
  connected : s.isConnected = true → s.socket ≠ invalidSocket

structure Shape (s : TcpClient) : Prop extends s.Sound where
  clientHandler : s.clientHandler = s.isConnected
  registered : s.Registered
  started : s.isConnected = true → s.record.queue.running = true

section Steps

variable {p : WorkQueue.Policy} {s s' : TcpClient} {fd : Fd} {error : Option Reason}

theorem live_connected (h : s.isConnected = true) : s.live = some s.socket := by
  simp [live, h]

theorem live_unconnected (h : s.isConnected = false) : s.live = none := by
  simp [live, h]

theorem shape_new (running : Bool) : (new running).Shape where
  closedOnce := ClientRecord.closedOnce_new
  connected h := absurd h (by simp [new])
  clientHandler := rfl
  registered fd := by simp [new]
  started h := absurd h (by simp [new])

theorem Sound.unconnected (h : s.Sound) (hsocket : s.socket = invalidSocket) :
    s.isConnected = false := by
  by_contra hconnected
  exact h.connected (by simpa using hconnected) hsocket

theorem Shape.free (h : s.Shape) (hunconnected : s.isConnected = false) :
    fd ∉ s.reactor.handlers := by
  rw [h.registered, hunconnected]
  simp

structure Over (p : WorkQueue.Policy) (s : TcpClient) (error : Option Reason) (s' : TcpClient) :
    Prop where
  sound : s'.Sound
  unconnected : s'.isConnected = false
  connections : s'.record.connections = s.record.connections
  queue : s'.record.queue = s.live.elim s.record.queue fun fd =>
    s.record.queue.enqueue p (.close fd error)
  shape : s.Shape → s'.Shape

theorem Shape.dropSocket (h : s.Shape) (hne : s.socket ≠ invalidSocket) : s.dropSocket.Shape where
  closedOnce := (ClientRecord.closeSocket_spec h.closedOnce hne).1
  connected hconnected := absurd hconnected (by simp [TcpClient.dropSocket])
  clientHandler := rfl
  registered fd := by
    simp only [TcpClient.dropSocket, Bool.false_eq_true, false_and, iff_false]
    intro hmem
    rw [h.clientHandler] at hmem
    split at hmem
    · obtain ⟨hother, hmem⟩ := EventReactor.mem_handlers_removeHandler.mp hmem
      exact hother ((h.registered fd).mp hmem).2.symm
    · rename_i hunconnected
      exact hunconnected ((h.registered fd).mp hmem).1
  started hconnected := absurd hconnected (by simp [TcpClient.dropSocket])

theorem Shape.notifyClose (h : s.Shape) : (s.notifyClose p fd error).Shape :=
  ⟨⟨h.closedOnce, h.connected⟩, h.clientHandler, h.registered, fun hconnected =>
    (WorkQueue.running_enqueue _).trans (h.started hconnected)⟩

theorem over_dropSocket (h : s.Sound) (hconnected : s.isConnected = true)
    (error : Option Reason) :
    Over p s error (s.dropSocket.notifyClose p s.socket error) := by
  have hne := h.connected hconnected
  obtain ⟨hclosed, hqueue, hconnections⟩ := ClientRecord.closeSocket_spec h.closedOnce hne
  refine ⟨⟨hclosed, nofun⟩, rfl, hconnections, ?_, fun h => (h.dropSocket hne).notifyClose⟩
  rw [live_connected hconnected]
  exact congrArg (fun q => q.enqueue p (.close s.socket error)) hqueue

theorem closeInternal_connected (h : s.Sound) (hconnected : s.isConnected = true)
    (error : Option Reason) :
    s.closeInternal p s.socket error = s.dropSocket.notifyClose p s.socket error := by
  simp [closeInternal, hconnected, h.connected hconnected]

theorem over_close (h : s.Sound) : Over p s none (s.close p) := by
  cases hconnected : s.isConnected with
  | true =>
    rw [close, closeInternal_connected h hconnected]
    exact over_dropSocket h hconnected _
  | false =>
    by_cases hsocket : s.socket = invalidSocket
    · have hclose : s.close p = s := by
        simp [close, closeInternal, hsocket]
      rw [hclose]
      refine ⟨h, hconnected, rfl, ?_, id⟩
      rw [live_unconnected hconnected]
      rfl
    · have hclose : s.close p = s.dropSocket := by
        simp [close, closeInternal, hconnected, hsocket]
      obtain ⟨hclosed, hqueue, hconnections⟩ :=
        ClientRecord.closeSocket_spec h.closedOnce hsocket
      rw [hclose]
      refine ⟨⟨hclosed, nofun⟩, rfl, hconnections, ?_, fun h => h.dropSocket hsocket⟩
      rw [live_unconnected hconnected]
      exact hqueue

theorem Over.holds (h : Over p s error s') :
    (if s.isConnected then Turn.ended error else .quiet).Holds p s.record.queue s'.record.queue
      s.live s'.live none error :=
  Turn.holds_ended (live_unconnected h.unconnected) h.queue

structure Fresh (s s' : TcpClient) : Prop where
  sound : s'.Sound
  unconnected : s'.isConnected = false
  connections : s'.record.connections = s.record.connections
  queue : s'.record.queue = s.record.queue
  shape : s.Shape → s.isConnected = false → s'.Shape

theorem fresh_init (h : s.Sound) (hsocket : s.socket = invalidSocket) {answer : InitAnswer}
    (hinit : s.init answer = some s') : Fresh s s' := by
  have hclosed := h.closedOnce
  rw [hsocket] at hclosed
  obtain ⟨out, hout, rfl⟩ := Option.map_eq_some_iff.mp hinit
  obtain ⟨hclosed', hqueue, hconnections⟩ := ClientRecord.init_spec hclosed hout
  have hsound : ({ s with isConnected := false, record := out.1, socket := out.2 } :
      TcpClient).Sound := ⟨hclosed', nofun⟩
  refine ⟨hsound, rfl, hconnections, hqueue, fun h hunconnected =>
    ⟨hsound, h.clientHandler.trans hunconnected, fun fd => ?_, nofun⟩⟩
  simpa using h.free hunconnected

theorem fresh_reInit (h : s.Sound) (hne : s.socket ≠ invalidSocket) {answer : InitAnswer}
    (hinit : s.reInit answer = some s') : Fresh s s' := by
  obtain ⟨hclosed, hqueue, hconnections⟩ := ClientRecord.closeSocket_spec h.closedOnce hne
  simp only [reInit, ne_eq, hne, not_false_eq_true, if_true] at hinit
  have hsound : ({ s with
      isConnected := false
      record := s.record.closeSocket s.socket
      socket := invalidSocket } : TcpClient).Sound := ⟨hclosed, nofun⟩
  have hfresh := fresh_init hsound rfl hinit
  refine ⟨hfresh.sound, hfresh.unconnected, hfresh.connections.trans hconnections,
    hfresh.queue.trans hqueue, fun h hunconnected => hfresh.shape ?_ rfl⟩
  refine ⟨hsound, h.clientHandler.trans hunconnected, fun fd => ?_, nofun⟩
  simpa using h.free hunconnected

def refused (p : WorkQueue.Policy) (s : TcpClient) (ans : ConnectAnswers) : TcpClient :=
  { s with
    clientHandler := false
    reactor := (s.reactor.registerHandler s.socket (getEvents false) () ans.ctl).1
    record := { s.record with queue := s.record.queue.stop p } }

theorem getEvents_reads : normalizeEventsForKqueue (getEvents false) ≠ 0 := by decide

theorem register_unstarted {ans : ConnectAnswers} (hstarted : ans.started = false) :
    s.register p ans = (s.close p, false) := by
  simp [register, hstarted, WorkQueue.start_false]

theorem registerHandler_refused (h : s.Shape) {ans : ConnectAnswers}
    (hrefused : s.isConnected = true ∨ ans.ctl ≠ none ∨ s.reactor.running = false) :
    (s.reactor.registerHandler s.socket (getEvents false) () ans.ctl).2 = false := by
  rw [← Bool.not_eq_true, EventReactor.registerHandler_snd getEvents_reads, h.registered]
  rintro ⟨hrunning, hfree, hctl⟩
  rcases hrefused with hconnected | hrefused | hrefused
  · exact hfree ⟨hconnected, rfl⟩
  · exact hrefused hctl
  · rw [hrefused] at hrunning
    cases hrunning

theorem register_refused (h : s.Shape) {ans : ConnectAnswers} (hstarted : ans.started = true)
    (hrefused : s.isConnected = true ∨ ans.ctl ≠ none ∨ s.reactor.running = false) :
    s.register p ans = ((s.refused p ans).close p, false) := by
  simp [register, hstarted, registerHandler_refused h hrefused, refused]

theorem register_registered {ans : ConnectAnswers} (hstarted : ans.started = true)
    (hfree : s.socket ∉ s.reactor.handlers) (hctl : ans.ctl = none)
    (hrunning : s.reactor.running = true) :
    s.register p ans = ({ s with
      record := { s.record with queue := s.record.queue.start true }
      clientHandler := true
      reactor := { s.reactor with
        handlers := s.reactor.handlers.insert s.socket ()
        handlerEvents := s.reactor.handlerEvents.insert s.socket
          (normalizeEventsForKqueue (getEvents false)) }
      isConnected := true }, true) := by
  simp [register, hstarted, EventReactor.registerHandler, hfree, hctl, hrunning,
    EventReactor.applyEvents_none]

theorem over_refused (h : s.Sound) (ans : ConnectAnswers) :
    Over p (s.refused p ans) none ((s.refused p ans).close p) :=
  over_close ⟨h.closedOnce, h.connected⟩

theorem holds_refused (h : s.Sound) (ans : ConnectAnswers) :
    Turn.stopped.Holds p s.record.queue ((s.refused p ans).close p).record.queue s.live
      ((s.refused p ans).close p).live none none :=
  Turn.holds_stopped (live_unconnected (over_refused h ans).unconnected) (over_refused h ans).queue

theorem shape_refused (h : s.Shape) {ans : ConnectAnswers} (hunconnected : s.isConnected = false)
    (hrefused : s.isConnected = true ∨ ans.ctl ≠ none ∨ s.reactor.running = false) :
    (s.refused p ans).Shape := by
  refine ⟨⟨h.closedOnce, h.connected⟩, hunconnected.symm, fun fd => ?_, fun hconnected =>
    absurd (hunconnected.symm.trans hconnected) (by decide)⟩
  simp only [refused, EventReactor.registerHandler_handlers (registerHandler_refused h hrefused)]
  exact h.registered fd

/-- Refused, a connected client has forgotten its handler when it closes. -/
theorem stale_refused (h : s.Shape) {ans : ConnectAnswers} (hconnected : s.isConnected = true) :
    s.socket ∈ ((s.refused p ans).close p).reactor.handlers := by
  have hclose := closeInternal_connected (p := p) (s := s.refused p ans)
    ⟨h.closedOnce, h.connected⟩ hconnected none
  rw [close, hclose]
  simp only [TcpClient.notifyClose, TcpClient.dropSocket, refused, Bool.false_eq_true, if_false,
    EventReactor.registerHandler_handlers (registerHandler_refused h (.inl hconnected))]
  exact (h.registered _).mpr ⟨hconnected, rfl⟩

structure Outcome (p : WorkQueue.Policy) (s : TcpClient) (t : Turn) (error : Option Reason)
    (out : TcpClient × Option Fd) : Prop where
  sound : out.1.Sound
  connections : out.1.record.connections = s.record.connections
  holds : t.Holds p s.record.queue out.1.record.queue s.live out.1.live out.2 error
  shape : t ≠ .dropped → (t = .stopped → s.isConnected = false) → out.1.Shape

theorem Over.outcome (h : Over p s error s') (hs : s.Shape) :
    Outcome p s (if s.isConnected then .ended error else .quiet) error (s', none) :=
  ⟨h.sound, h.connections, h.holds, fun _ _ => h.shape hs⟩

theorem outcome_register (h : s.Shape) (hne : s.socket ≠ invalidSocket) {ans : ConnectAnswers} :
    Outcome p s
      (if !ans.started then if s.isConnected then Turn.ended none else .quiet
        else if s.isConnected ∨ ans.ctl ≠ none ∨ s.reactor.running = false then .stopped
        else .began s.socket) none
      ((s.register p ans).1,
        if (s.register p ans).2 then some (s.register p ans).1.socket else none) := by
  cases hstarted : ans.started with
  | false =>
    rw [register_unstarted hstarted]
    exact (over_close h.toSound).outcome h
  | true =>
    simp only [Bool.not_true, Bool.false_eq_true, if_false]
    by_cases hrefused : s.isConnected = true ∨ ans.ctl ≠ none ∨ s.reactor.running = false
    · rw [if_pos hrefused, register_refused h hstarted hrefused]
      have hover := over_refused (p := p) h.toSound ans
      exact ⟨hover.sound, hover.connections, holds_refused h.toSound ans, fun _ hunconnected =>
        hover.shape (shape_refused h (hunconnected rfl) hrefused)⟩
    · rw [if_neg hrefused]
      simp only [not_or, Bool.not_eq_true, ne_eq, not_not, Bool.not_eq_false] at hrefused
      obtain ⟨hunconnected, hctl, hrunning⟩ := hrefused
      rw [register_registered hstarted (h.free hunconnected) hctl hrunning]
      refine ⟨⟨h.closedOnce, fun _ => hne⟩, rfl, ⟨rfl, live_unconnected hunconnected, rfl, rfl⟩,
        fun _ _ => ⟨⟨h.closedOnce, fun _ => hne⟩, rfl, fun fd => ?_, fun _ => by simp⟩⟩
      simp [AList.mem_insert, h.free hunconnected, eq_comm]

theorem handleConnectionClose_gone {reason : Option Reason} :
    (s.dropSocket.notifyClose p fd error).handleConnectionClose p fd reason =
      s.dropSocket.notifyClose p fd error := by
  rw [handleConnectionClose, closeInternal]
  exact if_pos rfl

theorem Sound.receives (h : s.Sound) {r : ClientRecord}
    (hr : ClientRecord.Receives s.record r) : ({ s with record := r } : TcpClient).Sound :=
  ⟨hr.closedOnce _ h.closedOnce, h.connected⟩

theorem handleRead_cases (h : s.Sound) (hconnected : s.isConnected = true) {reads : Bool}
    {rs : List RecvReturn}
    (hread : (if reads then s.handleReceive p s.socket rs else some s) = some s') :
    ∃ r, ClientRecord.Receives s.record r ∧
      match (if reads then recvError EAGAIN rs else none) with
      | none => s' = { s with record := r }
      | some reason => s' = ({ s with record := r } : TcpClient).dropSocket.notifyClose p s.socket
          (some reason) := by
  cases reads with
  | false =>
    cases hread
    exact ⟨s.record, .refl _, rfl⟩
  | true =>
    simp only [if_true, handleReceive, ne_eq, not_true_eq_false, if_false] at hread ⊢
    obtain ⟨⟨r, found⟩, hloop, rfl⟩ := Option.map_eq_some_iff.mp hread
    obtain ⟨rfl, hr⟩ := ClientRecord.receiveLoop_spec hloop
    refine ⟨r, hr, ?_⟩
    cases recvError EAGAIN rs with
    | none => rfl
    | some reason => exact closeInternal_connected (h.receives hr) hconnected _

theorem dispatchEvent_cases (h : s.Sound) (hconnected : s.isConnected = true) {filter : Filter}
    {flags : Nat} {rs : List RecvReturn}
    (hdispatch : s.dispatchEvent p s.socket filter flags rs = some s') :
    ∃ r, ClientRecord.Receives s.record r ∧
      match dispatchEnd filter flags rs with
      | none => s' = { s with record := r }
      | some error => Over p { s with record := r } error s' := by
  obtain ⟨mid, hread, rfl⟩ := Option.map_eq_some_iff.mp hdispatch
  unfold dispatchEnd
  cases herr : flags &&& EV_ERROR != 0 with
  | true =>
    have hskip : (flags &&& EV_ERROR == 0) = false := by simpa using herr
    simp only [herr, hskip, if_true, Bool.false_and, Bool.false_eq_true, if_false] at hread
    cases hread
    refine ⟨s.record, .refl _, ?_⟩
    have hclose : s.handleConnectionClose p s.socket (some .connectionError) =
        s.dropSocket.notifyClose p s.socket (some .connectionError) :=
      closeInternal_connected h hconnected _
    simp only [if_true, hclose, handleConnectionClose_gone, ite_self]
    exact over_dropSocket h hconnected _
  | false =>
    have hskip : (flags &&& EV_ERROR == 0) = true := by simpa using herr
    simp only [herr, hskip, Bool.true_and, Bool.false_eq_true, if_false] at hread ⊢
    obtain ⟨r, hr, hmid⟩ := handleRead_cases h hconnected hread
    refine ⟨r, hr, ?_⟩
    have hover := fun error => over_dropSocket (p := p) (h.receives hr) hconnected error
    have hclose := closeInternal_connected (p := p) (h.receives hr) hconnected none
    generalize (if filter == .read then recvError EAGAIN rs else none) = found at hmid ⊢
    cases found with
    | some reason =>
      subst hmid
      simp only [handleConnectionClose_gone, ite_self]
      exact hover (some reason)
    | none =>
      subst hmid
      cases flags &&& EV_EOF != 0 with
      | true =>
        simp only [if_true, handleConnectionClose, hclose]
        exact hover none
      | false => simp only [Bool.false_eq_true, if_false]

theorem Shape.receives (h : s.Shape) {r : ClientRecord}
    (hr : ClientRecord.Receives s.record r) : ({ s with record := r } : TcpClient).Shape :=
  ⟨h.toSound.receives hr, h.clientHandler, h.registered, fun hconnected =>
    hr.running.trans (h.started hconnected)⟩

theorem outcome_dispatch (h : s.Shape) (hconnected : s.isConnected = true) {filter : Filter}
    {flags : Nat} {rs : List RecvReturn}
    (hdispatch : s.dispatchEvent p s.socket filter flags rs = some s') :
    Outcome p s (((dispatchEnd filter flags rs).map .ended).getD .quiet)
      (dispatchEnd filter flags rs).join (s', none) := by
  obtain ⟨r, hr, hend⟩ := dispatchEvent_cases h.toSound hconnected hdispatch
  cases hhow : dispatchEnd filter flags rs with
  | none =>
    rw [hhow] at hend
    subst hend
    exact ⟨h.toSound.receives hr, hr.connections, ⟨rfl, rfl, hr.closings⟩,
      fun _ _ => h.receives hr⟩
  | some error =>
    rw [hhow] at hend
    have hholds := hend.holds
    rw [if_pos hconnected] at hholds
    exact ⟨hend.sound, hend.connections.trans hr.connections,
      Turn.holds_ended_of_receives hr.closings hr.running hholds,
      fun _ _ => hend.shape (h.receives hr)⟩

theorem outcome_reInit (h : s.Shape) (hne : s.socket ≠ invalidSocket) {answer : InitAnswer}
    (hreInit : s.reInit answer = some s') :
    Outcome p s (if s.isConnected then .dropped else .quiet) none (s', none) := by
  have hfresh := fresh_reInit h.toSound hne hreInit
  have hlive := live_unconnected hfresh.unconnected
  have hcalls := congrArg (fun q => closings q.handed) hfresh.queue
  refine ⟨hfresh.sound, hfresh.connections, ?_, fun hkept _ => hfresh.shape h ?_⟩
  · cases hconnected : s.isConnected with
    | true => exact ⟨rfl, hlive, by simp [live_connected hconnected], hcalls⟩
    | false => exact ⟨rfl, hlive.trans (live_unconnected hconnected).symm, hcalls⟩
  · by_contra hconnected
    exact hkept (if_pos (by simpa using hconnected))

theorem perform_spec (h : s.Shape) {a : Act} {out : TcpClient × Option Fd}
    (hperform : s.perform p a = some out) : Outcome p s (s.turn a) a.error out := by
  have hsame : ∀ error, Outcome p s .quiet error (s, none) := fun _ =>
    ⟨h.toSound, rfl, ⟨rfl, rfl, rfl⟩, fun _ _ => h⟩
  cases a with
  | init answer =>
    simp only [perform] at hperform
    split at hperform
    · rename_i hsocket
      obtain ⟨s', hinit, rfl⟩ := Option.map_eq_some_iff.mp hperform
      have hfresh := fresh_init h.toSound hsocket hinit
      have hunconnected := h.unconnected hsocket
      have hlive := (live_unconnected hfresh.unconnected).trans (live_unconnected hunconnected).symm
      exact ⟨hfresh.sound, hfresh.connections,
        ⟨rfl, hlive, congrArg (closings ·.handed) hfresh.queue⟩,
        fun _ _ => hfresh.shape h hunconnected⟩
    · cases hperform
  | connect ans =>
    obtain ⟨out, hconnect, rfl⟩ := Option.map_eq_some_iff.mp hperform
    simp only [connect, ConnectAnswers.attempt_eq] at hconnect
    simp only [turn, Act.error]
    split at hconnect
    · rename_i hsocket
      cases hconnect
      rw [if_pos hsocket]
      exact hsame none
    · rename_i hsocket
      rw [if_neg hsocket]
      split at hconnect
      · rename_i hestablished
        cases hconnect
        rw [if_pos hestablished]
        exact outcome_register h hsocket
      · rename_i hestablished
        obtain ⟨s', hreInit, rfl⟩ := Option.map_eq_some_iff.mp hconnect
        rw [if_neg hestablished]
        exact outcome_reInit h hsocket hreInit
  | close =>
    cases hperform
    exact (over_close h.toSound).outcome h
  | dispatchEvent fd filter flags rs =>
    simp only [perform] at hperform
    simp only [turn, Act.error]
    split at hperform
    · rename_i hlookup
      cases hperform
      rw [AList.lookup_eq_none] at hlookup
      rw [if_neg fun hthis => hlookup ((h.registered fd).mpr hthis)]
      exact hsame _
    · rename_i hlookup
      obtain ⟨s', hdispatch, rfl⟩ := Option.map_eq_some_iff.mp hperform
      have hmem : fd ∈ s.reactor.handlers := AList.lookup_isSome.mp (by rw [hlookup]; rfl)
      obtain ⟨hconnected, rfl⟩ := (h.registered fd).mp hmem
      rw [if_pos ⟨hconnected, rfl⟩]
      exact outcome_dispatch h hconnected hdispatch
  | runTask =>
    obtain ⟨q, hwork, rfl⟩ := Option.map_eq_some_iff.mp hperform
    exact ⟨⟨h.closedOnce, h.connected⟩, rfl,
      ⟨rfl, rfl, congrArg closings (WorkQueue.handed_work hwork)⟩,
      fun _ _ => ⟨⟨h.closedOnce, h.connected⟩, h.clientHandler, h.registered,
        fun _ => WorkQueue.running_work hwork⟩⟩

structure LifeCycle (s : TcpClient) : Prop where
  registered : s.Registered
  matched : s.record.Matched

structure Inv (s : TcpClient) : Prop where
  shape : s.Shape
  live : s.record.Live s.live

theorem inv_new (running : Bool) : (new running).Inv := ⟨shape_new running, ClientRecord.live_new⟩

theorem turn_stopped {a : Act} (h : s.turn a = .stopped) : ∃ ans, a = .connect ans ∧
    s.socket ≠ invalidSocket ∧ ans.established EINPROGRESS = true ∧ ans.started = true := by
  cases a with
  | init answer => cases h
  | connect ans =>
    simp only [turn] at h
    refine ⟨ans, rfl, ?_⟩
    split_ifs at h
    simp_all
  | close =>
    simp only [turn] at h
    split_ifs at h
  | dispatchEvent fd filter flags rs =>
    simp only [turn] at h
    split_ifs at h
    cases hend : dispatchEnd filter flags rs <;> simp [hend] at h
  | runTask => cases h

theorem stale_of_stopped (h : s.Shape) {a : Act} {out : TcpClient × Option Fd}
    (hperform : s.perform p a = some out) (hturn : s.turn a = .stopped)
    (hconnected : s.isConnected = true) : ¬ out.1.Registered := by
  obtain ⟨ans, rfl, hsocket, hestablished, hstarted⟩ := turn_stopped hturn
  obtain ⟨out, hconnect, rfl⟩ := Option.map_eq_some_iff.mp hperform
  simp only [connect, ConnectAnswers.attempt_eq, if_neg hsocket, if_pos hestablished] at hconnect
  cases hconnect
  rw [register_refused h hstarted (.inl hconnected)]
  intro hregistered
  have hover := over_refused (p := p) h.toSound ans
  have hstale := ((hregistered _).mp (stale_refused h hconnected)).1
  rw [hover.unconnected] at hstale
  cases hstale

/-- The queue of a connected client takes what it is told, so only a stop or a `ReInit` can
keep something from the listener. -/
theorem delivers_iff (h : s.Shape) {t : Turn}
    (hended : ∀ reason, t = .ended reason → s.isConnected = true)
    (hstopped : t = .stopped → s.isConnected = false) :
    t.Delivers p s.record s.live ↔ t ≠ .dropped ∧ (t = .stopped →
      p.drains = true ∨ ∀ task ∈ s.record.queue.waiting, task.isClose = false) := by
  cases t with
  | quiet => simp [Turn.Delivers]
  | began fd => simp [Turn.Delivers]
  | ended reason => simp [Turn.Delivers, WorkQueue.takes, h.started (hended reason rfl)]
  | stopped => simp [Turn.Delivers, live_unconnected (hstopped rfl)]
  | dropped => simp [Turn.Delivers]

/-- A step takes its connection down as it should if and only if it leaves the table and the
callbacks as they should be. -/
theorem step_spec {a : Act} (h : s.Inv) (hmatched : s.record.Matched)
    (hstep : s.step p a = some s') :
    (s.TearsDown p a → s'.Inv) ∧ (s'.LifeCycle ↔ s.TearsDown p a) := by
  obtain ⟨out, hperform, rfl⟩ := Option.map_eq_some_iff.mp hstep
  have houtcome := perform_spec h.shape hperform
  have hmatches := Turn.matched_watch h.live houtcome.connections hmatched houtcome.holds
  have hended : ∀ reason, s.turn a = .ended reason → s.isConnected = true := by
    intro reason hturn
    have hholds := houtcome.holds
    rw [hturn] at hholds
    obtain ⟨-, -, -, fd, hlive, -⟩ := hholds
    by_contra hconnected
    rw [live_unconnected (by simpa using hconnected)] at hlive
    cases hlive
  have hshape : s.TearsDown p a → out.1.Shape := fun hdown =>
    houtcome.shape hdown.1 fun hturn => (hdown.2 hturn).1
  refine ⟨fun hdown => ⟨⟨⟨?_, houtcome.sound.connected⟩, (hshape hdown).clientHandler,
    (hshape hdown).registered, ?_⟩, Turn.live_watch h.live houtcome.connections houtcome.holds⟩,
    fun hlife => ?_, fun hdown => ⟨(hshape hdown).registered, hmatches.mpr ?_⟩⟩
  · exact ClientRecord.closedOnce_watch.mpr houtcome.sound.closedOnce
  · rw [ClientRecord.watch_queue]
    exact (hshape hdown).started
  · have hstopped : s.turn a = .stopped → s.isConnected = false := by
      intro hturn
      by_contra hconnected
      exact stale_of_stopped h.shape hperform hturn (by simpa using hconnected) hlife.registered
    have hdelivers := (delivers_iff h.shape hended hstopped).mp (hmatches.mp hlife.matched)
    exact ⟨hdelivers.1, fun hturn => ⟨hstopped hturn, hdelivers.2 hturn⟩⟩
  · exact (delivers_iff h.shape hended fun hturn => (hdown.2 hturn).1).mpr
      ⟨hdown.1, fun hturn => (hdown.2 hturn).2⟩

end Steps

/-- In every run of a client, whatever its calls and dispatches are answered, the reactor
has a handler of it exactly while it is connected, and each connection is told of as it
ends, if and only if every step tears its connection down: no `Connect` of a connected
client fails in `ReInit` or at the registration, and no `OnClose` is lost in a queue that
is stopped. -/
theorem lifeCycle_iff_tearsDown (p : WorkQueue.Policy) (running : Bool) (as : List Act) :
    (machine p).Every (fun _ _ t => t.LifeCycle) (new running) as ↔
      (machine p).Every (fun s a _ => s.TearsDown p a) (new running) as := by
  refine (machine p).every_iff_every (I := fun s => s.Inv ∧ s.record.Matched)
    (fun s a s' ⟨hinv, hmatched⟩ hstep hdown => ?_)
    (fun s a s' ⟨hinv, hmatched⟩ hstep hlife => ?_) ⟨inv_new running, ClientRecord.matched_new⟩
  · obtain ⟨hinv', hiff⟩ := step_spec hinv hmatched hstep
    have hlife := hiff.mpr hdown
    exact ⟨⟨hinv' hdown, hlife.matched⟩, hlife⟩
  · exact (step_spec hinv hmatched hstep).2.mp hlife

def EISCONN : Int := 56

/-- `ReInit` gets the number of the socket that it has closed. -/
def connectAnswers (connect : Option Int) : ConnectAnswers where
  validAddress := true
  connect := connect
  selected := true
  socketError := some 0
  reInit := .ready 3
  started := true
  ctl := none

/-- A connected client is connected once more, with a queue that loses nothing. -/
theorem connectTwice_stale :
    ¬ (machine ⟨true, true⟩).Every (fun _ _ t => t.LifeCycle) (new true)
      [.init (.ready 3), .connect (connectAnswers (some EINPROGRESS)),
        .connect (connectAnswers (some EISCONN))] := by
  intro h
  obtain ⟨-, h⟩ := h _ rfl
  obtain ⟨-, h⟩ := h _ rfl
  obtain ⟨hlife, -⟩ := h _ rfl
  exact absurd hlife.matched (by decide)

end TcpClient

end Lmnet.Darwin
