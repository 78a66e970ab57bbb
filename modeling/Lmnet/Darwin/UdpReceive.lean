import Lmnet.Darwin.TcpClient
import Lmnet.Epoll.UdpReceive
import Lmnet.Reactor.HandleAccept

/-!
The socket of a kqueue `UdpServerImpl`: datagrams that arrive, the read event the kernel
reports for them, and the `HandleReceive` that the event leads to.
-/

set_option autoImplicit false

namespace Lmnet.Darwin

open Lmnet.Epoll (Datagram RECV_BUFFER_MAX_SIZE EventType)
open Lmnet.Reactor (filterFlags EV_CLEAR)

def udpServerEvents : Nat := EventType.read.bit ||| EventType.error.bit ||| EventType.close.bit

/-- `queue` is what the kernel holds for the socket, and `eventPending` that `kevent` has an event
of it still to report. `reported` are the flags of the one that the reactor has taken and not
dispatched, and `arrived` is everything that ever came. -/
structure UdpServer where
  queue : List Datagram
  eventPending : Bool
  reported : Option Nat
  arrived : List Datagram
  delivered : List Datagram
  log : List String

/-- `answer` is the `errno` of a `recvfrom` that fails. -/
inductive UdpServerAct where
  | arrive (d : Datagram)
  | kevent (flags : Nat)
  | dispatchEvent (flags : Nat) (answer : Option Int)
  deriving DecidableEq, Repr

def UdpServerAct.failed : UdpServerAct → Bool
  | .arrive _ | .kevent _ => false
  | .dispatchEvent flags answer => flags &&& EV_ERROR != 0 || answer.any (· != EAGAIN)

namespace UdpServer

def started (queue : List Datagram) : UdpServer where
  queue := queue
  eventPending := !queue.isEmpty
  reported := none
  arrived := queue
  delivered := []
  log := []

/-- One `recvfrom`, which would block just when nothing has arrived. -/
def handleReceive (s : UdpServer) (answer : Option Int) : Option UdpServer :=
  match s.queue, answer with
  | [], none => none
  | d :: rest, none =>
      let stored := d.stored RECV_BUFFER_MAX_SIZE
      if 0 < stored.bytes.length then
        some { s with queue := rest, delivered := s.delivered ++ [stored] }
      else some { s with queue := rest, log := s.log ++ ["UDP peer closed connection"] }
  | queue, some errno =>
      if errno ≠ EAGAIN then some { s with log := s.log ++ ["recvfrom failed"] }
      else if queue = [] then some s
      else none

/-- `HandleError` and `HandleClose` of the handler only log. -/
def handle (s : UdpServer) (flags : Nat) (answer : Option Int) : Option UdpServer :=
  let s := if flags &&& EV_ERROR ≠ 0 then
    { s with log := s.log ++ ["UDP server connection error on fd"] } else s
  (if flags &&& EV_ERROR = 0 then s.handleReceive answer else some s).map fun s =>
    if flags &&& EV_EOF ≠ 0 then
      { s with log := s.log ++ ["UDP server connection close on fd"] }
    else s

/-- `kevent` returns the event. A filter that `ApplyEvents` has added forgets it then. -/
def kevent (s : UdpServer) (flags : Nat) : Option UdpServer :=
  if s.eventPending ∧ s.reported = none then
    some { s with
      eventPending := filterFlags &&& EV_CLEAR == 0 && !s.queue.isEmpty
      reported := some flags }
  else none

def dispatchEvent (s : UdpServer) (flags : Nat) (answer : Option Int) : Option UdpServer :=
  if s.reported = some flags then
    (s.handle flags answer).map fun s => { s with reported := none }
  else none

def step (s : UdpServer) : UdpServerAct → Option UdpServer
  | .arrive d =>
      some { s with queue := s.queue ++ [d], arrived := s.arrived ++ [d], eventPending := true }
  | .kevent flags => s.kevent flags
  | .dispatchEvent flags answer => s.dispatchEvent flags answer

def machine : Machine UdpServer UdpServerAct where
  init s := ∃ queue, s = started queue
  step := step

/-- A `HandleReceive` that returns without a socket error leaves nothing in the queue. -/
def Drains : UdpServer → UdpServerAct → UdpServer → Prop
  | _, .arrive _, _ | _, .kevent _, _ => True
  | _, a, s' => a.failed = false → s'.queue = []

/-- It finds no more than one datagram there. -/
def AtMostOne : UdpServer → UdpServerAct → UdpServer → Prop
  | _, .arrive _, _ | _, .kevent _, _ => True
  | s, a, _ => a.failed = false → s.queue.length ≤ 1

def heard (ds : List Datagram) : List Datagram :=
  (ds.filter fun d => !d.bytes.isEmpty).map (·.stored RECV_BUFFER_MAX_SIZE)

/-- When no event is outstanding, everything that has arrived has been delivered. -/
def Heard (s : UdpServer) : Prop :=
  s.eventPending = false → s.reported = none → s.delivered = heard s.arrived

/-- The filter of the socket reads, and its event is reported once. -/
theorem reported_once : normalizeEventsForKqueue udpServerEvents = EventType.read.bit ∧
    (filterFlags &&& EV_CLEAR == 0) = false := by
  decide

theorem heard_append (ds es : List Datagram) : heard (ds ++ es) = heard ds ++ heard es := by
  simp [heard]

theorem heard_cons (d : Datagram) (ds : List Datagram) :
    heard (d :: ds) = (if 0 < (d.stored RECV_BUFFER_MAX_SIZE).bytes.length then
      [d.stored RECV_BUFFER_MAX_SIZE] else []) ++ heard ds := by
  have hlength : 0 < (d.stored RECV_BUFFER_MAX_SIZE).bytes.length ↔ d.bytes ≠ [] := by
    have hpos := List.length_pos_iff (l := d.bytes)
    simp only [Datagram.stored, List.length_take, RECV_BUFFER_MAX_SIZE, ← hpos]
    omega
  by_cases hdata : d.bytes = []
  · simp [heard, hlength, hdata]
  · simp [heard, hlength, hdata]

/-- One call takes one datagram, unless it fails, and passes it on if it has data. -/
theorem handleReceive_spec {s s' : UdpServer} {answer : Option Int}
    (h : s.handleReceive answer = some s') :
    s'.arrived = s.arrived ∧ s'.queue = (if answer = none then s.queue.tail else s.queue) ∧
      (answer = some EAGAIN → s.queue = []) ∧
      s'.delivered ++ heard s'.queue = s.delivered ++ heard s.queue := by
  unfold handleReceive at h
  split at h
  · cases h
  · rename_i d rest hqueue
    rw [hqueue, heard_cons]
    simp only at h
    split at h
    · cases h
      simp [*]
    · cases h
      simp [*]
  · rename_i queue errno hqueue
    split at h
    · rename_i herrno
      cases h
      exact ⟨rfl, by simp, fun heq => absurd (Option.some.inj heq) herrno, rfl⟩
    · split at h
      · rename_i hempty
        cases h
        exact ⟨rfl, by simp, fun _ => hempty, rfl⟩
      · cases h

theorem kevent_spec {s s' : UdpServer} {flags : Nat} (h : s.kevent flags = some s') :
    s' = { s with eventPending := false, reported := some flags } := by
  unfold kevent at h
  split at h
  · cases h
    simp [reported_once.2]
  · cases h

theorem dispatchEvent_spec {s s' : UdpServer} {flags : Nat} {answer : Option Int}
    (h : s.dispatchEvent flags answer = some s') :
    s'.arrived = s.arrived ∧
      s'.delivered ++ heard s'.queue = s.delivered ++ heard s.queue ∧
      ((UdpServerAct.dispatchEvent flags answer).failed = false →
        s'.queue = s.queue.tail) := by
  unfold dispatchEvent at h
  split at h
  · obtain ⟨t, hhandle, rfl⟩ := Option.map_eq_some_iff.mp h
    unfold handle at hhandle
    obtain ⟨u, hreceive, rfl⟩ := Option.map_eq_some_iff.mp hhandle
    have hclose : ∀ v : UdpServer, (if flags &&& EV_EOF ≠ 0 then
        { v with log := v.log ++ ["UDP server connection close on fd"] } else v) =
        { v with log := (if flags &&& EV_EOF ≠ 0 then
          v.log ++ ["UDP server connection close on fd"] else v.log) } := by
      intro v
      split <;> rfl
    rw [hclose]
    by_cases herror : flags &&& EV_ERROR = 0
    · simp only [herror, ne_eq, not_true_eq_false, if_false, if_true] at hreceive
      obtain ⟨harrived, hqueue, hempty, hdelivered⟩ := handleReceive_spec hreceive
      refine ⟨harrived, hdelivered, fun hfine => ?_⟩
      rw [hqueue]
      cases answer with
      | none => rfl
      | some errno =>
        have herrno : errno = EAGAIN := by
          simpa [UdpServerAct.failed, herror] using hfine
        rw [hempty (by rw [herrno])]
        rfl
    · simp only [herror, ne_eq, not_false_eq_true, if_true, if_false] at hreceive
      cases hreceive
      exact ⟨rfl, rfl, fun hfine => absurd hfine (by simp [UdpServerAct.failed, herror])⟩
  · cases h

theorem drains_iff {s s' : UdpServer} {a : UdpServerAct} (h : s.step a = some s') :
    Drains s a s' ↔ AtMostOne s a s' := by
  cases a with
  | arrive d => exact Iff.rfl
  | kevent flags => exact Iff.rfl
  | dispatchEvent flags answer =>
    obtain ⟨-, -, hqueue⟩ := dispatchEvent_spec h
    refine forall_congr' fun hfine => ?_
    rw [hqueue hfine]
    cases s.queue with
    | nil => simp
    | cons d ds => simp

def Conserves (s : UdpServer) : Prop := s.delivered ++ heard s.queue = heard s.arrived

def Reported (s : UdpServer) : Prop :=
  s.queue ≠ [] → s.eventPending = true ∨ s.reported.isSome = true

theorem conserves_step {s s' : UdpServer} {a : UdpServerAct} (hs : s.Conserves)
    (h : s.step a = some s') : s'.Conserves := by
  cases a with
  | arrive d =>
    cases h
    simp only [Conserves, heard_append, ← List.append_assoc]
    rw [hs]
  | kevent flags =>
    rw [kevent_spec h]
    exact hs
  | dispatchEvent flags answer =>
    obtain ⟨harrived, hdelivered, -⟩ := dispatchEvent_spec h
    unfold Conserves
    rw [hdelivered, harrived]
    exact hs

theorem reported_step {s s' : UdpServer} {a : UdpServerAct} (h : s.step a = some s')
    (hfine : a.failed = false) (hone : AtMostOne s a s') : s'.Reported := by
  cases a with
  | arrive d =>
    cases h
    exact fun _ => .inl rfl
  | kevent flags =>
    rw [kevent_spec h]
    exact fun _ => .inr rfl
  | dispatchEvent flags answer => exact fun hne => absurd ((drains_iff h).mpr hone hfine) hne

/-- Along every run `HandleReceive` drains the queue exactly when it never finds more than
one datagram there; and as long as that is so, and no call fails, every datagram with data
has been delivered, in order, whenever no event is outstanding. -/
theorem drains_iff_atMostOneQueued (queue : List Datagram) {as : List UdpServerAct}
    {t : UdpServer} (h : machine.run (started queue) as = some t) :
    (machine.Every Drains (started queue) as ↔ machine.Every AtMostOne (started queue) as) ∧
      ((∀ a ∈ as, a.failed = false) → machine.Every AtMostOne (started queue) as → t.Heard) := by
  refine ⟨?_, fun hfine hone => ?_⟩
  · exact machine.every_iff_every (I := fun _ => True)
      (fun s a s' _ hs hone => ⟨trivial, (drains_iff hs).mpr hone⟩)
      (fun s a s' _ hs hd => (drains_iff hs).mp hd) trivial
  · have hstart : (started queue).Conserves ∧ (started queue).Reported :=
      ⟨by simp [Conserves, started], fun hne => .inl (by simpa [started] using hne)⟩
    have ht : t.Conserves ∧ t.Reported :=
      machine.run_invariant_of_every (I := fun s => s.Conserves ∧ s.Reported)
        (fun s a s' hs ha hc => ⟨conserves_step hs.1 ha, reported_step ha hc.1 hc.2⟩)
        hstart (machine.every_and hfine hone) h
    intro hnone hreported
    have hempty : t.queue = [] := by
      by_contra hne
      simpa [hnone, hreported] using ht.2 hne
    simpa [Conserves, hempty, heard] using ht.1

def oneAtATime : List UdpServerAct :=
  [.arrive ⟨1, 9, [7]⟩, .kevent 0, .dispatchEvent 0 none, .arrive ⟨1, 9, []⟩, .kevent 0,
    .dispatchEvent 0 none]

theorem drains_iff_atMostOneQueued_oneAtATime :
    ∃ t, machine.run (started []) oneAtATime = some t ∧
      (machine.Every Drains (started []) oneAtATime ↔
        machine.Every AtMostOne (started []) oneAtATime) := by
  have hrun : machine.run (started []) oneAtATime = some _ := rfl
  exact ⟨_, hrun, (drains_iff_atMostOneQueued [] hrun).1⟩

/-- The second datagram comes before the event of the first is reported. -/
theorem twoDatagrams_not_drained :
    ¬ ∀ (queue : List Datagram) (as : List UdpServerAct) (t : UdpServer),
      machine.run (started queue) as = some t → machine.Every Drains (started queue) as := by
  intro h
  have hdrains := h [] [.arrive ⟨1, 9, [7]⟩, .arrive ⟨1, 9, [8]⟩, .kevent 0,
    .dispatchEvent 0 none] _ rfl
  have hlast : Drains _ (.dispatchEvent 0 none) _ :=
    ((((hdrains _ rfl).2 _ rfl).2 _ rfl).2 _ rfl).1
  exact absurd (hlast rfl) (by decide)

end UdpServer

end Lmnet.Darwin
