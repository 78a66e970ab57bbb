import Lmnet.Epoll.EventReactor
import Lmnet.Lib.Machine
import Lmnet.Lib.Lists

/-!
`EventReactor::Run` works through a batch of events that are known by number only, while
numbers are closed, opened and registered around it. Which handler an event reaches.
-/

set_option autoImplicit false

namespace Lmnet.Epoll

def EPOLL_WAIT_EVENT_NUMS_MAX : Nat := 1024

/-- A `RegisterHandler` that succeeded, and the socket that had the number then. A
registration is known by its place in the order of all of them, which also stands for
its handler. -/
structure Registration where
  fd : Fd
  socket : Nat
  deriving DecidableEq, Repr

/-- An entry of `readyEvents`. `registration` is the one that put the number on the
interest list, `none` for that of the wake-up descriptor; the code does not see it. -/
structure ReadyEvent where
  fd : Fd
  events : Nat
  registration : Option Nat
  deriving DecidableEq, Repr

/-- Where `Run` is: at the test of its loop, in `epoll_wait`, or with entries of the
batch still to look up. -/
inductive ReactorThread where
  | loop
  | waiting
  | batch (readyEvents : List ReadyEvent)
  | exited
  deriving DecidableEq, Repr

/-- `sockets` says which socket has an open number, `armed` which registration made the
entry of the interest list. `dispatched` has each call of `DispatchEvent` with its handler. -/
structure ReactorRun where
  reactor : EventReactor Nat
  wakeupFd : Fd
  sockets : FdMap Nat
  opened : Nat
  registrations : List Registration
  armed : FdMap Nat
  thread : ReactorThread
  dispatched : List (ReadyEvent × Nat)

inductive ReactorAct where
  | openSocket (fd : Fd)
  | close (fd : Fd)
  | registerHandler (fd : Fd) (events : Nat) (ctl : Option Int)
  | modifyHandler (fd : Fd) (events : Nat) (ctl : Option Int)
  | removeHandler (fd : Fd) (ctl : Option Int)
  | testRunning
  | epollWait (ready : List (Fd × Nat))
  | epollWaitFails
  | lookUp
  | stop
  deriving DecidableEq, Repr

namespace ReactorRun

/-- `Run` has told the constructor that it started; `wakeupFd_` is -1 if it has none. -/
def started (wakeupFd : Fd) : ReactorRun where
  reactor := ⟨true, ∅, if wakeupFd = invalidSocket then ∅ else AList.insert wakeupFd EPOLLIN ∅⟩
  wakeupFd := wakeupFd
  sockets := ∅
  opened := 0
  registrations := []
  armed := ∅
  thread := .loop
  dispatched := []

def pending (s : ReactorRun) : List ReadyEvent :=
  match s.thread with
  | .batch readyEvents => readyEvents
  | _ => []

/-- The kernel hands out any number that is not in use. -/
def openSocket (s : ReactorRun) (fd : Fd) : Option ReactorRun :=
  if fd < 0 ∨ fd = s.wakeupFd ∨ fd ∈ s.sockets then none
  else some { s with sockets := s.sockets.insert fd s.opened, opened := s.opened + 1 }

def close (s : ReactorRun) (fd : Fd) : Option ReactorRun :=
  if fd ∈ s.sockets then
    some { s with
      sockets := s.sockets.erase fd
      reactor := s.reactor.onClose fd
      armed := s.armed.erase fd }
  else none

/-- `EPOLL_CTL_ADD` succeeds only for an open number that is not on the list. -/
def registerHandler (s : ReactorRun) (fd : Fd) (events : Nat) (ctl : Option Int) :
    Option ReactorRun :=
  match s.reactor.registerHandler fd events s.registrations.length ctl with
  | (_, false) => some s
  | (r, true) =>
      match s.sockets.lookup fd with
      | none => none
      | some socket =>
          if fd ∈ s.reactor.interest then none
          else
            some { s with
              reactor := r
              registrations := s.registrations ++ [⟨fd, socket⟩]
              armed := s.armed.insert fd s.registrations.length }

def modifyHandler (s : ReactorRun) (fd : Fd) (events : Nat) (ctl : Option Int) :
    Option ReactorRun :=
  match s.reactor.modifyHandler fd events ctl with
  | (_, false) => some s
  | (r, true) => if fd ∈ s.reactor.interest then some { s with reactor := r } else none

/-- `EPOLL_CTL_DEL` succeeds for a number on the list, and finds none it is not on. -/
def removeHandler (s : ReactorRun) (fd : Fd) (ctl : Option Int) : Option ReactorRun :=
  if (ctl = none ∧ fd ∉ s.reactor.interest) ∨
      ((ctl = some ENOENT ∨ ctl = some EBADF) ∧ fd ∈ s.reactor.interest) then none
  else
    some { s with
      reactor := (s.reactor.removeHandler fd ctl).1
      armed := if fd ∈ (s.reactor.removeHandler fd ctl).1.interest then s.armed
        else s.armed.erase fd }

def testRunning (s : ReactorRun) : Option ReactorRun :=
  match s.thread with
  | .loop => some { s with thread := if s.reactor.running then .waiting else .exited }
  | _ => none

/-- No event stands for the time-out and for `EINTR`. -/
def epollWait (s : ReactorRun) (ready : List (Fd × Nat)) : Option ReactorRun :=
  match s.thread with
  | .waiting =>
      if ready.length ≤ EPOLL_WAIT_EVENT_NUMS_MAX ∧ (ready.map Prod.fst).Nodup ∧
          ∀ e ∈ ready, e.1 ∈ s.reactor.interest then
        some { s with thread := .batch (ready.map fun e => ⟨e.1, e.2, s.armed.lookup e.1⟩) }
      else none
  | _ => none

def epollWaitFails (s : ReactorRun) : Option ReactorRun :=
  match s.thread with
  | .waiting => some { s with thread := .exited }
  | _ => none

/-- One round of the loop over `readyEvents`, up to the copy of the handler; after the
last one the thread is back at the test of `running_`. -/
def lookUp (s : ReactorRun) : Option ReactorRun :=
  match s.thread with
  | .batch [] => some { s with thread := .loop }
  | .batch (event :: readyEvents) =>
      let s := { s with thread := .batch readyEvents }
      if s.wakeupFd ≠ invalidSocket ∧ event.fd = s.wakeupFd then some s
      else
        match s.reactor.handlers.lookup event.fd with
        | none => some s
        | some handler => some { s with dispatched := s.dispatched ++ [(event, handler)] }
  | _ => none

def step (s : ReactorRun) : ReactorAct → Option ReactorRun
  | .openSocket fd => s.openSocket fd
  | .close fd => s.close fd
  | .registerHandler fd events ctl => s.registerHandler fd events ctl
  | .modifyHandler fd events ctl => s.modifyHandler fd events ctl
  | .removeHandler fd ctl => s.removeHandler fd ctl
  | .testRunning => s.testRunning
  | .epollWait ready => s.epollWait ready
  | .epollWaitFails => s.epollWaitFails
  | .lookUp => s.lookUp
  | .stop => some { s with reactor := { s.reactor with running := false } }

def machine : Machine ReactorRun ReactorAct where
  init s := ∃ wakeupFd, s = started wakeupFd
  step := step

/-- The event was collected for a registration, and the handler is that of a later one of
the same number, which by then another socket had. -/
def Stale (s : ReactorRun) (event : ReadyEvent) (handler : Nat) : Prop :=
  ∃ r earlier later, event.registration = some r ∧ r < handler ∧
    s.registrations[r]? = some earlier ∧ s.registrations[handler]? = some later ∧
    earlier.fd = later.fd ∧ earlier.socket ≠ later.socket

def NeverStale (s : ReactorRun) : Prop := ∀ d ∈ s.dispatched, ¬ s.Stale d.1 d.2

def NoneWaiting (s : ReactorRun) (fd : Fd) : Prop :=
  ∀ event ∈ s.pending, event.fd = fd → ∀ r registration, event.registration = some r →
    s.registrations[r]? = some registration → s.sockets.lookup fd = some registration.socket

/-- A `RegisterHandler` that succeeds finds no event waiting under its number for a socket
that has been closed. -/
def RegistersClean (s : ReactorRun) : ReactorAct → Prop
  | .registerHandler fd events ctl =>
      (s.reactor.registerHandler fd events s.registrations.length ctl).2 = true →
        s.NoneWaiting fd
  | _ => True

/-- What the tables, the interest list and the batch say about the registrations,
whatever the order of steps. -/
structure BatchInv (s : ReactorRun) : Prop where
  wakeup : s.wakeupFd ∉ s.sockets
  handlers : ∀ fd h, s.reactor.handlers.lookup fd = some h →
    ∃ later, s.registrations[h]? = some later ∧ later.fd = fd
  armed : ∀ fd r, s.armed.lookup fd = some r → fd ∈ s.reactor.interest ∧
    (∃ registration, s.registrations[r]? = some registration ∧ registration.fd = fd ∧
      s.sockets.lookup fd = some registration.socket) ∧
    ∀ h, s.reactor.handlers.lookup fd = some h → h = r
  waiting : ∀ event ∈ s.pending, ∀ r, event.registration = some r →
    ∃ registration, s.registrations[r]? = some registration ∧ registration.fd = event.fd
  dispatched : ∀ d ∈ s.dispatched, d.2 < s.registrations.length

structure Fresh (s : ReactorRun) : Prop where
  never : s.NeverStale
  waiting : ∀ event ∈ s.pending, ∀ h, s.reactor.handlers.lookup event.fd = some h →
    ¬ s.Stale event h

theorem batchInv_started (wakeupFd : Fd) : (started wakeupFd).BatchInv :=
  ⟨by simp [started], by simp [started], by simp [started], by simp [started, pending],
    by simp [started]⟩

theorem fresh_started (wakeupFd : Fd) : (started wakeupFd).Fresh :=
  ⟨by simp [started, NeverStale], by simp [started, pending]⟩

theorem stale_concat {s s' : ReactorRun} {registration : Registration} {event : ReadyEvent}
    {h : Nat} (hs : s'.registrations = s.registrations ++ [registration])
    (hlt : h < s.registrations.length) : s'.Stale event h ↔ s.Stale event h := by
  unfold Stale
  rw [hs]
  constructor
  · rintro ⟨r, a, b, hr, hlt', ha, hb, hne⟩
    rw [List.getElem?_append_left (by omega)] at ha
    rw [List.getElem?_append_left hlt] at hb
    exact ⟨r, a, b, hr, hlt', ha, hb, hne⟩
  · rintro ⟨r, a, b, hr, hlt', ha, hb, hne⟩
    refine ⟨r, a, b, hr, hlt', ?_, ?_, hne⟩
    · rwa [List.getElem?_append_left (by omega)]
    · rwa [List.getElem?_append_left hlt]

theorem registerHandler_cases {s s' : ReactorRun} {fd : Fd} {events : Nat} {ctl : Option Int}
    (h : s.registerHandler fd events ctl = some s') :
    ((s.reactor.registerHandler fd events s.registrations.length ctl).2 = false ∧ s' = s) ∨
    ((s.reactor.registerHandler fd events s.registrations.length ctl).2 = true ∧
      ∃ socket, fd ∉ s.reactor.handlers ∧ fd ∉ s.reactor.interest ∧
      s.sockets.lookup fd = some socket ∧
      s' = { s with
        reactor := { s.reactor with
          handlers := s.reactor.handlers.insert fd s.registrations.length
          interest := s.reactor.interest.insert fd (epollEvents events) }
        registrations := s.registrations ++ [⟨fd, socket⟩]
        armed := s.armed.insert fd s.registrations.length }) := by
  unfold registerHandler at h
  split at h
  · rename_i hreg
    cases h
    exact .inl ⟨by rw [hreg], rfl⟩
  · rename_i r hreg
    obtain ⟨hnew, rfl⟩ := EventReactor.registerHandler_eq_true hreg
    split at h
    · cases h
    · rename_i socket hsocket
      split at h
      · cases h
      · cases h
        exact .inr ⟨by rw [hreg], socket, hnew, ‹_›, hsocket, rfl⟩

structure Drops (s s' : ReactorRun) : Prop where
  registrations : s'.registrations = s.registrations
  dispatched : s'.dispatched = s.dispatched
  pending : ∀ event ∈ s'.pending, event ∈ s.pending
  handlers : ∀ fd h, s'.reactor.handlers.lookup fd = some h →
    s.reactor.handlers.lookup fd = some h
  wakeup : s'.wakeupFd ∉ s'.sockets
  armed : ∀ fd r, s'.armed.lookup fd = some r → s.armed.lookup fd = some r ∧
    fd ∈ s'.reactor.interest ∧ s'.sockets.lookup fd = s.sockets.lookup fd

theorem Drops.stale {s s' : ReactorRun} (hd : s.Drops s') (event : ReadyEvent) (h : Nat) :
    s'.Stale event h ↔ s.Stale event h := by
  unfold Stale
  rw [hd.registrations]

theorem BatchInv.drops {s s' : ReactorRun} (h : s.BatchInv) (hd : s.Drops s') :
    s'.BatchInv where
  wakeup := hd.wakeup
  handlers fd k hk := by
    rw [hd.registrations]
    exact h.handlers fd k (hd.handlers fd k hk)
  armed fd r hr := by
    obtain ⟨hold, hin, hsocket⟩ := hd.armed fd r hr
    obtain ⟨-, hreg, hall⟩ := h.armed fd r hold
    rw [hd.registrations, hsocket]
    exact ⟨hin, hreg, fun k hk => hall k (hd.handlers fd k hk)⟩
  waiting event he := by
    rw [hd.registrations]
    exact h.waiting event (hd.pending event he)
  dispatched := by
    rw [hd.registrations, hd.dispatched]
    exact h.dispatched

theorem Fresh.drops {s s' : ReactorRun} (h : s.Fresh) (hd : s.Drops s') : s'.Fresh where
  never := by
    unfold NeverStale
    rw [hd.dispatched]
    exact fun d hmem hst => h.never d hmem ((hd.stale d.1 d.2).mp hst)
  waiting event he k hk hst :=
    h.waiting event (hd.pending event he) k (hd.handlers _ k hk) ((hd.stale event k).mp hst)

theorem drops_openSocket {s s' : ReactorRun} {fd : Fd} (hinv : s.BatchInv)
    (h : s.openSocket fd = some s') : s.Drops s' := by
  unfold openSocket at h
  split at h
  · cases h
  · rename_i hfree
    simp only [not_or] at hfree
    cases h
    refine ⟨rfl, rfl, fun _ he => he, fun _ _ hk => hk, ?_, fun fd' r hr => ?_⟩
    · simp only [AList.mem_insert, not_or]
      exact ⟨Ne.symm hfree.2.1, hinv.wakeup⟩
    · obtain ⟨hin, ⟨registration, -, -, hsocket⟩, -⟩ := hinv.armed fd' r hr
      have hne : fd' ≠ fd := by
        rintro rfl
        exact hfree.2.2 (AList.lookup_isSome.mp (by simp [hsocket]))
      exact ⟨hr, hin, AList.lookup_insert_ne hne⟩

theorem drops_close {s s' : ReactorRun} {fd : Fd} (hinv : s.BatchInv)
    (h : s.close fd = some s') : s.Drops s' := by
  unfold close at h
  split at h
  · cases h
    refine ⟨rfl, rfl, fun _ he => he, fun _ _ hk => hk, ?_, fun fd' r hr => ?_⟩
    · exact fun hm => hinv.wakeup (AList.mem_erase.mp hm).2
    · obtain ⟨hne, hr⟩ := AList.lookup_of_lookup_erase hr
      obtain ⟨hin, -⟩ := hinv.armed fd' r hr
      exact ⟨hr, AList.mem_erase.mpr ⟨hne, hin⟩, AList.lookup_erase_ne hne⟩
  · cases h

theorem drops_modifyHandler {s s' : ReactorRun} {fd : Fd} {events : Nat} {ctl : Option Int}
    (hinv : s.BatchInv) (h : s.modifyHandler fd events ctl = some s') : s.Drops s' := by
  have hsame : s.Drops s := ⟨rfl, rfl, fun _ he => he, fun _ _ hk => hk, hinv.wakeup,
    fun fd r hr => ⟨hr, (hinv.armed fd r hr).1, rfl⟩⟩
  unfold modifyHandler EventReactor.modifyHandler at h
  split at h
  · cases h
    exact hsame
  · rename_i hmod
    split at h
    · cases h
      split at hmod
      · cases hmod
      · split at hmod
        · split at hmod
          · cases hmod
          · cases hmod
            refine ⟨rfl, rfl, fun _ he => he, fun _ _ hk => hk, hinv.wakeup, fun fd' r hr => ?_⟩
            exact ⟨hr, (AList.mem_insert _).mpr (.inr (hinv.armed fd' r hr).1), rfl⟩
        · cases hmod
    · cases h

/-- `RemoveHandler` takes nothing away but the entries of its own number. -/
theorem removeHandler_keeps (r : EventReactor Nat) (fd : Fd) (ctl : Option Int) :
    (∀ fd' h, (r.removeHandler fd ctl).1.handlers.lookup fd' = some h →
      r.handlers.lookup fd' = some h) ∧
    ∀ fd' ∈ r.interest, fd' ≠ fd → fd' ∈ (r.removeHandler fd ctl).1.interest := by
  have herase : ∀ fd' h, (r.handlers.erase fd).lookup fd' = some h →
      r.handlers.lookup fd' = some h :=
    fun _ _ hk => (AList.lookup_of_lookup_erase hk).2
  unfold EventReactor.removeHandler
  split
  · split
    · split
      · exact ⟨herase, fun fd' hin hne => AList.mem_erase.mpr ⟨hne, hin⟩⟩
      · split
        · exact ⟨fun _ _ hk => hk, fun _ hin _ => hin⟩
        · exact ⟨herase, fun _ hin _ => hin⟩
    · exact ⟨herase, fun _ hin _ => hin⟩
  · exact ⟨fun _ _ hk => hk, fun _ hin _ => hin⟩

theorem drops_removeHandler {s s' : ReactorRun} {fd : Fd} {ctl : Option Int}
    (hinv : s.BatchInv) (h : s.removeHandler fd ctl = some s') : s.Drops s' := by
  obtain ⟨hhandlers, hinterest⟩ := removeHandler_keeps s.reactor fd ctl
  unfold removeHandler at h
  split at h
  · cases h
  · cases h
    refine ⟨rfl, rfl, fun _ he => he, hhandlers, hinv.wakeup, fun fd' r hr => ?_⟩
    simp only at hr
    split at hr
    · rename_i hin
      refine ⟨hr, ?_, rfl⟩
      by_cases hne : fd' = fd
      · rwa [hne]
      · exact hinterest fd' (hinv.armed fd' r hr).1 hne
    · obtain ⟨hne, hr⟩ := AList.lookup_of_lookup_erase hr
      exact ⟨hr, hinterest fd' (hinv.armed fd' r hr).1 hne, rfl⟩

theorem drops_testRunning {s s' : ReactorRun} (hinv : s.BatchInv)
    (h : s.testRunning = some s') : s.Drops s' := by
  unfold testRunning at h
  split at h
  · cases h
    refine ⟨rfl, rfl, fun _ he => ?_, fun _ _ hk => hk, hinv.wakeup,
      fun fd r hr => ⟨hr, (hinv.armed fd r hr).1, rfl⟩⟩
    cases hrun : s.reactor.running <;> simp [pending, hrun] at he
  · cases h

theorem drops_epollWaitFails {s s' : ReactorRun} (hinv : s.BatchInv)
    (h : s.epollWaitFails = some s') : s.Drops s' := by
  unfold epollWaitFails at h
  split at h
  · cases h
    exact ⟨rfl, rfl, fun _ he => by simp [pending] at he, fun _ _ hk => hk, hinv.wakeup,
      fun fd r hr => ⟨hr, (hinv.armed fd r hr).1, rfl⟩⟩
  · cases h

theorem lookUp_cases {s s' : ReactorRun} (h : s.lookUp = some s') :
    (s.thread = .batch [] ∧ s' = { s with thread := .loop }) ∨
    ∃ event rest, s.thread = .batch (event :: rest) ∧
      (s' = { s with thread := .batch rest } ∨
        ∃ handler, s.reactor.handlers.lookup event.fd = some handler ∧
          s' = { s with
            thread := .batch rest
            dispatched := s.dispatched ++ [(event, handler)] }) := by
  unfold lookUp at h
  split at h
  · cases h
    exact .inl ⟨‹_›, rfl⟩
  · rename_i event rest hthread
    refine .inr ⟨event, rest, hthread, ?_⟩
    simp only at h
    split at h
    · cases h
      exact .inl rfl
    · split at h
      · cases h
        exact .inl rfl
      · rename_i handler hhandler
        cases h
        exact .inr ⟨handler, hhandler, rfl⟩
  · cases h

theorem pending_of_batch {s : ReactorRun} {readyEvents : List ReadyEvent}
    (h : s.thread = .batch readyEvents) : s.pending = readyEvents := by
  simp [pending, h]

theorem drops_popBatch {s : ReactorRun} {event : ReadyEvent} {rest : List ReadyEvent}
    (hinv : s.BatchInv) (h : s.thread = .batch (event :: rest)) :
    s.Drops { s with thread := .batch rest } := by
  refine ⟨rfl, rfl, fun e he => ?_, fun _ _ hk => hk, hinv.wakeup,
    fun fd r hr => ⟨hr, (hinv.armed fd r hr).1, rfl⟩⟩
  rw [pending_of_batch h]
  exact List.mem_cons_of_mem event he

theorem batchInv_lookUp {s s' : ReactorRun} (hinv : s.BatchInv) (h : s.lookUp = some s') :
    s'.BatchInv := by
  rcases lookUp_cases h with ⟨-, rfl⟩ | ⟨event, rest, hthread, rfl | ⟨handler, hk, rfl⟩⟩
  · exact hinv.drops ⟨rfl, rfl, by simp [pending], fun _ _ hk => hk, hinv.wakeup,
      fun fd r hr => ⟨hr, (hinv.armed fd r hr).1, rfl⟩⟩
  · exact hinv.drops (drops_popBatch hinv hthread)
  · have hpop := hinv.drops (drops_popBatch hinv hthread)
    refine ⟨hpop.wakeup, hpop.handlers, hpop.armed, hpop.waiting, fun d hd => ?_⟩
    obtain hd | hd := List.mem_append.mp hd
    · exact hinv.dispatched d hd
    · rw [List.mem_singleton] at hd
      subst hd
      obtain ⟨later, hlater, -⟩ := hinv.handlers _ _ hk
      exact (List.getElem?_eq_some_iff.mp hlater).1

theorem fresh_lookUp {s s' : ReactorRun} (hinv : s.BatchInv) (hfresh : s.Fresh)
    (h : s.lookUp = some s') : s'.Fresh := by
  rcases lookUp_cases h with ⟨-, rfl⟩ | ⟨event, rest, hthread, rfl | ⟨handler, hk, rfl⟩⟩
  · exact hfresh.drops ⟨rfl, rfl, by simp [pending], fun _ _ hk => hk, hinv.wakeup,
      fun fd r hr => ⟨hr, (hinv.armed fd r hr).1, rfl⟩⟩
  · exact hfresh.drops (drops_popBatch hinv hthread)
  · have hpop := hfresh.drops (drops_popBatch hinv hthread)
    refine ⟨fun d hd => ?_, hpop.waiting⟩
    obtain hd | hd := List.mem_append.mp hd
    · exact hfresh.never d hd
    · rw [List.mem_singleton] at hd
      subst hd
      refine hfresh.waiting event ?_ handler hk
      rw [pending_of_batch hthread]
      exact List.mem_cons_self

theorem epollWait_cases {s s' : ReactorRun} {ready : List (Fd × Nat)}
    (h : s.epollWait ready = some s') :
    s' = { s with thread := .batch (ready.map fun e => ⟨e.1, e.2, s.armed.lookup e.1⟩) } := by
  unfold epollWait at h
  split at h
  · split at h
    · cases h
      rfl
    · cases h
  · cases h

theorem mem_collected {s : ReactorRun} {ready : List (Fd × Nat)} {event : ReadyEvent}
    (h : event ∈ ready.map fun e => (⟨e.1, e.2, s.armed.lookup e.1⟩ : ReadyEvent)) :
    event.registration = s.armed.lookup event.fd := by
  obtain ⟨e, -, rfl⟩ := List.mem_map.mp h
  rfl

theorem batchInv_epollWait {s s' : ReactorRun} {ready : List (Fd × Nat)} (hinv : s.BatchInv)
    (h : s.epollWait ready = some s') : s'.BatchInv := by
  have heq := epollWait_cases h
  subst heq
  refine ⟨hinv.wakeup, hinv.handlers, hinv.armed, fun event he r hr => ?_, hinv.dispatched⟩
  rw [mem_collected he] at hr
  obtain ⟨-, ⟨registration, hreg, hfd, -⟩, -⟩ := hinv.armed event.fd r hr
  exact ⟨registration, hreg, hfd⟩

/-- At the time of `epoll_wait` a number on the list has no other handler than that of the
registration that put it there. -/
theorem fresh_epollWait {s s' : ReactorRun} {ready : List (Fd × Nat)} (hinv : s.BatchInv)
    (hfresh : s.Fresh) (h : s.epollWait ready = some s') : s'.Fresh := by
  have heq := epollWait_cases h
  subst heq
  refine ⟨hfresh.never, fun event he k hk hst => ?_⟩
  obtain ⟨r, earlier, later, hr, hlt, -⟩ := hst
  rw [mem_collected he] at hr
  have hsame := (hinv.armed event.fd r hr).2.2 k hk
  omega

theorem batchInv_registerHandler {s s' : ReactorRun} {fd : Fd} {events : Nat}
    {ctl : Option Int} (hinv : s.BatchInv) (h : s.registerHandler fd events ctl = some s') :
    s'.BatchInv := by
  rcases registerHandler_cases h with ⟨-, rfl⟩ | ⟨-, socket, hnew, hlist, hsocket, rfl⟩
  · exact hinv
  · have hkeep : ∀ {i : Nat} {a : Registration}, s.registrations[i]? = some a →
        (s.registrations ++ [⟨fd, socket⟩])[i]? = some a := fun ha => by
      rw [List.getElem?_append_left (List.getElem?_eq_some_iff.mp ha).1]
      exact ha
    have hlast : (s.registrations ++ [⟨fd, socket⟩])[s.registrations.length]? =
        some ⟨fd, socket⟩ := by simp
    refine ⟨hinv.wakeup, fun fd' k hk => ?_, fun fd' r hr => ?_, fun event he r hr => ?_,
      fun d hd => ?_⟩
    · rcases AList.lookup_insert_cases hk with ⟨rfl, rfl⟩ | ⟨-, hk⟩
      · exact ⟨_, hlast, rfl⟩
      · obtain ⟨later, hlater, hfd⟩ := hinv.handlers fd' k hk
        exact ⟨later, hkeep hlater, hfd⟩
    · rcases AList.lookup_insert_cases hr with ⟨rfl, rfl⟩ | ⟨hne, hr⟩
      · exact ⟨by simp, ⟨_, hlast, rfl, hsocket⟩, fun k hk => by simpa using hk.symm⟩
      · obtain ⟨hin, ⟨registration, hreg, hfd, hs⟩, hall⟩ := hinv.armed fd' r hr
        refine ⟨(AList.mem_insert _).mpr (.inr hin), ⟨registration, hkeep hreg, hfd, hs⟩, ?_⟩
        intro k hk
        simp only [AList.lookup_insert_ne hne] at hk
        exact hall k hk
    · obtain ⟨registration, hreg, hfd⟩ := hinv.waiting event he r hr
      exact ⟨registration, hkeep hreg, hfd⟩
    · have hlt := hinv.dispatched d hd
      simp only [List.length_append, List.length_cons, List.length_nil]
      omega

/-- A registration that finds nothing waiting under its number for a closed socket makes
no lookup stale. -/
theorem fresh_registerHandler {s s' : ReactorRun} {fd : Fd} {events : Nat}
    {ctl : Option Int} (hinv : s.BatchInv) (hfresh : s.Fresh)
    (hclean : s.RegistersClean (.registerHandler fd events ctl))
    (h : s.registerHandler fd events ctl = some s') : s'.Fresh := by
  rcases registerHandler_cases h with ⟨-, rfl⟩ | ⟨hok, socket, hnew, hlist, hsocket, rfl⟩
  · exact hfresh
  · refine ⟨fun d hd hst => ?_, fun event he k hk hst => ?_⟩
    · exact hfresh.never d hd ((stale_concat rfl (hinv.dispatched d hd)).mp hst)
    · rcases AList.lookup_insert_cases hk with ⟨hfd, rfl⟩ | ⟨-, hk⟩
      · obtain ⟨r, earlier, later, hr, hlt, hearlier, hlater, -, hdiffer⟩ := hst
        rw [List.getElem?_append_left hlt] at hearlier
        have hopen := hclean hok event he hfd r earlier hr hearlier
        rw [hsocket, Option.some.injEq] at hopen
        simp only [List.getElem?_concat_length, Option.some.injEq] at hlater
        subst hlater
        exact hdiffer hopen.symm
      · obtain ⟨later, hlater, -⟩ := hinv.handlers _ _ hk
        have hlt := (List.getElem?_eq_some_iff.mp hlater).1
        exact hfresh.waiting event he k hk ((stale_concat rfl hlt).mp hst)

theorem batchInv_step {s s' : ReactorRun} {a : ReactorAct} (hinv : s.BatchInv)
    (h : s.step a = some s') : s'.BatchInv := by
  cases a with
  | openSocket fd => exact hinv.drops (drops_openSocket hinv h)
  | close fd => exact hinv.drops (drops_close hinv h)
  | registerHandler fd events ctl => exact batchInv_registerHandler hinv h
  | modifyHandler fd events ctl => exact hinv.drops (drops_modifyHandler hinv h)
  | removeHandler fd ctl => exact hinv.drops (drops_removeHandler hinv h)
  | testRunning => exact hinv.drops (drops_testRunning hinv h)
  | epollWait ready => exact batchInv_epollWait hinv h
  | epollWaitFails => exact hinv.drops (drops_epollWaitFails hinv h)
  | lookUp => exact batchInv_lookUp hinv h
  | stop =>
    cases h
    exact ⟨hinv.wakeup, hinv.handlers, hinv.armed, hinv.waiting, hinv.dispatched⟩

theorem fresh_step {s s' : ReactorRun} {a : ReactorAct} (hinv : s.BatchInv)
    (hfresh : s.Fresh) (hclean : s.RegistersClean a) (h : s.step a = some s') : s'.Fresh := by
  cases a with
  | openSocket fd => exact hfresh.drops (drops_openSocket hinv h)
  | close fd => exact hfresh.drops (drops_close hinv h)
  | registerHandler fd events ctl => exact fresh_registerHandler hinv hfresh hclean h
  | modifyHandler fd events ctl => exact hfresh.drops (drops_modifyHandler hinv h)
  | removeHandler fd ctl => exact hfresh.drops (drops_removeHandler hinv h)
  | testRunning => exact hfresh.drops (drops_testRunning hinv h)
  | epollWait ready => exact fresh_epollWait hinv hfresh h
  | epollWaitFails => exact hfresh.drops (drops_epollWaitFails hinv h)
  | lookUp => exact fresh_lookUp hinv hfresh h
  | stop =>
    cases h
    exact ⟨hfresh.never, hfresh.waiting⟩

theorem lookUp_cons {s : ReactorRun} {event : ReadyEvent} {rest : List ReadyEvent}
    (h : s.thread = .batch (event :: rest)) :
    ∃ s', s.lookUp = some s' ∧ s'.thread = .batch rest ∧ s'.reactor = s.reactor ∧
      s'.wakeupFd = s.wakeupFd ∧ s'.registrations = s.registrations ∧
      ∀ handler, s.reactor.handlers.lookup event.fd = some handler → event.fd ≠ s.wakeupFd →
        (event, handler) ∈ s'.dispatched := by
  simp only [lookUp, h]
  split
  · rename_i hwakeup
    exact ⟨_, rfl, rfl, rfl, rfl, rfl, fun _ _ hne => absurd hwakeup.2 hne⟩
  · split
    · rename_i hnone
      refine ⟨_, rfl, rfl, rfl, rfl, rfl, fun handler hk _ => ?_⟩
      rw [hnone] at hk
      cases hk
    · rename_i handler hk
      refine ⟨_, rfl, rfl, rfl, rfl, rfl, fun handler' hk' _ => ?_⟩
      rw [hk, Option.some.injEq] at hk'
      subst hk'
      simp

theorem run_lookUps {s : ReactorRun} {event : ReadyEvent} {front rest : List ReadyEvent}
    {n : Nat} (hthread : s.thread = .batch (front ++ event :: rest))
    (hk : s.reactor.handlers.lookup event.fd = some n) (hne : event.fd ≠ s.wakeupFd) :
    ∃ t, machine.run s (List.replicate (front.length + 1) .lookUp) = some t ∧
      t.registrations = s.registrations ∧ (event, n) ∈ t.dispatched := by
  induction front generalizing s with
  | nil =>
    obtain ⟨s', hlook, -, -, -, hregs, hdispatched⟩ := lookUp_cons hthread
    refine ⟨s', machine.run_cons.mpr ⟨s', hlook, rfl⟩, hregs, hdispatched n hk hne⟩
  | cons e front ih =>
    obtain ⟨s', hlook, hrest, hreactor, hwakeup, hregs, -⟩ := lookUp_cons hthread
    obtain ⟨t, hrun, ht, hmem⟩ := ih hrest (by rwa [hreactor]) (by rwa [hwakeup])
    exact ⟨t, machine.run_cons.mpr ⟨s', hlook, hrun⟩, ht.trans hregs, hmem⟩

/-- A registration that finds an event waiting for a closed socket is one the reactor
thread alone takes on to a stale dispatch. -/
theorem stale_of_not_registersClean {s s' : ReactorRun} {a : ReactorAct} (hinv : s.BatchInv)
    (hs : s.step a = some s') (hclean : ¬ s.RegistersClean a) :
    ∃ n t, machine.run s' (List.replicate n .lookUp) = some t ∧ ¬ t.NeverStale := by
  cases a with
  | registerHandler fd events ctl =>
    simp only [RegistersClean, NoneWaiting, not_forall] at hclean
    obtain ⟨hok, event, hmem, hfd, r, earlier, hr, hearlier, hclosed⟩ := hclean
    rcases registerHandler_cases hs with ⟨hno, -⟩ | ⟨-, socket, -, -, hsocket, rfl⟩
    · rw [hok] at hno
      cases hno
    · have hlt := (List.getElem?_eq_some_iff.mp hearlier).1
      have hopen : fd ∈ s.sockets := AList.lookup_isSome.mp (by simp [hsocket])
      have hne : event.fd ≠ s.wakeupFd := by
        rintro heq
        rw [hfd] at heq
        exact hinv.wakeup (heq ▸ hopen)
      obtain ⟨front, rest, hbatch⟩ := List.append_of_mem hmem
      have hthread : s.thread = .batch (front ++ event :: rest) := by
        cases hth : s.thread with
        | batch readyEvents =>
          rw [pending_of_batch hth] at hbatch
          rw [hbatch]
        | loop => simp [pending, hth] at hbatch
        | waiting => simp [pending, hth] at hbatch
        | exited => simp [pending, hth] at hbatch
      obtain ⟨t, hrun, hregs, hdispatched⟩ := run_lookUps
        (s := { s with
          reactor := { s.reactor with
            handlers := s.reactor.handlers.insert fd s.registrations.length
            interest := s.reactor.interest.insert fd (epollEvents events) }
          registrations := s.registrations ++ [⟨fd, socket⟩]
          armed := s.armed.insert fd s.registrations.length })
        (n := s.registrations.length) hthread (by rw [hfd]; exact AList.lookup_insert _) hne
      refine ⟨_, t, hrun, fun hnever => hnever _ hdispatched ?_⟩
      obtain ⟨named, hnamed, hnumber⟩ := hinv.waiting event hmem r hr
      rw [hearlier, Option.some.injEq] at hnamed
      subst hnamed
      refine ⟨r, earlier, ⟨fd, socket⟩, hr, hlt, ?_, ?_, hnumber.trans hfd, fun hsame => ?_⟩
      · rwa [hregs, List.getElem?_append_left hlt]
      · simp [hregs]
      · rw [hsocket] at hclosed
        exact hclosed (congrArg some hsame.symm)
  | _ => exact absurd trivial hclean

/-- The runs in which every registration finds nothing waiting for a closed socket are
those that the reactor thread, left to itself at any time, takes to no stale dispatch. -/
theorem registersClean_iff_neverStale (wakeupFd : Fd) (as : List ReactorAct) :
    machine.Every (fun s a _ => s.RegistersClean a) (started wakeupFd) as ↔
      ∀ bs n t, bs <+: as →
        machine.run (started wakeupFd) (bs ++ List.replicate n .lookUp) = some t →
          t.NeverStale := by
  constructor
  · intro hclean bs n t hprefix hrun
    obtain ⟨cs, rfl⟩ := hprefix
    have hall : machine.Every (fun s a _ => s.RegistersClean a) (started wakeupFd)
        (bs ++ List.replicate n .lookUp) := by
      refine machine.every_append.mpr ⟨(machine.every_append.mp hclean).1, fun _ _ => ?_⟩
      refine machine.every_of_mem fun a ha _ _ => ?_
      rw [List.eq_of_mem_replicate ha]
      trivial
    have ht := machine.run_invariant_of_every (I := fun s => s.BatchInv ∧ s.Fresh)
      (fun s a s' h ha hc => ⟨batchInv_step h.1 ha, fresh_step h.1 h.2 hc ha⟩)
      ⟨batchInv_started wakeupFd, fresh_started wakeupFd⟩ hall hrun
    exact ht.2.never
  · intro hnever
    have hinv := batchInv_started wakeupFd
    generalize started wakeupFd = s at hnever hinv
    induction as generalizing s with
    | nil => trivial
    | cons a as ih =>
      intro s' hs
      refine ⟨?_, ih s' (fun bs n t hbs hrun => ?_) (batchInv_step hinv hs)⟩
      · by_contra hclean
        obtain ⟨n, t, hrun, hstale⟩ := stale_of_not_registersClean hinv hs hclean
        refine hstale (hnever [a] n t ?_ (machine.run_cons.mpr ⟨s', hs, hrun⟩))
        exact ⟨as, rfl⟩
      · exact hnever (a :: bs) n t (List.cons_prefix_cons.mpr ⟨rfl, hbs⟩)
          (machine.run_cons.mpr ⟨s', hs, hrun⟩)

/-- A batch has the events of a listening socket and of a connection. The connection is
closed by another thread, the accept gets its number, and the hang-up of the one that is
gone goes to the handler of the one that came. -/
def acceptAfterClose : List ReactorAct :=
  [.openSocket 4, .registerHandler 4 0x0D none, .openSocket 6, .registerHandler 6 0x0D none,
    .testRunning, .epollWait [(4, EPOLLIN), (6, EPOLLIN ||| EPOLLRDHUP)], .lookUp,
    .removeHandler 6 none, .close 6, .openSocket 6, .registerHandler 6 0x0D none, .lookUp]

theorem acceptAfterClose_stale :
    ¬ ∀ (wakeupFd : Fd) (as : List ReactorAct) (t : ReactorRun),
      machine.run (started wakeupFd) as = some t → t.NeverStale := by
  intro h
  have ht := h 3 acceptAfterClose _ rfl
  refine ht (⟨6, EPOLLIN ||| EPOLLRDHUP, some 1⟩, 2) (by decide) ?_
  exact ⟨1, ⟨6, 1⟩, ⟨6, 2⟩, rfl, by decide, rfl, rfl, rfl, by decide⟩

end ReactorRun

end Lmnet.Epoll
