import Lmnet.Darwin.EventReactor
import Lmnet.Lib.Lists
import Lmnet.Lib.Machine

/-!
`Stop` of a kqueue `TcpServerImpl` or `UnixServerImpl`, whose code is the same here, next to
the `HandleAccept` and `HandleConnectionClose` calls of the reactor thread. A step is one
critical section of `stateMutex_`, one `RemoveHandler` or one `close`.
-/

set_option autoImplicit false

namespace Lmnet.Darwin

open Lmnet.Epoll (getEvents)

/-- Who has an open number: a client, by the order in which they were accepted, or another
part of the process. -/
inductive Holder where
  | client (c : Nat)
  | other
  deriving DecidableEq, Repr

inductive Teardown where
  | removeHandler | close
  deriving DecidableEq, Repr

/-- A call that was made for a client, and who had the number then. -/
structure Hit where
  call : Teardown
  client : Nat
  holder : Option Holder
  deriving DecidableEq, Repr

/-- Where the reactor thread is: in `HandleAccept` before `AddConnection`, or in
`HandleConnectionClose` after `GetSession`. -/
inductive Closing where
  | idle
  | addConnection (fd : Fd) (c : Nat)
  | removeConnection (fd : Fd) (c : Nat)
  | removeHandler (fd : Fd) (c : Nat)
  | close (fd : Fd) (c : Nat)
  deriving DecidableEq, Repr

/-- Where `Stop` is in its loop over `clientFds`. With each number stands the client whose
session `GetConnectionFds` found under it. -/
inductive Stopping where
  | notCalled
  | loop (clientFds : List (Fd × Nat))
  | removeHandler (fd : Fd) (c : Nat) (rest : List (Fd × Nat))
  | close (fd : Fd) (c : Nat) (rest : List (Fd × Nat))
  | returned
  deriving DecidableEq, Repr

/-- `listening` is the server's own socket, which nobody but `Stop` closes. `clients` has
the number that each client was accepted under. -/
structure StoppingServer where
  listening : Bool
  numbers : FdMap Holder
  clients : List Fd
  sessions : FdMap Nat
  connectionHandlers : FdMap Nat
  reactor : EventReactor Nat
  reactorThread : Closing
  stop : Stopping
  hits : List Hit

/-- `kevent` is what the call in `RegisterHandler` or `RemoveHandler` returns. -/
inductive StopAct where
  | openSocket (fd : Fd)
  | closeSocket (fd : Fd)
  | accept (fd : Fd) (configured : Bool) (kevent : Option Int)
  | addConnection
  | getSession (fd : Fd)
  | reactorStep (kevent : Option Int)
  | getConnectionFds (clientFds : List Fd)
  | stopStep (kevent : Option Int)
  deriving DecidableEq, Repr

namespace StoppingServer

def started : StoppingServer where
  listening := true
  numbers := ∅
  clients := []
  sessions := ∅
  connectionHandlers := ∅
  reactor := ⟨true, ∅, ∅⟩
  reactorThread := .idle
  stop := .notCalled
  hits := []

def removeConnection (s : StoppingServer) (fd : Fd) : StoppingServer :=
  { s with
    sessions := s.sessions.erase fd
    connectionHandlers := s.connectionHandlers.erase fd }

def removeHandler (s : StoppingServer) (fd : Fd) (c : Nat) (kevent : Option Int) :
    StoppingServer :=
  { s with
    reactor := (s.reactor.removeHandler fd kevent).1
    hits := s.hits ++ [⟨.removeHandler, c, s.numbers.lookup fd⟩] }

def close (s : StoppingServer) (fd : Fd) (c : Nat) : StoppingServer :=
  { s with
    numbers := s.numbers.erase fd
    hits := s.hits ++ [⟨.close, c, s.numbers.lookup fd⟩] }

/-- `HandleAccept` up to `AddConnection`. The kernel gives the client any number that is
not in use. -/
def accept (s : StoppingServer) (fd : Fd) (configured : Bool) (kevent : Option Int) :
    Option StoppingServer :=
  if s.reactorThread ≠ .idle ∨ s.listening = false ∨ fd < 0 ∨ fd ∈ s.numbers then none
  else
    let c := s.clients.length
    let s : StoppingServer := { s with
      numbers := s.numbers.insert fd (.client c)
      clients := s.clients ++ [fd] }
    if configured = false then some (s.close fd c)
    else
      match s.reactor.registerHandler fd (getEvents false) c kevent with
      | (r, false) => some ({ s with reactor := r }.close fd c)
      | (r, true) => some { s with reactor := r, reactorThread := .addConnection fd c }

def addConnection (s : StoppingServer) : Option StoppingServer :=
  match s.reactorThread with
  | .addConnection fd c =>
      some { s with
        sessions := s.sessions.insert fd c
        connectionHandlers := s.connectionHandlers.insert fd c
        reactorThread := .idle }
  | _ => none

def getSession (s : StoppingServer) (fd : Fd) : Option StoppingServer :=
  if s.reactorThread = .idle then
    match s.sessions.lookup fd with
    | none => some s
    | some c => some { s with reactorThread := .removeConnection fd c }
  else none

def reactorStep (s : StoppingServer) (kevent : Option Int) : Option StoppingServer :=
  match s.reactorThread with
  | .removeConnection fd c =>
      some { s.removeConnection fd with reactorThread := .removeHandler fd c }
  | .removeHandler fd c => some { s.removeHandler fd c kevent with reactorThread := .close fd c }
  | .close fd c => some { s.close fd c with reactorThread := .idle }
  | _ => none

/-- The beginning of `Stop`; the order of the numbers is that of the hash table. -/
def getConnectionFds (s : StoppingServer) (clientFds : List Fd) : Option StoppingServer :=
  if (s.stop = .notCalled ∨ s.stop = .returned) ∧ clientFds.Perm s.sessions.keys then
    some { s with
      stop := .loop (clientFds.map fun fd => (fd, (s.sessions.lookup fd).getD 0)) }
  else none

/-- The rest of `Stop`, one call at a time; the listening socket is last. -/
def stopStep (s : StoppingServer) (kevent : Option Int) : Option StoppingServer :=
  match s.stop with
  | .loop [] => some { s with listening := false, stop := .returned }
  | .loop ((fd, c) :: rest) => some { s.removeConnection fd with stop := .removeHandler fd c rest }
  | .removeHandler fd c rest =>
      some { s.removeHandler fd c kevent with stop := .close fd c rest }
  | .close fd c rest => some { s.close fd c with stop := .loop rest }
  | _ => none

def step (s : StoppingServer) : StopAct → Option StoppingServer
  | .openSocket fd =>
      if fd < 0 ∨ fd ∈ s.numbers then none
      else some { s with numbers := s.numbers.insert fd .other }
  | .closeSocket fd =>
      if s.numbers.lookup fd = some .other then some { s with numbers := s.numbers.erase fd }
      else none
  | .accept fd configured kevent => s.accept fd configured kevent
  | .addConnection => s.addConnection
  | .getSession fd => s.getSession fd
  | .reactorStep kevent => s.reactorStep kevent
  | .getConnectionFds clientFds => s.getConnectionFds clientFds
  | .stopStep kevent => s.stopStep kevent

def machine : Machine StoppingServer StopAct where
  init s := s = started
  step := step

def closes (s : StoppingServer) (c : Nat) : Nat :=
  s.hits.countP fun h => h.call == .close && h.client == c

/-- No client is closed twice, no call hits a number that another socket has, and when
`Stop` has returned and the reactor thread is done every client has been closed. -/
structure ClosesOnce (s : StoppingServer) : Prop where
  once : ∀ c, s.closes c ≤ 1
  own : ∀ h ∈ s.hits, h.holder = none ∨ h.holder = some (.client h.client)
  all : s.stop = .returned → s.reactorThread = .idle →
    ∀ c < s.clients.length, s.closes c = 1

end StoppingServer

def Stopping.remaining : Stopping → List (Fd × Nat)
  | .loop clientFds => clientFds
  | .removeHandler _ _ rest | .close _ _ rest => rest
  | .notCalled | .returned => []

def Closing.hasFound : Closing → Bool
  | .removeConnection _ _ => true
  | _ => false

namespace StoppingServer

/-- `Stop` does not list the clients while `HandleConnectionClose` is about to remove one
whose session it has found; `HandleConnectionClose` finds no session that the loop of `Stop`
has still to come to; and no client is added once `Stop` has listed them. -/
def Exclusive (s : StoppingServer) : StopAct → Prop
  | .getConnectionFds _ => s.reactorThread.hasFound = false
  | .getSession fd => fd ∈ s.sessions → fd ∉ s.stop.remaining.map Prod.fst
  | .addConnection => s.stop = .notCalled
  | _ => True

instance decidableExclusive (s : StoppingServer) (a : StopAct) : Decidable (s.Exclusive a) :=
  match a with
  | .getConnectionFds _ => inferInstanceAs (Decidable (_ = _))
  | .getSession _ => inferInstanceAs (Decidable (_ → _))
  | .addConnection => inferInstanceAs (Decidable (_ = _))
  | .openSocket _ | .closeSocket _ | .accept _ _ _ | .reactorStep _ | .stopStep _ =>
      inferInstanceAs (Decidable True)

end StoppingServer

def Stopping.held : Stopping → Option (Fd × Nat)
  | .removeHandler fd c _ | .close fd c _ => some (fd, c)
  | _ => none

def Closing.held : Closing → Option (Fd × Nat)
  | .addConnection fd c | .removeHandler fd c | .close fd c => some (fd, c)
  | .idle | .removeConnection _ _ => none

namespace StoppingServer

def Open (s : StoppingServer) (fd : Fd) (c : Nat) : Prop :=
  s.numbers.lookup fd = some (.client c) ∧ s.closes c = 0

/-- A client that is open is in the tables, or in the hands of one of the two threads. -/
structure Inv (s : StoppingServer) : Prop where
  own : ∀ h ∈ s.hits, h.holder = some (.client h.client)
  number : ∀ fd c, s.numbers.lookup fd = some (.client c) → s.clients[c]? = some fd
  fresh : ∀ c, s.clients.length ≤ c → s.closes c = 0
  session : ∀ fd c, s.sessions.lookup fd = some c → s.Open fd c
  reactorHeld : ∀ fd c, s.reactorThread.held = some (fd, c) →
    s.Open fd c ∧ fd ∉ s.sessions ∧ s.stop.held ≠ some (fd, c)
  stopHeld : ∀ fd c, s.stop.held = some (fd, c) → s.Open fd c ∧ fd ∉ s.sessions
  wanted : ∀ fd c, s.reactorThread = .removeConnection fd c →
    s.sessions.lookup fd = some c ∧ s.stop = .notCalled
  remaining : ∀ p ∈ s.stop.remaining, s.sessions.lookup p.1 = some p.2
  nodup : (s.stop.remaining.map Prod.fst).Nodup
  listed : s.stop ≠ .notCalled → ∀ fd c, s.sessions.lookup fd = some c →
    (fd, c) ∈ s.stop.remaining
  everywhere : ∀ c < s.clients.length, s.closes c = 1 ∨ ∃ fd, s.sessions.lookup fd = some c ∨
    s.reactorThread.held = some (fd, c) ∨ s.stop.held = some (fd, c)

theorem inv_started : started.Inv where
  own := by simp [started]
  number := by simp [started]
  fresh := by simp [started, closes]
  session := by simp [started]
  reactorHeld := by simp [started, Closing.held]
  stopHeld := by simp [started, Stopping.held]
  wanted := by simp [started]
  remaining := by simp [started, Stopping.remaining]
  nodup := by simp [started, Stopping.remaining]
  listed := by simp [started]
  everywhere := by simp [started]

theorem Inv.closesOnce {s : StoppingServer} (h : s.Inv) : s.ClosesOnce where
  once c := by
    by_cases hc : c < s.clients.length
    · rcases h.everywhere c hc with hone | ⟨fd, hsession | hreactor | hstop⟩
      · exact Nat.le_of_eq hone
      · rw [(h.session fd c hsession).2]
        exact Nat.zero_le 1
      · rw [(h.reactorHeld fd c hreactor).1.2]
        exact Nat.zero_le 1
      · rw [(h.stopHeld fd c hstop).1.2]
        exact Nat.zero_le 1
    · rw [h.fresh c (Nat.not_lt.mp hc)]
      exact Nat.zero_le 1
  own hit hmem := .inr (h.own hit hmem)
  all hstop hidle c hc := by
    rcases h.everywhere c hc with hone | ⟨fd, hsession | hreactor | hheld⟩
    · exact hone
    · have hlisted := h.listed (by simp [hstop]) fd c hsession
      simp [hstop, Stopping.remaining] at hlisted
    · simp [hidle, Closing.held] at hreactor
    · simp [hstop, Stopping.held] at hheld

theorem Open.mem {s : StoppingServer} {fd : Fd} {c : Nat} (h : s.Open fd c) : fd ∈ s.numbers :=
  AList.lookup_isSome.mp (by rw [h.1]; rfl)

theorem Inv.unique {s : StoppingServer} (h : s.Inv) {fd fd' : Fd} {c : Nat}
    (ho : s.numbers.lookup fd = some (.client c)) (ho' : s.numbers.lookup fd' = some (.client c)) :
    fd = fd' := by
  have hfd := h.number fd c ho
  rw [h.number fd' c ho', Option.some.injEq] at hfd
  exact hfd.symm

/-- The tables are as they were, and numbers that clients have are theirs still: what other
parts of the process open and close changes nothing. -/
theorem Inv.frame {s : StoppingServer} (h : s.Inv) {numbers : FdMap Holder}
    (hkeep : ∀ fd c, numbers.lookup fd = some (.client c) ↔
      s.numbers.lookup fd = some (.client c)) : ({ s with numbers := numbers }).Inv := by
  have hopen : ∀ fd c, ({ s with numbers := numbers } : StoppingServer).Open fd c ↔
      s.Open fd c := fun fd c => and_congr_left fun _ => hkeep fd c
  exact {
    own := h.own
    number := fun fd c ho => h.number fd c ((hkeep fd c).mp ho)
    fresh := h.fresh
    session := fun fd c hs => (hopen fd c).mpr (h.session fd c hs)
    reactorHeld := fun fd c hh => ⟨(hopen fd c).mpr (h.reactorHeld fd c hh).1,
      (h.reactorHeld fd c hh).2⟩
    stopHeld := fun fd c hh => ⟨(hopen fd c).mpr (h.stopHeld fd c hh).1, (h.stopHeld fd c hh).2⟩
    wanted := h.wanted
    remaining := h.remaining
    nodup := h.nodup
    listed := h.listed
    everywhere := h.everywhere }

theorem inv_openSocket {s : StoppingServer} {fd : Fd} (h : s.Inv) (hfree : fd ∉ s.numbers) :
    ({ s with numbers := s.numbers.insert fd .other }).Inv := by
  refine h.frame fun fd' c => ?_
  by_cases hne : fd' = fd
  · subst hne
    rw [AList.lookup_insert, AList.lookup_eq_none.mpr hfree]
    simp
  · rw [AList.lookup_insert_ne hne]

theorem inv_closeSocket {s : StoppingServer} {fd : Fd} (h : s.Inv)
    (hother : s.numbers.lookup fd = some .other) :
    ({ s with numbers := s.numbers.erase fd }).Inv := by
  refine h.frame fun fd' c => ?_
  by_cases hne : fd' = fd
  · subst hne
    rw [AList.lookup_erase, hother]
    simp
  · rw [AList.lookup_erase_ne hne]

theorem closes_removeHandler (s : StoppingServer) (fd : Fd) (c : Nat) (kevent : Option Int)
    (d : Nat) : (s.removeHandler fd c kevent).closes d = s.closes d := by
  simp [closes, removeHandler]

theorem closes_close (s : StoppingServer) (fd : Fd) (c d : Nat) :
    (s.close fd c).closes d = s.closes d + if d = c then 1 else 0 := by
  by_cases hd : d = c
  · subst hd
    simp [closes, close]
  · simp [closes, close, hd, Ne.symm hd]

theorem Open.close_other {s : StoppingServer} {fd fd' : Fd} {c d : Nat} (h : s.Inv)
    (ho : s.Open fd c) (ho' : s.Open fd' d) (hne : fd' ≠ fd) : (s.close fd c).Open fd' d := by
  refine ⟨?_, ?_⟩
  · simpa only [StoppingServer.close, AList.lookup_erase_ne hne] using ho'.1
  · have hdc : d ≠ c := by
      rintro rfl
      exact hne (h.unique ho'.1 ho.1)
    rw [closes_close, if_neg hdc]
    exact ho'.2

theorem inv_close {s : StoppingServer} {fd : Fd} {c : Nat} (r : Closing) (st : Stopping)
    (h : s.Inv) (ho : s.Open fd c) (hnot : fd ∉ s.sessions)
    (hr : ∀ fd' d, r.held = some (fd', d) ↔ s.reactorThread.held = some (fd', d) ∧ fd' ≠ fd)
    (hst : ∀ fd' d, st.held = some (fd', d) ↔ s.stop.held = some (fd', d) ∧ fd' ≠ fd)
    (hwanted : ∀ fd' d, r = .removeConnection fd' d → s.reactorThread = r)
    (hcalled : st = .notCalled ↔ s.stop = .notCalled)
    (hremaining : st.remaining = s.stop.remaining) :
    ({ s.close fd c with reactorThread := r, stop := st }).Inv where
  own hit hmem := by
    obtain hmem | hmem := List.mem_append.mp hmem
    · exact h.own hit hmem
    · rw [List.mem_singleton] at hmem
      subst hmem
      exact ho.1
  number fd' d hd := by
    exact h.number fd' d (AList.lookup_of_lookup_erase hd).2
  fresh d hd := by
    have hcd : d ≠ c := by
      rintro rfl
      obtain ⟨hlt, -⟩ := List.getElem?_eq_some_iff.mp (h.number fd d ho.1)
      exact absurd hlt (Nat.not_lt.mpr hd)
    refine (closes_close s fd c d).trans ?_
    rw [if_neg hcd, h.fresh d hd]
  session fd' d hd := by
    have hne : fd' ≠ fd := by
      rintro rfl
      exact hnot (AList.lookup_isSome.mp (by rw [show s.sessions.lookup fd' = some d from hd]; rfl))
    exact ho.close_other h (h.session fd' d hd) hne
  reactorHeld fd' d hd := by
    obtain ⟨hold, hne⟩ := (hr fd' d).mp hd
    obtain ⟨hopen, hsession, hstop⟩ := h.reactorHeld fd' d hold
    exact ⟨ho.close_other h hopen hne, hsession, fun hheld => hstop ((hst fd' d).mp hheld).1⟩
  stopHeld fd' d hd := by
    obtain ⟨hold, hne⟩ := (hst fd' d).mp hd
    obtain ⟨hopen, hsession⟩ := h.stopHeld fd' d hold
    exact ⟨ho.close_other h hopen hne, hsession⟩
  wanted fd' d hd := by
    obtain ⟨hsession, hstop⟩ := h.wanted fd' d ((hwanted fd' d hd).trans hd)
    exact ⟨hsession, hcalled.mpr hstop⟩
  remaining := by
    change ∀ p ∈ st.remaining, _
    rw [hremaining]
    exact h.remaining
  nodup := by
    change (st.remaining.map Prod.fst).Nodup
    rw [hremaining]
    exact h.nodup
  listed hne := by
    change ∀ fd' d, _ → (fd', d) ∈ st.remaining
    rw [hremaining]
    exact h.listed fun heq => hne (hcalled.mpr heq)
  everywhere d hd := by
    have hcount : ({ s.close fd c with reactorThread := r, stop := st } :
        StoppingServer).closes d = s.closes d + if d = c then 1 else 0 := closes_close s fd c d
    rw [hcount]
    by_cases hdc : d = c
    · left
      rw [hdc, ho.2, if_pos rfl]
    · rw [if_neg hdc]
      refine (h.everywhere d hd).imp id fun ⟨fd', hwhere⟩ => ⟨fd', ?_⟩
      have hother : s.Open fd' d → fd' ≠ fd := by
        rintro hopen rfl
        have hsame := hopen.1.symm.trans ho.1
        simp only [Option.some.injEq, Holder.client.injEq] at hsame
        exact hdc hsame
      rcases hwhere with hsession | hreactor | hstop
      · exact .inl hsession
      · exact .inr (.inl ((hr fd' d).mpr ⟨hreactor, hother (h.reactorHeld fd' d hreactor).1⟩))
      · exact .inr (.inr ((hst fd' d).mpr ⟨hstop, hother (h.stopHeld fd' d hstop).1⟩))

theorem inv_removeHandler {s : StoppingServer} {fd : Fd} {c : Nat} (kevent : Option Int)
    (r : Closing) (st : Stopping) (h : s.Inv) (ho : s.Open fd c)
    (hr : r.held = s.reactorThread.held)
    (hwanted : ∀ fd' d, r = .removeConnection fd' d → s.reactorThread = r)
    (hst : st.held = s.stop.held) (hcalled : st = .notCalled ↔ s.stop = .notCalled)
    (hremaining : st.remaining = s.stop.remaining) :
    ({ s.removeHandler fd c kevent with reactorThread := r, stop := st }).Inv := by
  have hcloses : ∀ d, ({ s.removeHandler fd c kevent with reactorThread := r, stop := st } :
      StoppingServer).closes d = s.closes d := closes_removeHandler s fd c kevent
  have hopen : ∀ fd' d, ({ s.removeHandler fd c kevent with reactorThread := r, stop := st } :
      StoppingServer).Open fd' d ↔ s.Open fd' d := fun fd' d => by
    unfold Open
    rw [hcloses]
    exact Iff.rfl
  refine ⟨fun hit hmem => ?_, h.number, fun d hd => (hcloses d).trans (h.fresh d hd), ?_, ?_, ?_,
    fun fd' d hd => ?_, ?_, ?_, fun hne => ?_, fun d hd => ?_⟩
  · obtain hmem | hmem := List.mem_append.mp hmem
    · exact h.own hit hmem
    · rw [List.mem_singleton] at hmem
      subst hmem
      exact ho.1
  · simp only [hopen]
    exact h.session
  · simp only [hopen, hr, hst]
    exact h.reactorHeld
  · simp only [hopen, hst]
    exact h.stopHeld
  · obtain ⟨hsession, hstop⟩ := h.wanted fd' d ((hwanted fd' d hd).trans hd)
    exact ⟨hsession, hcalled.mpr hstop⟩
  · simp only [hremaining]
    exact h.remaining
  · simp only [hremaining]
    exact h.nodup
  · simp only [hremaining]
    exact h.listed fun heq => hne (hcalled.mpr heq)
  · simp only [hcloses, hr, hst]
    exact h.everywhere d hd

theorem inv_accepted {s : StoppingServer} {fd : Fd} (reactor : EventReactor Nat) (r : Closing)
    (h : s.Inv) (hidle : s.reactorThread = .idle) (hfree : fd ∉ s.numbers)
    (hr : r.held = some (fd, s.clients.length)) :
    ({ s with
      numbers := s.numbers.insert fd (.client s.clients.length)
      clients := s.clients ++ [fd]
      reactor := reactor
      reactorThread := r }).Inv := by
  have hold : ∀ fd' c, s.Open fd' c → ({ s with
      numbers := s.numbers.insert fd (.client s.clients.length)
      clients := s.clients ++ [fd]
      reactor := reactor
      reactorThread := r } : StoppingServer).Open fd' c := by
    intro fd' c ho
    have hne : fd' ≠ fd := by
      rintro rfl
      exact hfree ho.mem
    exact ⟨(AList.lookup_insert_ne hne).trans ho.1, ho.2⟩
  refine ⟨h.own, fun fd' c hc => ?_, fun c hc => ?_, fun fd' c hc => ?_, fun fd' c hc => ?_,
    fun fd' c hc => ?_, fun fd' c hc => ?_, h.remaining, h.nodup, h.listed, fun c hc => ?_⟩
  · rcases AList.lookup_insert_cases hc with ⟨rfl, heq⟩ | ⟨-, hc⟩
    · cases heq
      simp
    · have hlt := (List.getElem?_eq_some_iff.mp (h.number fd' c hc)).1
      change (s.clients ++ [fd])[c]? = some fd'
      rw [List.getElem?_append_left hlt]
      exact h.number fd' c hc
  · refine h.fresh c ?_
    simp only [List.length_append] at hc
    omega
  · exact hold fd' c (h.session fd' c hc)
  · have hsame : some (fd, s.clients.length) = some (fd', c) := hr.symm.trans hc
    simp only [Option.some.injEq, Prod.mk.injEq] at hsame
    obtain ⟨rfl, rfl⟩ := hsame
    refine ⟨⟨AList.lookup_insert _, h.fresh _ (Nat.le_refl _)⟩, fun hmem => ?_, fun hstop => ?_⟩
    · obtain ⟨d, hd⟩ := Option.isSome_iff_exists.mp (AList.lookup_isSome.mpr hmem)
      exact hfree (h.session fd d hd).mem
    · exact hfree (h.stopHeld fd _ hstop).1.mem
  · obtain ⟨hopen, hsession⟩ := h.stopHeld fd' c hc
    exact ⟨hold fd' c hopen, hsession⟩
  · have hthread : r = .removeConnection fd' c := hc
    simp [hthread, Closing.held] at hr
  · simp only [List.length_append, List.length_singleton] at hc
    by_cases hlast : c = s.clients.length
    · exact .inr ⟨fd, .inr (.inl (by rw [hlast]; exact hr))⟩
    · refine (h.everywhere c (by omega)).imp id fun ⟨fd', hwhere⟩ => ⟨fd', ?_⟩
      refine hwhere.imp id fun hheld => .inr ?_
      refine hheld.resolve_left ?_
      simp [hidle, Closing.held]

theorem inv_accept {s s' : StoppingServer} {fd : Fd} {configured : Bool} {kevent : Option Int}
    (h : s.Inv) (hs : s.accept fd configured kevent = some s') : s'.Inv := by
  unfold accept at hs
  split at hs
  · cases hs
  · rename_i hcond
    simp only [not_or, not_not] at hcond
    obtain ⟨hidle, -, -, hfree⟩ := hcond
    -- refused: as if the reactor thread had it in hand and closed it
    have hrefused : ∀ reactor : EventReactor Nat, (({ s with
        numbers := s.numbers.insert fd (.client s.clients.length)
        clients := s.clients ++ [fd]
        reactor := reactor } : StoppingServer).close fd s.clients.length).Inv := by
      intro reactor
      have haccepted := inv_accepted reactor (.close fd s.clients.length) h hidle hfree rfl
      obtain ⟨hopen, hsession, hstop⟩ := haccepted.reactorHeld fd s.clients.length rfl
      have hclose := inv_close s.reactorThread s.stop haccepted hopen hsession
        (fun fd' d => ?_) (fun fd' d => ?_) (fun fd' d hd => ?_) Iff.rfl rfl
      · exact hclose
      · simp [hidle, Closing.held]
        tauto
      · refine ⟨fun hheld => ⟨hheld, ?_⟩, And.left⟩
        rintro rfl
        exact hfree (h.stopHeld _ d hheld).1.mem
      · simp [hidle] at hd
    simp only at hs
    split at hs
    · cases hs
      exact hrefused s.reactor
    · split at hs
      · cases hs
        exact hrefused _
      · cases hs
        exact inv_accepted _ _ h hidle hfree rfl

theorem inv_addConnection {s s' : StoppingServer} (h : s.Inv) (hstop : s.stop = .notCalled)
    (hs : s.addConnection = some s') : s'.Inv := by
  unfold addConnection at hs
  split at hs
  · rename_i fd c hthread
    cases hs
    obtain ⟨hopen, hnot, -⟩ := h.reactorHeld fd c (by rw [hthread]; rfl)
    refine ⟨h.own, h.number, h.fresh, fun fd' d hd => ?_, nofun, fun fd' d hd => ?_, nofun, ?_, ?_,
      fun hne => absurd hstop hne, fun d hd => ?_⟩
    · rcases AList.lookup_insert_cases hd with ⟨rfl, rfl⟩ | ⟨-, hold⟩
      · exact hopen
      · exact h.session fd' d hold
    · simp [hstop, Stopping.held] at hd
    · simp [hstop, Stopping.remaining]
    · simp [hstop, Stopping.remaining]
    · refine (h.everywhere d hd).imp id fun ⟨fd', hwhere⟩ => ?_
      rcases hwhere with hsession | hreactor | hheld
      · refine ⟨fd', .inl ?_⟩
        have hne : fd' ≠ fd := by
          rintro rfl
          exact hnot (AList.lookup_isSome.mp (by rw [hsession]; rfl))
        exact (AList.lookup_insert_ne hne).trans hsession
      · rw [hthread] at hreactor
        simp only [Closing.held, Option.some.injEq, Prod.mk.injEq] at hreactor
        obtain ⟨rfl, rfl⟩ := hreactor
        exact ⟨fd, .inl (AList.lookup_insert _)⟩
      · simp [hstop, Stopping.held] at hheld
  · cases hs

theorem inv_getSession {s s' : StoppingServer} {fd : Fd} (h : s.Inv)
    (hexclusive : fd ∈ s.sessions → fd ∉ s.stop.remaining.map Prod.fst)
    (hs : s.getSession fd = some s') : s'.Inv := by
  unfold getSession at hs
  split at hs
  · rename_i hidle
    split at hs
    · cases hs
      exact h
    · rename_i c hsession
      cases hs
      have hstop : s.stop = .notCalled := by
        by_contra hcalled
        have hlisted := h.listed hcalled fd c hsession
        exact hexclusive (AList.lookup_isSome.mp (by rw [hsession]; rfl))
          (List.mem_map_of_mem hlisted)
      refine ⟨h.own, h.number, h.fresh, h.session, nofun, h.stopHeld, fun fd' d hd => ?_,
        h.remaining, h.nodup, h.listed, fun d hd => ?_⟩
      · cases hd
        exact ⟨hsession, hstop⟩
      · refine (h.everywhere d hd).imp id fun ⟨fd', hwhere⟩ => ⟨fd', ?_⟩
        refine hwhere.imp id fun hheld => .inr (hheld.resolve_left ?_)
        simp [hidle, Closing.held]
  · cases hs

theorem inv_reactorStep {s s' : StoppingServer} {kevent : Option Int} (h : s.Inv)
    (hs : s.reactorStep kevent = some s') : s'.Inv := by
  unfold reactorStep at hs
  split at hs
  · rename_i fd c hthread
    cases hs
    obtain ⟨hsession, hstop⟩ := h.wanted fd c hthread
    have hnone : s.stop.held = none := by rw [hstop]; rfl
    refine ⟨h.own, h.number, h.fresh, fun fd' d hd => ?_, fun fd' d hd => ?_, fun fd' d hd => ?_,
      nofun, ?_, ?_, fun hne => absurd hstop hne, fun d hd => ?_⟩
    · exact h.session fd' d (AList.lookup_of_lookup_erase hd).2
    · cases hd
      refine ⟨h.session fd c hsession, fun hmem => (AList.mem_erase.mp hmem).1 rfl, ?_⟩
      change s.stop.held ≠ _
      simp [hnone]
    · have hheld : s.stop.held = some (fd', d) := hd
      simp [hnone] at hheld
    · change ∀ p ∈ s.stop.remaining, _
      simp [hstop, Stopping.remaining]
    · change (s.stop.remaining.map Prod.fst).Nodup
      simp [hstop, Stopping.remaining]
    · refine (h.everywhere d hd).imp id fun ⟨fd', hwhere⟩ => ⟨fd', ?_⟩
      rcases hwhere with hold | hreactor | hheld
      · rcases AList.lookup_erase_cases hsession hold with ⟨rfl, rfl⟩ | hkept
        · exact .inr (.inl rfl)
        · exact .inl hkept
      · simp [hthread, Closing.held] at hreactor
      · simp [hnone] at hheld
  · rename_i fd c hthread
    cases hs
    have hheld := h.reactorHeld fd c (by rw [hthread]; rfl)
    exact inv_removeHandler kevent (.close fd c) s.stop h hheld.1 (by rw [hthread]; rfl) nofun rfl
      Iff.rfl rfl
  · rename_i fd c hthread
    cases hs
    obtain ⟨hopen, hnot, hstop⟩ := h.reactorHeld fd c (by rw [hthread]; rfl)
    refine inv_close .idle s.stop h hopen hnot (fun fd' d => ?_) (fun fd' d => ?_) nofun Iff.rfl rfl
    · simp only [hthread, Closing.held, Option.some.injEq, Prod.mk.injEq]
      refine iff_of_false nofun ?_
      rintro ⟨⟨rfl, -⟩, hne⟩
      exact hne rfl
    · refine ⟨fun hheld => ⟨hheld, ?_⟩, And.left⟩
      rintro rfl
      have hsame := (h.stopHeld _ d hheld).1.1.symm.trans hopen.1
      simp only [Option.some.injEq, Holder.client.injEq] at hsame
      exact hstop (by rw [hheld, hsame])
  · cases hs

theorem inv_getConnectionFds {s s' : StoppingServer} {clientFds : List Fd} (h : s.Inv)
    (hexclusive : s.reactorThread.hasFound = false)
    (hs : s.getConnectionFds clientFds = some s') : s'.Inv := by
  unfold getConnectionFds at hs
  split at hs
  · rename_i hcond
    cases hs
    have hnone : s.stop.held = none := by
      rcases hcond.1 with hstop | hstop <;> rw [hstop] <;> rfl
    have hlookup : ∀ fd ∈ s.sessions, s.sessions.lookup fd =
        some ((s.sessions.lookup fd).getD 0) := by
      intro fd hmem
      obtain ⟨c, hc⟩ := Option.isSome_iff_exists.mp (AList.lookup_isSome.mpr hmem)
      rw [hc]
      rfl
    refine ⟨h.own, h.number, h.fresh, h.session, fun fd c hd => ?_, nofun,
      fun fd c hd => ?_, fun p hp => ?_, ?_, fun _ fd c hc => ?_,
      fun c hc => ?_⟩
    · obtain ⟨hopen, hnot, -⟩ := h.reactorHeld fd c hd
      exact ⟨hopen, hnot, nofun⟩
    · have hthread : s.reactorThread = .removeConnection fd c := hd
      simp [hthread, Closing.hasFound] at hexclusive
    · obtain ⟨fd, hfd, rfl⟩ := List.mem_map.mp hp
      exact hlookup fd (AList.mem_keys.mpr (hcond.2.mem_iff.mp hfd))
    · have hmap : (clientFds.map fun fd =>
          (fd, (s.sessions.lookup fd).getD 0)).map Prod.fst = clientFds := by
        simp [Function.comp_def]
      change ((clientFds.map fun fd =>
        (fd, (s.sessions.lookup fd).getD 0)).map Prod.fst).Nodup
      rw [hmap]
      exact hcond.2.nodup_iff.mpr s.sessions.keys_nodup
    · have hfd : fd ∈ s.sessions := AList.lookup_isSome.mp (by
        rw [show s.sessions.lookup fd = some c from hc]
        rfl)
      refine List.mem_map.mpr ⟨fd, hcond.2.mem_iff.mpr (AList.mem_keys.mp hfd), ?_⟩
      rw [show s.sessions.lookup fd = some c from hc]
      rfl
    · refine (h.everywhere c hc).imp id fun ⟨fd, hwhere⟩ => ⟨fd, ?_⟩
      rcases hwhere with hsession | hreactor | hheld
      · exact .inl hsession
      · exact .inr (.inl hreactor)
      · simp [hnone] at hheld
  · cases hs

theorem inv_stopStep {s s' : StoppingServer} {kevent : Option Int} (h : s.Inv)
    (hs : s.stopStep kevent = some s') : s'.Inv := by
  unfold stopStep at hs
  split at hs
  · rename_i hstop
    cases hs
    have hnone : ∀ fd c, s.sessions.lookup fd ≠ some c := by
      intro fd c hc
      have hlisted := h.listed (by simp [hstop]) fd c hc
      simp [hstop, Stopping.remaining] at hlisted
    have hheld : s.stop.held = none := by rw [hstop]; rfl
    refine ⟨h.own, h.number, h.fresh, h.session, fun fd c hd => ?_, nofun, fun fd c hd => ?_, nofun,
      .nil, fun _ fd c hc => absurd hc (hnone fd c), fun c hc => ?_⟩
    · obtain ⟨hopen, hnot, -⟩ := h.reactorHeld fd c hd
      exact ⟨hopen, hnot, nofun⟩
    · exact absurd (h.wanted fd c hd).1 (hnone fd c)
    · refine (h.everywhere c hc).imp id fun ⟨fd, hwhere⟩ => ⟨fd, ?_⟩
      rcases hwhere with hsession | hreactor | hstopHeld
      · exact .inl hsession
      · exact .inr (.inl hreactor)
      · simp [hheld] at hstopHeld
  · rename_i fd c rest hstop
    cases hs
    have hheld : s.stop.held = none := by rw [hstop]; rfl
    have hremaining : s.stop.remaining = (fd, c) :: rest := by rw [hstop]; rfl
    have hsession : s.sessions.lookup fd = some c :=
      h.remaining (fd, c) (by rw [hremaining]; exact List.mem_cons_self)
    have hmem : fd ∈ s.sessions := AList.lookup_isSome.mp (by rw [hsession]; rfl)
    have hnodup := h.nodup
    rw [hremaining, List.map_cons, List.nodup_cons] at hnodup
    refine ⟨h.own, h.number, h.fresh, fun fd' d hd => ?_, fun fd' d hd => ?_, fun fd' d hd => ?_,
      fun fd' d hd => ?_, fun p hp => ?_, hnodup.2, fun _ fd' d hd => ?_, fun d hd => ?_⟩
    · exact h.session fd' d (AList.lookup_of_lookup_erase hd).2
    · obtain ⟨hopen, hnot, -⟩ := h.reactorHeld fd' d hd
      refine ⟨hopen, fun hkept => hnot (AList.mem_erase.mp hkept).2, ?_⟩
      intro hsame
      cases hsame
      exact hnot hmem
    · cases hd
      exact ⟨h.session fd c hsession, fun hkept => (AList.mem_erase.mp hkept).1 rfl⟩
    · have hwanted := (h.wanted fd' d hd).2
      simp [hstop] at hwanted
    · have hrest : p ∈ rest := hp
      have hold := h.remaining p (by rw [hremaining]; exact List.mem_cons_of_mem _ hrest)
      have hne : p.1 ≠ fd := fun heq => hnodup.1 (List.mem_map.mpr ⟨p, hrest, heq⟩)
      exact (AList.lookup_erase_ne hne).trans hold
    · obtain ⟨hne, hold⟩ := AList.lookup_of_lookup_erase hd
      have hlisted := h.listed (by simp [hstop]) fd' d hold
      rw [hremaining] at hlisted
      refine (List.mem_cons.mp hlisted).resolve_left ?_
      rintro heq
      cases heq
      exact hne rfl
    · refine (h.everywhere d hd).imp id fun ⟨fd', hwhere⟩ => ⟨fd', ?_⟩
      rcases hwhere with hold | hreactor | hstopHeld
      · rcases AList.lookup_erase_cases hsession hold with ⟨rfl, rfl⟩ | hkept
        · exact .inr (.inr rfl)
        · exact .inl hkept
      · exact .inr (.inl hreactor)
      · simp [hheld] at hstopHeld
  · rename_i fd c rest hstop
    cases hs
    have hheld := h.stopHeld fd c (by rw [hstop]; rfl)
    exact inv_removeHandler kevent s.reactorThread (.close fd c rest) h hheld.1 rfl
      (fun _ _ _ => rfl) (by rw [hstop]; rfl) (by simp [hstop]) (by rw [hstop]; rfl)
  · rename_i fd c rest hstop
    cases hs
    have hheld : s.stop.held = some (fd, c) := by rw [hstop]; rfl
    obtain ⟨hopen, hnot⟩ := h.stopHeld fd c hheld
    refine inv_close s.reactorThread (.loop rest) h hopen hnot (fun fd' d => ?_) (fun fd' d => ?_)
      (fun _ _ _ => rfl) (by simp [hstop]) (by rw [hstop]; rfl)
    · refine ⟨fun hreactor => ⟨hreactor, ?_⟩, And.left⟩
      rintro rfl
      obtain ⟨hopen', -, hother⟩ := h.reactorHeld _ d hreactor
      have hsame := hopen'.1.symm.trans hopen.1
      simp only [Option.some.injEq, Holder.client.injEq] at hsame
      exact hother (by rw [hheld, hsame])
    · rw [hheld]
      refine iff_of_false nofun ?_
      rintro ⟨hsame, hne⟩
      cases hsame
      exact hne rfl
  · cases hs

theorem inv_step {s s' : StoppingServer} {a : StopAct} (h : s.Inv) (hs : s.step a = some s')
    (hexclusive : s.Exclusive a) : s'.Inv := by
  cases a with
  | openSocket fd =>
    simp only [step] at hs
    split at hs
    · cases hs
    · rename_i hcond
      cases hs
      exact inv_openSocket h fun hmem => hcond (.inr hmem)
  | closeSocket fd =>
    simp only [step] at hs
    split at hs
    · rename_i hother
      cases hs
      exact inv_closeSocket h hother
    · cases hs
  | accept fd configured kevent => exact inv_accept h hs
  | addConnection => exact inv_addConnection h hexclusive hs
  | getSession fd => exact inv_getSession h hexclusive hs
  | reactorStep kevent => exact inv_reactorStep h hs
  | getConnectionFds clientFds => exact inv_getConnectionFds h hexclusive hs
  | stopStep kevent => exact inv_stopStep h hs

/-- In a run in which the two threads never go for the same client, every client is closed
once, by a call that hits nobody else. -/
theorem closesOnce_of_exclusive {as : List StopAct} {t : StoppingServer}
    (hrun : machine.run started as = some t)
    (hexclusive : machine.Every (fun s a _ => s.Exclusive a) started as) : t.ClosesOnce := by
  have ht : t.Inv := machine.run_invariant_of_every (I := Inv)
    (fun s a s' h hs hc => inv_step h hs hc) inv_started hexclusive hrun
  exact ht.closesOnce

def oneAfterTheOther : List StopAct :=
  [.accept 5 true none, .addConnection, .accept 6 true none, .addConnection, .getSession 5,
    .reactorStep none, .reactorStep none, .reactorStep none, .openSocket 5,
    .getConnectionFds [6], .stopStep none, .stopStep none, .stopStep none, .stopStep none]

theorem closesOnce_oneAfterTheOther :
    ∃ t, machine.run started oneAfterTheOther = some t ∧ t.ClosesOnce := by
  have hrun : machine.run started oneAfterTheOther = some _ := rfl
  exact ⟨_, hrun, closesOnce_of_exclusive hrun (machine.every_of_check (by decide))⟩

/-- `Stop` has listed the client when the reactor thread closes it. The number goes to
another socket, which `Stop` closes. -/
def listedThenClosed : List StopAct :=
  [.accept 5 true none, .addConnection, .getConnectionFds [5], .getSession 5, .reactorStep none,
    .reactorStep none, .reactorStep none, .openSocket 5, .stopStep none, .stopStep none,
    .stopStep none]

theorem listedThenClosed_hits_other :
    ¬ ∀ (as : List StopAct) (t : StoppingServer), machine.run started as = some t →
      t.ClosesOnce := by
  intro h
  have ht := h listedThenClosed _ rfl
  exact absurd (ht.once 0) (by decide)

end StoppingServer

end Lmnet.Darwin
