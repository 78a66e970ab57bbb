import Mathlib.Data.List.Perm.Basic
import Lmnet.Epoll.ServerLife
import Lmnet.Epoll.UdpReceive
import Lmnet.Posix.DescriptorBooks

/-!
The socket of a `UdpClientImpl` or `UdpServerImpl` of the epoll and kqueue backends: the
thread of the reactor in `DispatchEvent`, and any number of other threads in `Close` or
`Stop`. The members are read and taken under the object's mutex; between that and the
system calls other steps may come, and a number that is closed may be given out again.
-/

set_option autoImplicit false

namespace Lmnet.Reactor

open Epoll (EINTR File RecvReturn filesOf)
open Posix (DescriptorBooks)

/-- The client is the same in both backends; the servers differ in `HandleReceive`. -/
inductive UdpClass where
  | client | epollServer | kqueueServer
  deriving DecidableEq, Repr

inductive UdpReason where
  | connectionError
  | connectionClosed
  | errno (e : Int)
  deriving DecidableEq, Repr

/-- How far a call of `CloseInternal` or `CloseSocket` has got: it is to lock the mutex, it
has the socket, it has removed the handler, it has closed the socket. `notice` is the reason
the listener is to be told, and `file` what the number was. -/
inductive UdpClosing where
  | called (fd : Fd) (notice : Option UdpReason)
  | taken (fd : Fd) (handler : Bool) (notice : Option UdpReason)
  | removed (fd : Fd) (notice : Option UdpReason)
  | closed (file : Option File) (notice : Option UdpReason)
  deriving DecidableEq, Repr

def UdpClosing.held : UdpClosing → List Fd
  | .taken fd _ _ | .removed fd _ => [fd]
  | _ => []

/-- Where the reactor's thread is in `DispatchEvent`; `error` and `close` say which of
`HandleError` and `HandleClose` are still to be called. -/
inductive UdpDispatch where
  | idle
  | calls (fd : Fd) (error close : Bool)
  | receiving (fd : Fd) (error close : Bool)
  | closing (fd : Fd) (c : UdpClosing) (error close : Bool)
  deriving DecidableEq, Repr

def UdpDispatch.closing? : UdpDispatch → Option UdpClosing
  | .closing _ c _ _ => some c
  | _ => none

def UdpDispatch.held (d : UdpDispatch) : List Fd := d.closing?.toList.flatMap UdpClosing.held

@[simp] theorem UdpDispatch.held_closing (fd : Fd) (c : UdpClosing) (error close : Bool) :
    (UdpDispatch.closing fd c error close).held = c.held :=
  List.flatMap_singleton _ _

/-- A callback the client queues or the server makes; `file` is the socket behind the
number. -/
inductive UdpCallback where
  | onReceive (fd : Fd) (file : Option File) (data : List UInt8)
  | onClose (file : Option File) (reason : UdpReason)
  deriving DecidableEq, Repr

/-- `socket` is `socket_`, and `handler` says that there is a `clientHandler_` or
`serverHandler_`. `registered` are the numbers under which `handlers_` of the reactor has a
handler of this object, `listening` says that the listener has not gone, and `closers` are
the calls of `Close` and `Stop` under way. In `books` the sockets of this object are those
installed. -/
structure UdpSocket where
  books : DescriptorBooks
  socket : Fd
  handler : Bool
  registered : List Fd
  listening : Bool
  closers : List UdpClosing
  reactor : UdpDispatch
  callbacks : List UdpCallback

inductive UdpAct where
  | openFile (fd : Fd)
  | closeFile (fd : Fd)
  | listen (listening : Bool)
  | init (fd : Fd) (succeeds : Bool)
  | start (registers : Bool)
  | close
  | closer (i : Nat) (removes : Bool)
  | dispatchEvent (fd : Fd) (read error close : Bool)
  | recv (r : RecvReturn)
  | nextCall
  | reactorCloses (removes : Bool)
  deriving DecidableEq, Repr

namespace UdpSocket

def created : UdpSocket := ⟨.empty, invalidSocket, false, [], true, [], .idle, []⟩

def held (s : UdpSocket) : List Fd :=
  (if s.socket = invalidSocket then [] else [s.socket]) ++
    (s.closers.flatMap UdpClosing.held ++ s.reactor.held)

/-- Nobody else is at work on the object, nor can the reactor begin to. -/
def Alone (s : UdpSocket) : Prop := s.closers = [] ∧ s.reactor = .idle ∧ s.registered = []

instance (s : UdpSocket) : Decidable s.Alone := inferInstanceAs (Decidable (_ ∧ _ ∧ _))

/-- `Init`, which the application calls when the object has no socket and is left alone. The
client's registers the handler at its end; where anything fails the socket is closed. -/
def init (k : UdpClass) (s : UdpSocket) (fd : Fd) (succeeds : Bool) : Option UdpSocket :=
  if s.socket = invalidSocket ∧ s.Alone then
    (s.books.install [fd]).map fun books =>
      if !succeeds then { s with books := books.cleanup [fd] }
      else
        { s with
          books := books
          socket := fd
          handler := k == .client
          registered := if k = .client then [fd] else [] }
  else none

def start (k : UdpClass) (s : UdpSocket) (registers : Bool) : Option UdpSocket :=
  if k ≠ .client ∧ s.closers = [] then
    if s.socket = invalidSocket then some s
    else if registers ∧ s.socket ∉ s.registered then
      some { s with handler := true, registered := s.socket :: s.registered }
    else some { s with handler := false }
  else none

/-- One section of `CloseInternal` or `CloseSocket`; without a stage the call returns.
`removes` is what `RemoveHandler` answers. -/
def closeStep (s : UdpSocket) (c : UdpClosing) (removes : Bool) : Option UdpClosing × UdpSocket :=
  match c with
  | .called fd notice =>
      if s.socket = invalidSocket ∨ (fd ≠ invalidSocket ∧ s.socket ≠ fd) then (none, s)
      else
        (some (.taken s.socket s.handler notice),
          { s with socket := invalidSocket, handler := false })
  | .taken fd handler notice =>
      (some (.removed fd notice),
        if handler ∧ removes then { s with registered := s.registered.filter (· ≠ fd) } else s)
  | .removed fd notice =>
      (some (.closed (s.books.table.lookup fd) notice), { s with books := s.books.cleanup [fd] })
  | .closed file notice =>
      match notice with
      | some reason =>
          if s.listening then
            (none, { s with callbacks := s.callbacks ++ [.onClose file reason] })
          else (none, s)
      | none => (none, s)

/-- `Close` reads `socket_` for its argument; `CloseSocket` has none. -/
def close (k : UdpClass) (s : UdpSocket) : UdpSocket :=
  let fd := if k = .client then s.socket else invalidSocket
  { s with closers := s.closers ++ [.called fd none] }

def closer (s : UdpSocket) (i : Nat) (removes : Bool) : Option UdpSocket :=
  s.closers[i]?.map fun c =>
    match s.closeStep c removes with
    | (some next, t) => { t with closers := s.closers.set i next }
    | (none, t) => { t with closers := s.closers.eraseIdx i }

/-- The reactor finds a handler of the object. Both backends call `HandleRead` before the
others. -/
def dispatchEvent (s : UdpSocket) (fd : Fd) (read error close : Bool) : Option UdpSocket :=
  if s.reactor = .idle ∧ fd ∈ s.registered then
    some { s with
      reactor := if read then .receiving fd error close else .calls fd error close }
  else none

def recv (k : UdpClass) (s : UdpSocket) (r : RecvReturn) : Option UdpSocket :=
  match s.reactor with
  | .receiving fd error close =>
      let goOn := s.reactor
      let done := UdpDispatch.calls fd error close
      match r with
      | .bytes data =>
          some { s with
            callbacks := s.callbacks ++
              if s.listening then [.onReceive fd (s.books.table.lookup fd) data] else []
            reactor := if k = .kqueueServer then done else goOn }
      | .disconnect => some { s with reactor := done }
      | .error errno =>
          if errno = EAGAIN then some { s with reactor := done }
          else
            match k with
            | .client =>
                let c := UdpClosing.called fd (some (.errno errno))
                some { s with reactor := .closing fd c error close }
            | .epollServer => some { s with reactor := if errno = EINTR then goOn else done }
            | .kqueueServer => some { s with reactor := done }
  | _ => none

/-- `HandleError` and `HandleClose`, which do nothing in a server. -/
def nextCall (k : UdpClass) (s : UdpSocket) : Option UdpSocket :=
  match s.reactor with
  | .calls fd true close =>
      let c := UdpClosing.called fd (some .connectionError)
      some { s with
        reactor := if k = .client then .closing fd c false close else .calls fd false close }
  | .calls fd false true =>
      let c := UdpClosing.called fd (some .connectionClosed)
      some { s with
        reactor := if k = .client then .closing fd c false false else .calls fd false false }
  | .calls _ false false => some { s with reactor := .idle }
  | _ => none

def reactorCloses (s : UdpSocket) (removes : Bool) : Option UdpSocket :=
  match s.reactor with
  | .closing fd c error close =>
      match s.closeStep c removes with
      | (some next, t) => some { t with reactor := .closing fd next error close }
      | (none, t) => some { t with reactor := .calls fd error close }
  | _ => none

/-- Other code closes no socket of this object. -/
def step (k : UdpClass) (s : UdpSocket) : UdpAct → Option UdpSocket
  | .openFile fd => (s.books.openFd fd).map fun books => { s with books := books }
  | .closeFile fd => if fd ∈ s.held then none else some { s with books := s.books.closeFd fd }
  | .listen listening => some { s with listening := listening }
  | .init fd succeeds => s.init k fd succeeds
  | .start registers => s.start k registers
  | .close => some (s.close k)
  | .closer i removes => s.closer i removes
  | .dispatchEvent fd read error close => s.dispatchEvent fd read error close
  | .recv r => s.recv k r
  | .nextCall => s.nextCall k
  | .reactorCloses removes => s.reactorCloses removes

def machine (k : UdpClass) : Machine UdpSocket UdpAct where
  init s := s = created
  step := step k

def closedFiles (callbacks : List UdpCallback) : List (Option File) :=
  callbacks.filterMap fun
    | .onClose file _ => some file
    | .onReceive _ _ _ => none

theorem closedFiles_append (l l' : List UdpCallback) :
    closedFiles (l ++ l') = closedFiles l ++ closedFiles l' :=
  List.filterMap_append

end UdpSocket

def UdpClosing.notice : UdpClosing → Option UdpReason
  | .called _ notice | .taken _ _ notice | .removed _ notice | .closed _ notice => notice

def UdpClosing.closedFile : UdpClosing → List (Option File)
  | .closed file _ => [file]
  | _ => []

def UdpDispatch.closedFile (d : UdpDispatch) : List (Option File) :=
  d.closing?.toList.flatMap UdpClosing.closedFile

namespace UdpSocket

def socketFds (s : UdpSocket) : List Fd := if s.socket = invalidSocket then [] else [s.socket]

structure Inv (s : UdpSocket) : Prop where
  balanced : s.books.Balanced s.held
  unhanded : s.books.handed = []
  quiet : ∀ c ∈ s.closers, c.notice = none
  told : (closedFiles s.callbacks ++ s.reactor.closedFile).Sublist (s.books.closed.map some)

theorem created_inv : created.Inv where
  balanced := Posix.DescriptorBooks.empty_balanced
  unhanded := rfl
  quiet _ hc := nomatch hc
  told := List.Sublist.refl _

variable {k : UdpClass} {s t : UdpSocket}

theorem closers_perm {l : List UdpClosing} {i : Nat} {c : UdpClosing} (h : l[i]? = some c) :
    l.Perm (c :: l.eraseIdx i) := by
  obtain ⟨hlt, rfl⟩ := List.getElem?_eq_some_iff.mp h
  exact (List.getElem_cons_eraseIdx_perm hlt).symm

theorem closers_set_perm {l : List UdpClosing} {i : Nat} {c next : UdpClosing}
    (h : l[i]? = some c) : (l.set i next).Perm (next :: l.eraseIdx i) := by
  obtain ⟨hlt, -⟩ := List.getElem?_eq_some_iff.mp h
  have hset : (l.set i next)[i]? = some next := by simp [hlt]
  simpa [List.eraseIdx_set_eq] using closers_perm hset

structure Closes (s : UdpSocket) (c : UdpClosing) (next : Option UdpClosing) (t : UdpSocket) :
    Prop where
  balanced : ∀ rest, s.books.Balanced (s.socketFds ++ (c.held ++ rest)) →
    t.books.Balanced (t.socketFds ++ (next.toList.flatMap UdpClosing.held ++ rest))
  handed : t.books.handed = s.books.handed
  notice : ∀ d ∈ next, d.notice = c.notice
  closed : s.books.closed.Sublist t.books.closed
  quiet : c.notice = none → t.callbacks = s.callbacks
  told : (closedFiles s.callbacks ++ c.closedFile).Sublist (s.books.closed.map some) →
    (closedFiles t.callbacks ++ next.toList.flatMap UdpClosing.closedFile).Sublist
      (t.books.closed.map some)

theorem closeStep_others (s : UdpSocket) (c : UdpClosing) (removes : Bool) :
    (s.closeStep c removes).2.closers = s.closers ∧
      (s.closeStep c removes).2.reactor = s.reactor := by
  cases c with
  | called fd notice | taken fd handler notice =>
    simp only [closeStep]
    split <;> exact ⟨rfl, rfl⟩
  | removed fd notice => exact ⟨rfl, rfl⟩
  | closed file notice =>
    cases notice with
    | none => exact ⟨rfl, rfl⟩
    | some reason =>
      simp only [closeStep]
      split <;> exact ⟨rfl, rfl⟩

theorem closes (s : UdpSocket) (c : UdpClosing) (removes : Bool)
    (h : ∀ fd notice, c = .removed fd notice → 0 ≤ fd ∧ (s.books.table.lookup fd).isSome) :
    s.Closes c (s.closeStep c removes).1 (s.closeStep c removes).2 := by
  cases c with
  | called fd notice =>
    simp only [closeStep]
    split
    · exact ⟨fun _ hb => hb, rfl, by simp, List.Sublist.refl _, fun _ => rfl,
        by simp [UdpClosing.closedFile]⟩
    · rename_i hnot
      have hsocket : s.socket ≠ invalidSocket := fun he => hnot (.inl he)
      refine ⟨fun rest hb => ?_, rfl, fun d hd => ?_, List.Sublist.refl _, fun _ => rfl, id⟩
      · have hfds : s.socketFds = [s.socket] := if_neg hsocket
        rw [hfds] at hb
        exact hb
      · cases hd
        rfl
  | taken fd handler notice =>
    simp only [closeStep]
    split <;>
    · exact ⟨fun _ hb => hb, rfl, fun d hd => by cases hd; rfl, List.Sublist.refl _,
        fun _ => rfl, id⟩
  | removed fd notice =>
    obtain ⟨hpos, hopen⟩ := h fd notice rfl
    obtain ⟨file, hfile⟩ := Option.isSome_iff_exists.mp hopen
    have hclean : cleanupFds [fd] = [fd] :=
      cleanupFds_eq fun x hx => (List.mem_singleton.mp hx) ▸ hpos
    have hclosed : (s.books.cleanup [fd]).closed = s.books.closed ++ [file] := by
      simp [DescriptorBooks.cleanup, hclean, filesOf, hfile]
    refine ⟨fun rest hb => ?_, rfl, fun d hd => by cases hd; rfl, ?_, fun _ => rfl,
      fun htold => ?_⟩
    · have hperm := List.perm_append_comm_assoc s.socketFds [fd] rest
      exact (hb.perm hperm).cleanup
    · exact hclosed ▸ List.sublist_append_left _ _
    · have hbefore : (closedFiles s.callbacks).Sublist (s.books.closed.map some) := by
        simpa [UdpClosing.closedFile] using htold
      simp only [closeStep, Option.toList_some, List.flatMap_singleton, hclosed, hfile,
        UdpClosing.closedFile, List.map_append, List.map_singleton]
      exact hbefore.append (List.Sublist.refl _)
  | closed file notice =>
    have hleft : ∀ {files : List (Option File)},
        (files ++ [file]).Sublist (s.books.closed.map some) →
          files.Sublist (s.books.closed.map some) :=
      fun hsub => (List.sublist_append_left _ _).trans hsub
    cases notice with
    | none =>
      exact ⟨fun _ hb => hb, rfl, by simp [closeStep], List.Sublist.refl _, fun _ => rfl,
        fun htold => by simpa [closeStep] using hleft htold⟩
    | some reason =>
      simp only [closeStep]
      split
      · refine ⟨fun _ hb => hb, rfl, by simp, List.Sublist.refl _,
          by simp [UdpClosing.notice], fun htold => ?_⟩
        have hone : closedFiles [.onClose file reason] = [file] := rfl
        simpa [closedFiles_append, hone, UdpClosing.closedFile] using htold
      · exact ⟨fun _ hb => hb, rfl, by simp, List.Sublist.refl _, fun _ => rfl,
          fun htold => by simpa using hleft htold⟩

theorem Inv.open_of_removed (h : s.Inv) {c : UdpClosing} (hc : c.held ⊆ s.held) (fd : Fd)
    (notice : Option UdpReason) (he : c = .removed fd notice) :
    0 ≤ fd ∧ (s.books.table.lookup fd).isSome := by
  subst he
  have hfd := hc (List.mem_singleton.mpr rfl)
  exact ⟨h.balanced.fds.nonneg fd hfd, h.balanced.fds.isOpen fd hfd⟩

theorem Inv.of_same (h : s.Inv) (hbooks : t.books = s.books) (hsocket : t.socket = s.socket)
    (hclosers : t.closers = s.closers) (hheld : t.reactor.held = s.reactor.held)
    (hfiles : t.reactor.closedFile = s.reactor.closedFile)
    (hcallbacks : closedFiles t.callbacks = closedFiles s.callbacks) : t.Inv where
  balanced := by
    rw [held, hbooks, hsocket, hclosers, hheld]
    exact h.balanced
  unhanded := hbooks ▸ h.unhanded
  quiet := hclosers ▸ h.quiet
  told := by
    rw [hbooks, hcallbacks, hfiles]
    exact h.told

theorem same_of_no_closing {d d' : UdpDispatch} (h : d.closing? = none) (h' : d'.closing? = none) :
    d'.held = d.held ∧ d'.closedFile = d.closedFile := by
  simp [UdpDispatch.held, UdpDispatch.closedFile, h, h']

theorem install_one {books : DescriptorBooks} {fd : Fd} (h : s.books.install [fd] = some books) :
    0 ≤ fd ∧ books.installed = s.books.installed ++ [s.books.opened] ∧
      books.handed = s.books.handed ∧ books.closed = s.books.closed := by
  simp only [DescriptorBooks.install, DescriptorBooks.openFd] at h
  split at h
  · rename_i hnew
    cases h
    exact ⟨hnew.1, rfl, rfl, rfl⟩
  · cases h

theorem Inv.init (h : s.Inv) {fd : Fd} {succeeds : Bool} (hs : s.init k fd succeeds = some t) :
    t.Inv := by
  unfold UdpSocket.init at hs
  split at hs
  · rename_i hfree
    obtain ⟨books, hinstall, rfl⟩ := Option.map_eq_some_iff.mp hs
    have hopened := (h.balanced.install hinstall).1
    obtain ⟨hpos, -, hhanded, hclosed⟩ := install_one hinstall
    split
    · refine ⟨hopened.cleanup, hhanded.trans h.unhanded, h.quiet, h.told.trans ?_⟩
      rw [← hclosed]
      exact (List.sublist_append_left _ _).map some
    · refine ⟨?_, hhanded.trans h.unhanded, h.quiet, ?_⟩
      · have hvalid : fd ≠ invalidSocket := by
          rintro rfl
          exact absurd hpos (by decide)
        have hsocket : s.held = s.closers.flatMap UdpClosing.held ++ s.reactor.held := by
          rw [held, if_pos hfree.1]
          rfl
        rw [hsocket] at hopened
        rw [held, if_neg hvalid]
        exact hopened
      · rw [hclosed]
        exact h.told
  · cases hs

theorem Inv.closer (h : s.Inv) {i : Nat} {removes : Bool} (hs : s.closer i removes = some t) :
    t.Inv := by
  obtain ⟨c, hc, hs⟩ := Option.map_eq_some_iff.mp hs
  have hperm : (s.closers.flatMap UdpClosing.held).Perm
      (c.held ++ (s.closers.eraseIdx i).flatMap UdpClosing.held) :=
    (closers_perm hc).flatMap_right UdpClosing.held
  have hsub : c.held ⊆ s.held := fun x hx => by
    refine List.mem_append_right _ (List.mem_append_left _ ?_)
    exact hperm.symm.subset (List.mem_append_left _ hx)
  have hcloses := s.closes c removes (h.open_of_removed hsub)
  have hnone := h.quiet c (List.mem_of_getElem? hc)
  have hbefore : s.books.Balanced (s.socketFds ++ (c.held ++
      ((s.closers.eraseIdx i).flatMap UdpClosing.held ++ s.reactor.held))) := by
    refine h.balanced.perm ?_
    rw [held, ← List.append_assoc c.held]
    exact (hperm.append_right _).append_left _
  have hafter := hcloses.balanced _ hbefore
  obtain ⟨hclosers, hreactor⟩ := s.closeStep_others c removes
  have htold : ∀ u : UdpSocket, u.books = (s.closeStep c removes).2.books →
      u.callbacks = s.callbacks → u.reactor = s.reactor →
      (closedFiles u.callbacks ++ u.reactor.closedFile).Sublist (u.books.closed.map some) := by
    intro u hbooks hcallbacks hsame
    rw [hbooks, hcallbacks, hsame]
    exact h.told.trans (hcloses.closed.map some)
  have hcallbacks := hcloses.quiet hnone
  have hnotice := hcloses.notice
  have hhanded := hcloses.handed.trans h.unhanded
  split at hs
  · rename_i next u hstep
    cases hs
    rw [hstep] at hafter hclosers hreactor hcallbacks hnotice hhanded htold
    dsimp only at hclosers hreactor hcallbacks
    refine ⟨hafter.perm ?_, hhanded, fun d hd => ?_, htold _ rfl hcallbacks hreactor⟩
    · simp only [held, socketFds, hreactor, Option.toList_some, List.flatMap_singleton]
      rw [← List.append_assoc next.held]
      have hset : ((s.closers.set i next).flatMap UdpClosing.held).Perm
          (next.held ++ (s.closers.eraseIdx i).flatMap UdpClosing.held) :=
        (closers_set_perm hc).flatMap_right UdpClosing.held
      exact (hset.symm.append_right _).append_left _
    · obtain hd | rfl := List.mem_or_eq_of_mem_set hd
      · exact h.quiet d hd
      · exact (hnotice d rfl).trans hnone
  · rename_i u hstep
    cases hs
    rw [hstep] at hafter hclosers hreactor hcallbacks hnotice hhanded htold
    dsimp only at hclosers hreactor hcallbacks
    refine ⟨hafter.perm ?_, hhanded, fun d hd => h.quiet d (List.mem_of_mem_eraseIdx hd),
      htold _ rfl hcallbacks hreactor⟩
    simp only [held, socketFds, hreactor, Option.toList_none, List.flatMap_nil, List.nil_append]
    exact List.Perm.refl _

theorem Inv.reactorCloses (h : s.Inv) {removes : Bool}
    (hs : s.reactorCloses removes = some t) : t.Inv := by
  unfold UdpSocket.reactorCloses at hs
  split at hs
  · rename_i fd c error close hreactor
    have hheld : s.reactor.held = c.held := by rw [hreactor, UdpDispatch.held_closing]
    have hfile : s.reactor.closedFile = c.closedFile := by
      rw [hreactor]
      exact List.flatMap_singleton _ _
    have hsub : c.held ⊆ s.held := fun x hx => by
      refine List.mem_append_right _ (List.mem_append_right _ ?_)
      rw [hheld]
      exact hx
    have hcloses := s.closes c removes (h.open_of_removed hsub)
    have hbefore : s.books.Balanced (s.socketFds ++
        (c.held ++ s.closers.flatMap UdpClosing.held)) := by
      refine h.balanced.perm ?_
      rw [held, hheld]
      exact List.perm_append_comm.append_left _
    have hafter := hcloses.balanced _ hbefore
    have htold := hcloses.told (hfile ▸ h.told)
    obtain ⟨hclosers, -⟩ := s.closeStep_others c removes
    have hhanded := hcloses.handed.trans h.unhanded
    split at hs
    · rename_i next u hstep
      cases hs
      rw [hstep] at hafter htold hclosers hhanded
      dsimp only at hclosers
      refine ⟨hafter.perm ?_, hhanded, hclosers ▸ h.quiet, htold⟩
      simp only [held, socketFds, hclosers, Option.toList_some, List.flatMap_singleton,
        UdpDispatch.held_closing]
      exact List.perm_append_comm.append_left _
    · rename_i u hstep
      cases hs
      rw [hstep] at hafter htold hclosers hhanded
      dsimp only at hclosers
      refine ⟨hafter.perm ?_, hhanded, hclosers ▸ h.quiet, htold⟩
      simp only [held, socketFds, hclosers, Option.toList_none, List.flatMap_nil]
      exact List.perm_append_comm.append_left _
  · cases hs

theorem Inv.recv (h : s.Inv) {r : RecvReturn} (hs : s.recv k r = some t) : t.Inv := by
  unfold UdpSocket.recv at hs
  split at hs
  · rename_i fd error close hreactor
    have hnone : s.reactor.closing? = none := by rw [hreactor]; rfl
    have hover : (UdpDispatch.calls fd error close).closing? = none := rfl
    have hnext : ∀ {d : UdpDispatch}, d.closing? = none →
        ({ s with reactor := d } : UdpSocket).Inv := fun hd =>
      h.of_same rfl rfl rfl (same_of_no_closing hnone hd).1 (same_of_no_closing hnone hd).2 rfl
    cases r with
    | bytes data =>
      cases hs
      have hd : (if k = .kqueueServer then UdpDispatch.calls fd error close
          else s.reactor).closing? = none := by
        split
        · exact hover
        · exact hnone
      refine h.of_same rfl rfl rfl (same_of_no_closing hnone hd).1
        (same_of_no_closing hnone hd).2 ?_
      cases hl : s.listening <;> simp [closedFiles]
    | disconnect =>
      cases hs
      exact hnext hover
    | error errno =>
      dsimp only at hs
      split at hs
      · cases hs
        exact hnext hover
      · cases k with
        | client =>
          cases hs
          exact h.of_same rfl rfl rfl (by rw [hreactor]; rfl) (by rw [hreactor]; rfl) rfl
        | kqueueServer =>
          cases hs
          exact hnext hover
        | epollServer =>
          cases hs
          refine hnext ?_
          split
          · exact hnone
          · exact hover
  · cases hs

theorem Inv.nextCall (h : s.Inv) (hs : s.nextCall k = some t) : t.Inv := by
  have hnext : ∀ {fd : Fd} {error close : Bool} {d : UdpDispatch},
      s.reactor = .calls fd error close → d.held = [] → d.closedFile = [] →
      ({ s with reactor := d } : UdpSocket).Inv := fun hreactor hheld hfile =>
    h.of_same rfl rfl rfl (hheld.trans (by rw [hreactor]; rfl))
      (hfile.trans (by rw [hreactor]; rfl)) rfl
  unfold UdpSocket.nextCall at hs
  split at hs
  · rename_i fd close hreactor
    cases hs
    split
    · exact hnext hreactor rfl rfl
    · exact hnext hreactor rfl rfl
  · rename_i fd hreactor
    cases hs
    split
    · exact hnext hreactor rfl rfl
    · exact hnext hreactor rfl rfl
  · rename_i fd hreactor
    cases hs
    exact hnext hreactor rfl rfl
  · cases hs

theorem Inv.step (h : s.Inv) {a : UdpAct} (hs : s.step k a = some t) : t.Inv := by
  cases a with
  | openFile fd =>
    obtain ⟨books, hopen, rfl⟩ := Option.map_eq_some_iff.mp hs
    obtain ⟨hhanded, hclosed⟩ : books.handed = s.books.handed ∧ books.closed = s.books.closed := by
      unfold DescriptorBooks.openFd at hopen
      split at hopen
      · cases hopen
        exact ⟨rfl, rfl⟩
      · cases hopen
    exact ⟨h.balanced.openFd hopen, hhanded.trans h.unhanded, h.quiet, hclosed ▸ h.told⟩
  | closeFile fd =>
    simp only [UdpSocket.step] at hs
    split at hs
    · cases hs
    · rename_i hfree
      cases hs
      exact ⟨h.balanced.closeFd hfree, h.unhanded, h.quiet, h.told⟩
  | listen listening =>
    cases hs
    exact h.of_same rfl rfl rfl rfl rfl rfl
  | init fd succeeds => exact h.init hs
  | start registers =>
    simp only [UdpSocket.step, UdpSocket.start] at hs
    split at hs
    · split at hs
      · cases hs
        exact h
      · split at hs <;>
        · cases hs
          exact h.of_same rfl rfl rfl rfl rfl rfl
    · cases hs
  | close =>
    cases hs
    refine ⟨?_, h.unhanded, fun c hc => ?_, h.told⟩
    · have hclosers : (s.close k).closers.flatMap UdpClosing.held =
          s.closers.flatMap UdpClosing.held := by simp [UdpSocket.close, UdpClosing.held]
      rw [held, hclosers]
      exact h.balanced
    · obtain hc | hc := List.mem_append.mp hc
      · exact h.quiet c hc
      · rw [List.mem_singleton.mp hc]
        rfl
  | closer i removes => exact h.closer hs
  | dispatchEvent fd read error close =>
    simp only [UdpSocket.step, UdpSocket.dispatchEvent] at hs
    split at hs
    · rename_i hidle
      cases hs
      refine h.of_same rfl rfl rfl ?_ ?_ rfl <;>
      · rw [hidle.1]
        cases read <;> rfl
    · cases hs
  | recv r => exact h.recv hs
  | nextCall => exact h.nextCall hs
  | reactorCloses removes => exact h.reactorCloses hs

theorem inv_of_run {as : List UdpAct} (h : s.Inv) (hrun : (machine k).run s as = some t) :
    t.Inv :=
  (machine k).run_invariant (fun _ _ _ hs hstep => hs.step hstep) h hrun

/-- Every socket `Init` has opened is still to be closed or has been closed, once, no other is
closed, and the listener is told of a closed one at most once. -/
structure ClosedOnce (s : UdpSocket) : Prop where
  once : ∀ file ∈ s.books.installed,
    (filesOf s.books.table s.held).count file + s.books.closed.count file = 1
  own : s.books.closed ⊆ s.books.installed
  told : closedFiles s.callbacks ⊆ s.books.closed.map some
  toldOnce : (closedFiles s.callbacks).Nodup

theorem Inv.closed_nodup (h : s.Inv) : s.books.closed.Nodup := by
  refine List.nodup_iff_count_le_one.mpr fun file => ?_
  have htotal := h.balanced.total file
  have hinstalled := List.nodup_iff_count_le_one.mp h.balanced.fds.once file
  omega

theorem Inv.closedOnce (h : s.Inv) : s.ClosedOnce where
  once file hfile := by
    have honce := h.balanced.once hfile
    rw [h.unhanded, List.count_nil, Nat.add_zero] at honce
    exact honce
  own file hfile := by
    have hpos := List.count_pos_iff.mpr hfile
    have htotal := h.balanced.total file
    exact List.count_pos_iff.mp (by omega)
  told := ((List.sublist_append_left _ _).trans h.told).subset
  toldOnce := by
    have hclosed : (s.books.closed.map some).Nodup :=
      h.closed_nodup.map fun _ _ he => Option.some.inj he
    exact ((List.sublist_append_left _ _).trans h.told).nodup hclosed

/-- In every run of a client or a server a socket is closed once, whoever closes it: the
reactor's thread, or any of the threads in `Close` and `Stop`. -/
theorem udpSocket_closed_once {as : List UdpAct} (h : (machine k).run created as = some s) :
    s.ClosedOnce :=
  (inv_of_run created_inv h).closedOnce

/-- `recv` fails while another thread is about to close the socket; its number is given out
again before the listener is told. -/
def errorDuringClose : List UdpAct :=
  [.init 3 true, .close, .dispatchEvent 3 true true false, .recv (.bytes [1]),
    .recv (.error 111), .reactorCloses true, .closer 0 true, .reactorCloses true,
    .reactorCloses true, .openFile 3, .reactorCloses true, .nextCall, .reactorCloses true,
    .nextCall]

theorem udpSocket_closed_once_errorDuringClose :
    ∃ s, (machine .client).run created errorDuringClose = some s ∧
      (s.books.closed = [0] ∧ s.callbacks = [.onReceive 3 (some 0) [1],
        .onClose (some 0) (.errno 111)]) ∧ s.ClosedOnce := by
  have hrun : (machine .client).run created errorDuringClose = some _ := rfl
  exact ⟨_, hrun, by decide, udpSocket_closed_once hrun⟩

end UdpSocket

end Lmnet.Reactor
