import Lmnet.Darwin.TcpClient

/-!
What one `kevent` batch does to a connection whose peer has sent data and closed: the
dispatches of its filters in the order of the batch, in the servers and in the clients.
-/

set_option autoImplicit false

namespace Lmnet.Darwin

open Lmnet.Epoll (Reason RecvReturn getEvents)

def ENOTCONN : Int := 57
def ETIMEDOUT : Int := 60

inductive EndpointClass where
  | tcpServer | unixServer | tcpClient | unixClient
  deriving DecidableEq, Repr

def EndpointClass.onRecvError : EndpointClass → Int → Option (Option Reason)
  | .tcpServer, errno =>
      if errno = EAGAIN then none
      else if errno = EBADF ∨ errno = ENOTCONN then some none
      else some (some (.errno errno))
  | .unixServer, errno =>
      if errno = EAGAIN then none
      else if errno = EBADF ∨ errno = ENOTCONN then some none
      else if errno = ETIMEDOUT then none
      else some (some (.errno errno))
  | .tcpClient, errno | .unixClient, errno =>
      if errno = EAGAIN then none else some (some (.errno errno))

inductive EndpointTask where
  | receive (data : List UInt8)
  | close (error : Option Reason)
  deriving DecidableEq, Repr

/-- An entry of the batch; the other fields of `struct kevent` go into log lines. -/
structure KEvent where
  filter : Filter
  flags : Nat
  deriving DecidableEq, Repr

/-- A connection. `known`: `sessions_` has the number, or `socket_` is it. `buffer` is what
the kernel has received for it. -/
structure Endpoint where
  fd : Fd
  reactor : EventReactor Unit
  known : Bool
  isOpen : Bool
  buffer : List UInt8
  tasks : List EndpointTask

namespace Endpoint

def connected (fd : Fd) (buffer : List UInt8) (writeEventsEnabled : Bool) : Endpoint where
  fd := fd
  reactor := ⟨true, AList.insert fd () ∅,
    AList.insert fd (normalizeEventsForKqueue (getEvents writeEventsEnabled)) ∅⟩
  known := true
  isOpen := true
  buffer := buffer
  tasks := []

def enqueueTask (s : Endpoint) (task : EndpointTask) : Endpoint :=
  { s with tasks := s.tasks ++ [task] }

/-- `kevent` is what the call in `RemoveHandler` returns. -/
def handleConnectionClose (s : Endpoint) (error : Option Reason) (kevent : Option Int) :
    Endpoint :=
  if s.known then
    { s with
      known := false
      reactor := (s.reactor.removeHandler s.fd kevent).1
      isOpen := false }.enqueueTask (.close error)
  else s

/-- The kernel hands out what it has received before it reports an end or an error. -/
def receiveLoop (k : EndpointClass) (kevent : Option Int) (s : Endpoint) :
    List RecvReturn → Option Endpoint
  | .bytes data :: rs =>
      if data ≠ [] ∧ data <+: s.buffer then
        ({ s with buffer := s.buffer.drop data.length }.enqueueTask (.receive data)).receiveLoop
          k kevent rs
      else none
  | [.disconnect] => if s.buffer = [] then some s else none
  | [.error errno] =>
      if s.buffer = [] then
        match k.onRecvError errno with
        | none => some s
        | some error => some (s.handleConnectionClose error kevent)
      else none
  | _ => none

def handleReceive (k : EndpointClass) (s : Endpoint) (rs : List RecvReturn)
    (kevent : Option Int) : Option Endpoint :=
  if s.known then s.receiveLoop k kevent rs else some s

/-- `ProcessSendQueue`, which `HandleWrite` calls, neither reads nor closes. -/
def dispatchEvent (k : EndpointClass) (s : Endpoint) (event : KEvent) (rs : List RecvReturn)
    (kevent : Option Int) : Option Endpoint :=
  let s :=
    if event.flags &&& EV_ERROR ≠ 0 then s.handleConnectionClose (some .connectionError) kevent
    else s
  (if event.flags &&& EV_ERROR = 0 ∧ event.filter = .read then s.handleReceive k rs kevent
    else some s).map fun s =>
      if event.flags &&& EV_EOF ≠ 0 then s.handleConnectionClose none kevent else s

/-- The part of the loop of `Run` that is about this connection, with what `recv` and the
`kevent` of `RemoveHandler` return for each entry. -/
def runBatch (k : EndpointClass) (s : Endpoint) :
    List (KEvent × List RecvReturn × Option Int) → Option Endpoint
  | [] => some s
  | (event, rs, kevent) :: batch =>
      match s.reactor.handlers.lookup s.fd with
      | none => s.runBatch k batch
      | some () => (s.dispatchEvent k event rs kevent).bind fun s => s.runBatch k batch

/-- Before the calls for its end stand the data, all of it. -/
def DataFirst (data : List UInt8) (tasks : List EndpointTask) : Prop :=
  ∀ error, EndpointTask.close error ∈ tasks →
    ∃ chunks : List (List UInt8), tasks = chunks.map .receive ++ [.close error] ∧
      chunks.flatten = data

/-- The first entry that reads or closes reads. -/
def readsFirst : List KEvent → Bool
  | [] => true
  | event :: batch =>
      if event.flags &&& EV_ERROR ≠ 0 then false
      else if event.filter = .read then true
      else if event.flags &&& EV_EOF ≠ 0 then false
      else readsFirst batch

def Live (data : List UInt8) (s : Endpoint) : Prop :=
  s.known = true ∧ s.reactor.handlers.lookup s.fd = some () ∧
    ∃ chunks : List (List UInt8), s.tasks = chunks.map .receive ∧
      chunks.flatten ++ s.buffer = data

def Over (data left : List UInt8) (s : Endpoint) : Prop :=
  s.known = false ∧ ∃ (chunks : List (List UInt8)) (error : Option Reason),
    s.tasks = chunks.map .receive ++ [.close error] ∧ chunks.flatten ++ left = data

theorem live_connected (fd : Fd) (data : List UInt8) (writeEventsEnabled : Bool) :
    (connected fd data writeEventsEnabled).Live data :=
  ⟨rfl, AList.lookup_insert _, [], rfl, rfl⟩

theorem Live.handleConnectionClose {data : List UInt8} {s : Endpoint} (h : s.Live data)
    (error : Option Reason) (kevent : Option Int) :
    (s.handleConnectionClose error kevent).Over data s.buffer := by
  obtain ⟨hknown, -, chunks, htasks, hdata⟩ := h
  unfold Endpoint.handleConnectionClose
  rw [if_pos hknown]
  exact ⟨rfl, chunks, error, by simp [enqueueTask, htasks], hdata⟩

theorem Over.handleConnectionClose {data left : List UInt8} {s : Endpoint}
    (h : s.Over data left) (error : Option Reason) (kevent : Option Int) :
    s.handleConnectionClose error kevent = s := by
  simp [Endpoint.handleConnectionClose, h.1]

theorem Over.dataFirst_iff {data left : List UInt8} {s : Endpoint} (h : s.Over data left) :
    DataFirst data s.tasks ↔ left = [] := by
  obtain ⟨-, chunks, error, htasks, hdata⟩ := h
  constructor
  · intro hfirst
    obtain ⟨chunks', htasks', hdata'⟩ := hfirst error (by simp [htasks])
    rw [htasks] at htasks'
    have hmap := List.append_cancel_right htasks'
    have hsame : chunks = chunks' := by
      refine List.map_injective_iff.mpr (fun a b hab => ?_) hmap
      simpa using hab
    rw [← hdata', ← hsame] at hdata
    simpa using hdata
  · rintro rfl error' hmem
    have hlast : error' = error := by
      rw [htasks] at hmem
      simpa using hmem
    subst hlast
    exact ⟨chunks, htasks, by simpa using hdata⟩

theorem receiveLoop_spec {k : EndpointClass} {kevent : Option Int} {data : List UInt8}
    {s s' : Endpoint} {rs : List RecvReturn} (h : s.Live data)
    (hs : s.receiveLoop k kevent rs = some s') :
    (s'.Live data ∧ s'.buffer = []) ∨ s'.Over data [] := by
  induction rs generalizing s with
  | nil => simp [receiveLoop] at hs
  | cons r rs ih =>
    cases r with
    | bytes bytes =>
      simp only [receiveLoop] at hs
      split at hs
      · rename_i hbytes
        refine ih ?_ hs
        obtain ⟨hknown, hhandler, chunks, htasks, hdata⟩ := h
        refine ⟨hknown, hhandler, chunks ++ [bytes], by simp [enqueueTask, htasks], ?_⟩
        obtain ⟨rest, hrest⟩ := hbytes.2
        rw [← hrest] at hdata
        simpa [enqueueTask, ← hrest] using hdata
      · cases hs
    | disconnect =>
      cases rs with
      | nil =>
        simp only [receiveLoop] at hs
        split at hs
        · rename_i hempty
          cases hs
          exact .inl ⟨h, hempty⟩
        · cases hs
      | cons r rs => simp [receiveLoop] at hs
    | error errno =>
      cases rs with
      | nil =>
        simp only [receiveLoop] at hs
        split at hs
        · rename_i hempty
          split at hs
          · cases hs
            exact .inl ⟨h, hempty⟩
          · rename_i error _
            cases hs
            have hclose := h.handleConnectionClose error kevent
            rw [hempty] at hclose
            exact .inr hclose
        · cases hs
      | cons r rs => simp [receiveLoop] at hs

/-- What a dispatch makes of a connection that is up: it is up still, or was closed when
`left` had not been read. -/
theorem dispatchEvent_spec {k : EndpointClass} {event : KEvent} {kevent : Option Int}
    {data : List UInt8} {s s' : Endpoint} {rs : List RecvReturn} (h : s.Live data)
    (hs : s.dispatchEvent k event rs kevent = some s') :
    if event.flags &&& EV_ERROR ≠ 0 then s'.Over data s.buffer
    else if event.filter = .read then (s'.Live data ∧ s'.buffer = []) ∨ s'.Over data []
    else if event.flags &&& EV_EOF ≠ 0 then s'.Over data s.buffer
    else s' = s := by
  unfold dispatchEvent at hs
  obtain ⟨t, hread, rfl⟩ := Option.map_eq_some_iff.mp hs
  by_cases herror : event.flags &&& EV_ERROR ≠ 0
  · rw [if_pos herror]
    have hover := h.handleConnectionClose (some .connectionError) kevent
    simp only [if_pos herror] at hread
    rw [if_neg fun hboth => herror hboth.1] at hread
    cases hread
    split
    · rw [hover.handleConnectionClose]
      exact hover
    · exact hover
  · rw [if_neg herror]
    simp only [if_neg herror] at hread
    by_cases hfilter : event.filter = .read
    · rw [if_pos ⟨not_not.mp herror, hfilter⟩, handleReceive, if_pos h.1] at hread
      rw [if_pos hfilter]
      rcases receiveLoop_spec h hread with ⟨hlive, hempty⟩ | hover
      · split
        · have hclose := hlive.handleConnectionClose none kevent
          rw [hempty] at hclose
          exact .inr hclose
        · exact .inl ⟨hlive, hempty⟩
      · right
        split
        · rw [hover.handleConnectionClose]
          exact hover
        · exact hover
    · rw [if_neg fun hboth => hfilter hboth.2] at hread
      cases hread
      rw [if_neg hfilter]
      split
      · exact h.handleConnectionClose none kevent
      · rfl

theorem Over.dispatchEvent {k : EndpointClass} {event : KEvent} {kevent : Option Int}
    {data left : List UInt8} {s s' : Endpoint} {rs : List RecvReturn} (h : s.Over data left)
    (hs : s.dispatchEvent k event rs kevent = some s') : s' = s := by
  unfold Endpoint.dispatchEvent at hs
  obtain ⟨t, hread, rfl⟩ := Option.map_eq_some_iff.mp hs
  have hsame : t = s := by
    simp only [h.handleConnectionClose, ite_self, handleReceive, h.1, Bool.false_eq_true,
      if_false] at hread
    exact (Option.some.inj hread).symm
  rw [hsame, h.handleConnectionClose, ite_self]

theorem Over.runBatch {k : EndpointClass} {data left : List UInt8} {s s' : Endpoint}
    {batch : List (KEvent × List RecvReturn × Option Int)} (h : s.Over data left)
    (hs : s.runBatch k batch = some s') : s' = s := by
  induction batch with
  | nil =>
    cases hs
    rfl
  | cons entry batch ih =>
    obtain ⟨event, rs, kevent⟩ := entry
    simp only [Endpoint.runBatch] at hs
    split at hs
    · exact ih hs
    · obtain ⟨t, hdispatch, hrest⟩ := Option.bind_eq_some_iff.mp hs
      rw [h.dispatchEvent hdispatch] at hrest
      exact ih hrest

theorem Live.dataFirst {data : List UInt8} {s : Endpoint} (h : s.Live data) :
    DataFirst data s.tasks := by
  obtain ⟨-, -, chunks, htasks, -⟩ := h
  intro error hmem
  simp [htasks] at hmem

theorem Live.runBatch {k : EndpointClass} {data : List UInt8} {s s' : Endpoint}
    {batch : List (KEvent × List RecvReturn × Option Int)} (h : s.Live data)
    (hs : s.runBatch k batch = some s') :
    DataFirst data s'.tasks ↔ s.buffer = [] ∨ readsFirst (batch.map Prod.fst) = true := by
  induction batch generalizing s with
  | nil =>
    cases hs
    exact iff_of_true h.dataFirst (.inr rfl)
  | cons entry batch ih =>
    obtain ⟨event, rs, kevent⟩ := entry
    simp only [Endpoint.runBatch, h.2.1] at hs
    obtain ⟨t, hdispatch, hrest⟩ := Option.bind_eq_some_iff.mp hs
    have hspec := dispatchEvent_spec h hdispatch
    have hover : ∀ left, t.Over data left → (DataFirst data s'.tasks ↔ left = []) := by
      intro left hleft
      rw [hleft.runBatch hrest]
      exact hleft.dataFirst_iff
    simp only [List.map_cons, readsFirst]
    split at hspec
    · rename_i herror
      simpa [if_pos herror] using hover _ hspec
    · rename_i herror
      rw [if_neg herror]
      split at hspec
      · rename_i hfilter
        rw [if_pos hfilter]
        refine iff_of_true ?_ (.inr rfl)
        rcases hspec with ⟨hlive, hempty⟩ | hleft
        · exact (ih hlive hrest).mpr (.inl hempty)
        · exact (hover _ hleft).mpr rfl
      · rename_i hfilter
        rw [if_neg hfilter]
        split at hspec
        · rename_i heof
          simpa [if_pos heof] using hover _ hspec
        · rename_i heof
          rw [if_neg heof]
          subst hspec
          exact ih h hrest

/-- The batches after which no data is lost: whatever is first to read or to close the
connection reads it, or there is nothing to be read. -/
theorem runBatch_dataFirst_iff (k : EndpointClass) (fd : Fd) (data : List UInt8)
    (writeEventsEnabled : Bool) (batch : List (KEvent × List RecvReturn × Option Int))
    {s' : Endpoint} (h : (connected fd data writeEventsEnabled).runBatch k batch = some s') :
    DataFirst data s'.tasks ↔ data = [] ∨ readsFirst (batch.map Prod.fst) = true :=
  (live_connected fd data writeEventsEnabled).runBatch h

def readThenWrite : List (KEvent × List RecvReturn × Option Int) :=
  [(⟨.read, EV_EOF⟩, [.bytes [1], .bytes [2], .disconnect], none), (⟨.write, EV_EOF⟩, [], none)]

theorem runBatch_dataFirst_iff_readThenWrite :
    ∃ s', (connected 5 [1, 2] true).runBatch .unixServer readThenWrite = some s' ∧
      (DataFirst [1, 2] s'.tasks ↔ ([1, 2] : List UInt8) = [] ∨
        readsFirst (readThenWrite.map Prod.fst) = true) :=
  ⟨_, rfl, runBatch_dataFirst_iff .unixServer 5 [1, 2] true readThenWrite rfl⟩

/-- The peer sent two bytes and closed. The end of file of the write filter closes the socket,
and its handler is gone when the read event comes up. -/
theorem writeThenRead_loses :
    ¬ ∀ (k : EndpointClass) (fd : Fd) (data : List UInt8) (writeEventsEnabled : Bool)
      (batch : List (KEvent × List RecvReturn × Option Int)) (s' : Endpoint),
      (connected fd data writeEventsEnabled).runBatch k batch = some s' →
        DataFirst data s'.tasks := by
  intro h
  have hlost := h .unixServer 5 [1, 2] true [(⟨.write, EV_EOF⟩, [], none),
    (⟨.read, EV_EOF⟩, [.bytes [1, 2], .disconnect], none)] _ rfl
  obtain ⟨chunks, htasks, hdata⟩ := hlost none (by decide)
  change [EndpointTask.close none] = _ at htasks
  have hempty : chunks = [] := by simpa using htasks
  simp [hempty] at hdata

end Endpoint

end Lmnet.Darwin
