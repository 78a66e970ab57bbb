import Lmnet.Epoll.UnixClient
import Lmnet.IoUring.Clients

/-!
The two `UnixClientImpl`s of Linux under one history of calls and ends of connections, each
of which is one step.
-/

set_option autoImplicit false

namespace Lmnet.Linux

open Lmnet.Epoll (Reason RecvReturn)

/-- What the listener is told of the end of a connection, without the number and the text. -/
inductive Notice where
  | onError | onClose
  deriving DecidableEq, Repr

def epollNotice : Reactor.ClientCallback → Option Notice
  | .onReceive _ _ => none
  | .onError _ _ => some .onError
  | .onClose _ => some .onClose

def ioUringNotice : IoUring.ClientEvent → Option Notice
  | .onError _ => some .onError
  | .onClose _ => some .onClose
  | .onReceive _ | .onReceiveUnixMessage _ | .closed _ => none

structure Connection where
  epoll : Option Nat
  ioUring : Option Nat
  deriving DecidableEq, Repr

/-- `created` is whether `Init`, or the `ReInit` of a `Connect` that fails, gets a socket.
Connections are numbered by the calls of `Connect`; with a read error comes what
`epoll_wait` reports. -/
inductive HistoryStep where
  | init (created : Bool)
  | connect (established created : Bool)
  | close
  | peerClose (c : Nat)
  | readError (c : Nat) (errno : Int) (events : Nat)
  deriving DecidableEq, Repr

structure UnixClients where
  epoll : Epoll.UnixClient
  ioUring : IoUring.Client
  connections : List Connection

namespace UnixClients

def created : UnixClients := ⟨.new, .created true, []⟩

def outcome (created : Bool) : IoUring.ReInitOutcome := if created then .created else .noSocket

def submitted : IoUring.Submission := ⟨0, true⟩

def init (s : UnixClients) (created : Bool) : UnixClients :=
  { s with
    epoll := s.epoll.init created
    ioUring := s.ioUring.init .unix (outcome created) true }

def connect (s : UnixClients) (established created : Bool) : UnixClients where
  epoll := (s.epoll.connect established created).1
  ioUring := IoUring.UnixClient.connect s.ioUring established (outcome created) submitted
  connections := s.connections ++ [{
    epoll := if (s.epoll.connect established created).2 then s.epoll.socket else none
    ioUring := if s.ioUring.isRunning && established then s.ioUring.socket else none }]

/-- A `connect` of this socket fails: it is connected already. -/
def alreadyConnected (s : UnixClients) : Bool :=
  s.connections.any fun c =>
    (c.epoll.isSome && c.epoll == s.epoll.socket) ||
      (c.ioUring.isSome && c.ioUring == s.ioUring.socket)

def epollEvent (s : Epoll.UnixClient) (c : Connection) (events : Nat) (last : RecvReturn) :
    Epoll.UnixClient :=
  match c.epoll with
  | none => s
  | some fd => s.dispatchEvent fd events last

def ioUringRead (s : IoUring.Client) (c : Connection) (result : Int) : IoUring.Client :=
  (IoUring.Client.step .unix s
    (.complete (s.inFlight.idxOf ⟨.read, c.ioUring⟩) ⟨result, [], []⟩ submitted)).getD s

def step (s : UnixClients) : HistoryStep → Option UnixClients
  | .init created => some (s.init created)
  | .connect established created =>
      if established && s.alreadyConnected then none else some (s.connect established created)
  | .close =>
      some { s with epoll := s.epoll.close, ioUring := IoUring.UnixClient.close s.ioUring }
  | .peerClose c =>
      s.connections[c]?.map fun connection => { s with
        epoll := epollEvent s.epoll connection Epoll.UnixClient.peerClosed .disconnect
        ioUring := ioUringRead s.ioUring connection 0 }
  | .readError c errno events =>
      if errno ≤ 0 ∨ errno = EAGAIN ∨ events &&& Epoll.EPOLLIN = 0 then none
      else s.connections[c]?.map fun connection => { s with
        epoll := epollEvent s.epoll connection events (.error errno)
        ioUring := ioUringRead s.ioUring connection (-errno) }

def machine : Machine UnixClients HistoryStep where
  init s := s = created
  step := step

def epollNotices (s : Epoll.UnixClient) : List Notice := s.callbacks.filterMap epollNotice

def ioUringNotices (s : IoUring.Client) : List Notice := s.log.filterMap ioUringNotice

def ToldSame (s : UnixClients) : Prop := epollNotices s.epoll = ioUringNotices s.ioUring

instance decidableToldSame (s : UnixClients) : Decidable s.ToldSame :=
  inferInstanceAs (Decidable (_ = _))

def InUse (s : UnixClients) (c : Connection) : Prop :=
  ∃ fd ∈ c.epoll, fd ∈ s.epoll.handlers ∧ s.epoll.socket = some fd

instance decidableInUse (s : UnixClients) (c : Connection) : Decidable (s.InUse c) :=
  inferInstanceAs (Decidable (∃ fd ∈ c.epoll, fd ∈ s.epoll.handlers ∧ s.epoll.socket = some fd))

def Reads (s : UnixClients) (c : Connection) : Prop :=
  (⟨.read, c.ioUring⟩ : IoUring.ClientOp) ∈ s.ioUring.inFlight

instance decidableReads (s : UnixClients) (c : Connection) : Decidable (s.Reads c) :=
  inferInstanceAs (Decidable (_ ∈ _))

/-- `Close` is not called on a connection, and the one that ends is in use in both clients
or in neither: the io_uring client is connected and reads from it just when it is that of
the epoll client. One that is not in use has no read left that fails while the io_uring
client runs. -/
def EndsTogether (s : UnixClients) : HistoryStep → Prop
  | .init _ | .connect _ _ => True
  | .close => s.ioUring.isConnected = false
  | .peerClose c => ∀ connection ∈ s.connections[c]?,
      (s.InUse connection ↔ s.Reads connection ∧ s.ioUring.isConnected = true)
  | .readError c _ _ => ∀ connection ∈ s.connections[c]?,
      if s.InUse connection then s.Reads connection ∧ s.ioUring.isConnected = true
      else s.Reads connection → s.ioUring.isRunning = false

instance decidableEndsTogether (s : UnixClients) (a : HistoryStep) :
    Decidable (s.EndsTogether a) :=
  match a with
  | .init _ | .connect _ _ => inferInstanceAs (Decidable True)
  | .close => inferInstanceAs (Decidable (_ = _))
  | .peerClose c => inferInstanceAs (Decidable (∀ connection ∈ s.connections[c]?, (_ ↔ _)))
  | .readError c _ _ =>
      inferInstanceAs (Decidable (∀ connection ∈ s.connections[c]?,
        if s.InUse connection then s.Reads connection ∧ s.ioUring.isConnected = true
        else s.Reads connection → s.ioUring.isRunning = false))

structure Inv (s : UnixClients) : Prop where
  listening : s.ioUring.listening = true
  ioUring : s.ioUring.isRunning = false → s.ioUring.isConnected = false

theorem inv_created : created.Inv := ⟨rfl, fun _ => rfl⟩

theorem epollNotices_handleConnectionClose (s : Epoll.UnixClient) (fd : Nat)
    (error : Option Reason) : epollNotices (s.handleConnectionClose fd error) =
      epollNotices s ++ if s.socket = some fd then
        (error.map fun _ => Notice.onError).toList ++ [.onClose] else [] := by
  rw [epollNotices, Epoll.UnixClient.callbacks_handleConnectionClose, List.filterMap_append]
  by_cases hsocket : s.socket = some fd <;> cases error <;>
    simp [hsocket, epollNotices, Reactor.closing, epollNotice]

theorem epollNotices_epollEvent {s : UnixClients} {c : Connection} {events : Nat}
    {last : RecvReturn} {error : Option Reason}
    (hevent : ∀ fd, fd ∈ s.epoll.handlers →
      s.epoll.dispatchEvent fd events last = s.epoll.handleConnectionClose fd error) :
    epollNotices (epollEvent s.epoll c events last) = epollNotices s.epoll ++
      if s.InUse c then (error.map fun _ => Notice.onError).toList ++ [.onClose] else [] := by
  unfold epollEvent
  split
  · rename_i hnone
    simp [InUse, hnone]
  · rename_i fd hsome
    by_cases hhandler : fd ∈ s.epoll.handlers
    · rw [hevent fd hhandler, epollNotices_handleConnectionClose]
      simp [InUse, hsome, hhandler]
    · have hnot : s.epoll.dispatchEvent fd events last = s.epoll := by
        simp [Epoll.UnixClient.dispatchEvent, hhandler]
      rw [hnot]
      simp [InUse, hsome, hhandler]

theorem ioUringNotices_handleClose (s : IoUring.Client) :
    ioUringNotices (IoUring.UnixClient.handleClose s) =
      ioUringNotices s ++ if s.isConnected && s.listening then [.onClose] else [] := by
  obtain ⟨isRunning, isConnected, socket, sockets, stream, listening, inFlight, log⟩ := s
  cases isConnected <;> cases listening <;> cases socket <;>
    simp [ioUringNotices, IoUring.UnixClient.handleClose, IoUring.Client.notify,
      IoUring.Client.dropSocket, ioUringNotice]

theorem ioUringNotices_dropSocket (s : IoUring.Client) :
    ioUringNotices s.dropSocket = ioUringNotices s := by
  unfold IoUring.Client.dropSocket
  split <;> simp [ioUringNotices, ioUringNotice]

theorem ioUringNotices_reInit (s : IoUring.Client) (outcome : IoUring.ReInitOutcome) :
    ioUringNotices (s.reInit .unix outcome) = ioUringNotices s := by
  cases outcome <;> exact ioUringNotices_dropSocket s

theorem ioUringNotices_init (s : IoUring.Client) (outcome : IoUring.ReInitOutcome) :
    ioUringNotices (s.init .unix outcome true) = ioUringNotices s := by
  unfold IoUring.Client.init
  dsimp only
  split <;> exact ioUringNotices_reInit s outcome

theorem connect_submitted (s : IoUring.Client) (established : Bool)
    (outcome : IoUring.ReInitOutcome) :
    IoUring.UnixClient.connect s established outcome submitted =
      if !s.isRunning then s
      else if established && s.socket.isSome then
        ({ s with isConnected := true } : IoUring.Client).post .read
      else s.reInit .unix outcome := by
  unfold IoUring.UnixClient.connect
  cases s.isRunning <;> cases established <;> cases s.socket <;>
    simp [IoUring.UnixClient.startReceive, submitted]

theorem ioUringNotices_connect (s : IoUring.Client) (established : Bool)
    (outcome : IoUring.ReInitOutcome) :
    ioUringNotices (IoUring.UnixClient.connect s established outcome submitted) =
      ioUringNotices s := by
  rw [connect_submitted]
  split
  · rfl
  · split
    · rfl
    · exact ioUringNotices_reInit s outcome

theorem ioUringNotices_close {s : IoUring.Client}
    (hs : s.isRunning = false → s.isConnected = false) (hlistening : s.listening = true) :
    ioUringNotices (IoUring.UnixClient.close s) =
      ioUringNotices s ++ if s.isConnected then [.onClose] else [] := by
  unfold IoUring.UnixClient.close
  split
  · rw [ioUringNotices_handleClose]
    simp [hlistening, ioUringNotices]
  · rename_i hrunning
    rw [hs (by simpa using hrunning)]
    simp

theorem ioUringRead_of_reads {s : UnixClients} {c : Connection} (h : s.Reads c) (result : Int) :
    ioUringRead s.ioUring c result = IoUring.UnixClient.handleReceiveWithFds
      { s.ioUring with inFlight := s.ioUring.inFlight.erase ⟨.read, c.ioUring⟩ }
      ⟨result, [], []⟩ submitted := by
  simp only [ioUringRead, IoUring.Client.step, List.getElem?_idxOf h, Option.map_some,
    Option.getD_some, List.erase_eq_eraseIdx_of_idxOf rfl]
  rfl

theorem ioUringRead_of_not_reads {s : UnixClients} {c : Connection} (h : ¬ s.Reads c)
    (result : Int) : ioUringRead s.ioUring c result = s.ioUring := by
  have hnone : s.ioUring.inFlight[s.ioUring.inFlight.idxOf ⟨.read, c.ioUring⟩]? = none := by
    rw [List.idxOf_eq_length h, List.getElem?_length]
  simp [ioUringRead, IoUring.Client.step, hnone]

theorem ioUringNotices_readEnd {s : UnixClients} (h : s.ioUring.listening = true)
    (c : Connection) : ioUringNotices (ioUringRead s.ioUring c 0) =
      ioUringNotices s.ioUring ++
        if s.Reads c ∧ s.ioUring.isConnected = true then [.onClose] else [] := by
  by_cases hreads : s.Reads c
  · rw [ioUringRead_of_reads hreads]
    change ioUringNotices (IoUring.UnixClient.handleClose _) = _
    rw [ioUringNotices_handleClose]
    simp [hreads, h, ioUringNotices]
  · rw [ioUringRead_of_not_reads hreads]
    simp [hreads]

theorem handleReceiveWithFds_error (s : IoUring.Client) {errno : Int} (hpos : 0 < errno)
    (herror : errno ≠ EAGAIN) :
    IoUring.UnixClient.handleReceiveWithFds s ⟨-errno, [], []⟩ submitted =
      IoUring.UnixClient.readFailed s := by
  have hdeliver : IoUring.UnixClient.deliver s ⟨-errno, [], []⟩ =
      (IoUring.UnixClient.readFailed s, false) := by
    have hdata : ¬ 0 < -errno := by omega
    have hend : -errno ≠ 0 := by omega
    have hagain : -errno ≠ -EAGAIN := by omega
    rw [IoUring.UnixClient.deliver, if_neg hdata, if_neg hend, if_neg hagain]
  simp [IoUring.UnixClient.handleReceiveWithFds, hdeliver]

/-- A `recvmsg` that fails: `OnError` comes even when nothing is connected. -/
theorem ioUringNotices_readError {s : UnixClients} (h : s.ioUring.listening = true)
    (c : Connection) {errno : Int} (hpos : 0 < errno) (herror : errno ≠ EAGAIN) :
    ioUringNotices (ioUringRead s.ioUring c (-errno)) = ioUringNotices s.ioUring ++
      if s.Reads c ∧ s.ioUring.isRunning = true then
        .onError :: if s.ioUring.isConnected then [.onClose] else []
      else [] := by
  by_cases hreads : s.Reads c
  · rw [ioUringRead_of_reads hreads, handleReceiveWithFds_error _ hpos herror]
    unfold IoUring.UnixClient.readFailed
    by_cases hrunning : s.ioUring.isRunning = true
    · rw [if_pos hrunning, IoUring.UnixClient.failWith, ioUringNotices_handleClose]
      simp [hreads, hrunning, h, ioUringNotices, IoUring.Client.notify, ioUringNotice]
    · rw [if_neg hrunning, if_neg fun hboth => hrunning hboth.2]
      simp [ioUringNotices]
  · rw [ioUringRead_of_not_reads hreads]
    simp [hreads]

theorem listening_connect (s : IoUring.Client) (established : Bool)
    (outcome : IoUring.ReInitOutcome) :
    (IoUring.UnixClient.connect s established outcome submitted).listening = s.listening := by
  rw [connect_submitted]
  split
  · rfl
  · split
    · rfl
    · exact IoUring.Client.listening_reInit .unix s outcome

theorem Inv.ioUringRead {s : UnixClients} (h : s.Inv) (c : Connection) (result : Int)
    (hread : ∀ t : IoUring.Client, (t.isRunning = false → t.isConnected = false) →
      (IoUring.UnixClient.handleReceiveWithFds t ⟨result, [], []⟩ submitted).listening =
          t.listening ∧
        (IoUring.UnixClient.handleReceiveWithFds t ⟨result, [], []⟩ submitted).isConnected =
          false) :
    (ioUringRead s.ioUring c result).listening = true ∧
      ((ioUringRead s.ioUring c result).isRunning = false →
        (ioUringRead s.ioUring c result).isConnected = false) := by
  by_cases hreads : s.Reads c
  · rw [ioUringRead_of_reads hreads]
    obtain ⟨hlistening, hconnected⟩ := hread
      { s.ioUring with inFlight := s.ioUring.inFlight.erase ⟨.read, c.ioUring⟩ } h.ioUring
    exact ⟨hlistening.trans h.listening, fun _ => hconnected⟩
  · rw [ioUringRead_of_not_reads hreads]
    exact ⟨h.listening, h.ioUring⟩

theorem ready_reInit {s : IoUring.Client} (hs : s.isRunning = false → s.isConnected = false)
    (outcome : IoUring.ReInitOutcome) (h : (s.reInit .unix outcome).isRunning = false) :
    (s.reInit .unix outcome).isConnected = false :=
  IoUring.Client.isConnected_reInit (hs (IoUring.Client.isRunning_reInit .unix s outcome ▸ h))

theorem ready_init {s : IoUring.Client} (hs : s.isRunning = false → s.isConnected = false)
    (outcome : IoUring.ReInitOutcome) (h : (s.init .unix outcome true).isRunning = false) :
    (s.init .unix outcome true).isConnected = false := by
  obtain heq | heq | heq := IoUring.Client.init_cases .unix s outcome true
  · rw [heq] at h ⊢
    exact ready_reInit hs outcome h
  · rw [heq] at h
    cases h
  · rw [heq, IoUring.Client.isRunning_dropSocket] at h
    rw [heq, IoUring.Client.isConnected_dropSocket]
    exact ready_reInit hs outcome h

theorem ready_connect {s : IoUring.Client} (hs : s.isRunning = false → s.isConnected = false)
    (established : Bool) (outcome : IoUring.ReInitOutcome)
    (h : (IoUring.UnixClient.connect s established outcome submitted).isRunning = false) :
    (IoUring.UnixClient.connect s established outcome submitted).isConnected = false := by
  rw [connect_submitted] at h ⊢
  split
  · rename_i hrunning
    exact hs (by simpa using hrunning)
  · rename_i hrunning
    rw [if_neg hrunning] at h
    split
    · rename_i hready
      rw [if_pos hready] at h
      exact absurd h (by simpa [IoUring.Client.post] using hrunning)
    · rename_i hready
      rw [if_neg hready] at h
      exact ready_reInit hs outcome h

theorem isConnected_close {s : IoUring.Client}
    (hs : s.isRunning = false → s.isConnected = false) :
    (IoUring.UnixClient.close s).isConnected = false := by
  unfold IoUring.UnixClient.close
  split
  · exact IoUring.UnixClient.isConnected_handleClose _
  · rename_i hrunning
    exact hs (by simpa using hrunning)

theorem inv_step {s s' : UnixClients} {a : HistoryStep} (h : s.Inv) (hs : s.step a = some s') :
    s'.Inv := by
  cases a with
  | init created =>
    cases hs
    exact ⟨(IoUring.Client.listening_init _ _ _ _).trans h.listening, ready_init h.ioUring _⟩
  | connect established created =>
    simp only [step] at hs
    split at hs
    · cases hs
    · cases hs
      exact ⟨(listening_connect _ _ _).trans h.listening, ready_connect h.ioUring _ _⟩
  | close =>
    cases hs
    exact ⟨(IoUring.UnixClient.listening_close _).trans h.listening,
      fun _ => isConnected_close h.ioUring⟩
  | peerClose c =>
    obtain ⟨connection, -, rfl⟩ := Option.map_eq_some_iff.mp hs
    obtain ⟨hlistening, hinv⟩ := h.ioUringRead connection 0 fun t _ =>
      ⟨IoUring.UnixClient.listening_handleClose t, IoUring.UnixClient.isConnected_handleClose t⟩
    exact ⟨hlistening, hinv⟩
  | readError c errno events =>
    simp only [step] at hs
    split at hs
    · cases hs
    · rename_i herrno
      obtain ⟨connection, -, rfl⟩ := Option.map_eq_some_iff.mp hs
      obtain ⟨hlistening, hinv⟩ := h.ioUringRead connection (-errno) fun t ht => by
        rw [handleReceiveWithFds_error t (by omega) (by tauto)]
        refine ⟨IoUring.UnixClient.listening_readFailed t, ?_⟩
        unfold IoUring.UnixClient.readFailed IoUring.UnixClient.failWith
        split
        · exact IoUring.UnixClient.isConnected_handleClose _
        · rename_i hrunning
          exact ht (by simpa using hrunning)
      exact ⟨hlistening, hinv⟩

/-- What one step does to two listeners that have been told the same. -/
theorem toldSame_step_iff {s s' : UnixClients} {a : HistoryStep} (h : s.Inv) (hsame : s.ToldSame)
    (hs : s.step a = some s') : s'.ToldSame ↔ s.EndsTogether a := by
  have hsplit : ∀ {epoll : Epoll.UnixClient} {ioUring : IoUring.Client} (xs ys : List Notice)
      (connections : List Connection), epollNotices epoll = epollNotices s.epoll ++ xs →
      ioUringNotices ioUring = ioUringNotices s.ioUring ++ ys →
      ((⟨epoll, ioUring, connections⟩ : UnixClients).ToldSame ↔ xs = ys) := by
    intro epoll ioUring xs ys connections hepoll hioUring
    rw [ToldSame, hepoll, hioUring, ← hsame, List.append_cancel_left_eq]
  cases a with
  | init created =>
    cases hs
    refine iff_of_true ?_ trivial
    rw [init, hsplit [] [] _ (by simp [epollNotices])
      ((ioUringNotices_init _ _).trans (List.append_nil _).symm)]
  | connect established created =>
    simp only [step] at hs
    split at hs
    · cases hs
    · cases hs
      refine iff_of_true ?_ trivial
      rw [connect, hsplit [] [] _ (by simp [epollNotices])
        ((ioUringNotices_connect _ _ _).trans (List.append_nil _).symm)]
  | close =>
    cases hs
    rw [hsplit [] _ _ (by simp [epollNotices])
      (ioUringNotices_close h.ioUring h.listening)]
    cases hconnected : s.ioUring.isConnected <;> simp [EndsTogether, hconnected]
  | peerClose c =>
    obtain ⟨connection, hconnection, rfl⟩ := Option.map_eq_some_iff.mp hs
    rw [hsplit _ _ _ (epollNotices_epollEvent fun _ => Epoll.UnixClient.dispatchEvent_peerClosed)
      (ioUringNotices_readEnd h.listening connection)]
    simp only [EndsTogether, hconnection, Option.mem_some_iff, forall_eq']
    by_cases huse : s.InUse connection <;>
      by_cases hreads : s.Reads connection ∧ s.ioUring.isConnected = true <;>
      simp [huse, hreads]
  | readError c errno events =>
    simp only [step] at hs
    split at hs
    · cases hs
    · rename_i herrno
      obtain ⟨connection, hconnection, rfl⟩ := Option.map_eq_some_iff.mp hs
      rw [hsplit _ _ _ (epollNotices_epollEvent fun _ hfd =>
          Epoll.UnixClient.dispatchEvent_error hfd (by tauto) (by tauto))
        (ioUringNotices_readError h.listening connection (by omega) (by tauto))]
      simp only [EndsTogether, hconnection, Option.mem_some_iff, forall_eq']
      have hconnected : s.ioUring.isConnected = true → s.ioUring.isRunning = true := by
        intro hconnected
        by_contra hrunning
        rw [h.ioUring (by simpa using hrunning)] at hconnected
        cases hconnected
      by_cases huse : s.InUse connection <;> by_cases hreads : s.Reads connection <;>
        cases hrunning : s.ioUring.isRunning <;> cases hconn : s.ioUring.isConnected <;>
        simp_all

/-- The two listeners are told the same throughout a history just when every connection
that ends in it ends in both clients together. -/
theorem toldSame_iff_endsTogether (history : List HistoryStep) :
    machine.Every (fun _ _ s' => s'.ToldSame) created history ↔
      machine.Every (fun s a _ => s.EndsTogether a) created history :=
  machine.every_iff_every (I := fun s => s.Inv ∧ s.ToldSame)
    (fun _ _ _ hs ha hends =>
      have hsame := (toldSame_step_iff hs.1 hs.2 ha).mpr hends
      ⟨⟨inv_step hs.1 ha, hsame⟩, hsame⟩)
    (fun _ _ _ hs ha hsame => (toldSame_step_iff hs.1 hs.2 ha).mp hsame) ⟨inv_created, rfl⟩

/-- A `Connect` fails and the next does not, the peer closes, the client connects again, a
read fails, and the client is closed. -/
def lostTwice : List HistoryStep :=
  [.connect true true, .init true, .connect false true, .connect true true, .peerClose 2,
    .init true, .connect true true, .readError 3 104 Epoll.UnixClient.peerClosed, .close]

theorem toldSame_lostTwice : ∃ t, machine.run created lostTwice = some t ∧
    machine.Every (fun _ _ s' => s'.ToldSame) created lostTwice ∧
    epollNotices t.epoll = [.onClose, .onError, .onClose] :=
  ⟨_, rfl, (toldSame_iff_endsTogether lostTwice).mpr (machine.every_of_check (by decide)), rfl⟩

/-- A client that is connected is closed: only the io_uring client says so. -/
theorem closed_told_once : ¬ ∀ history t, machine.run created history = some t → t.ToldSame := by
  intro h
  have ht := h [.init true, .connect true true, .close] _ rfl
  exact absurd ht (by decide)

/-- A caller that waits for the end of a connection before it calls `Init` again, calls
`Connect` once it has a socket and no connection, and never calls `Close` on a connection. -/
def Orderly (s : UnixClients) : HistoryStep → Prop
  | .init _ => s.ioUring.isConnected = false
  | .connect _ _ => s.ioUring.isConnected = false ∧ s.epoll.socket.isSome = true
  | .close => s.ioUring.isConnected = false
  | .peerClose _ | .readError _ _ _ => True

structure Aligned (s : UnixClients) : Prop where
  ready : s.epoll.socket.isSome = true →
    s.ioUring.isRunning = true ∧ s.ioUring.socket.isSome = true
  idle : s.ioUring.isConnected = false → s.epoll.handlers = [] ∧ s.ioUring.inFlight = []
  live : s.ioUring.isConnected = true → ∃ n m, s.epoll.socket = some n ∧
    s.epoll.handlers = [n] ∧ s.epoll.handlerRegistered = true ∧
    s.ioUring.inFlight = [⟨.read, some m⟩] ∧
    ∀ c ∈ s.connections, (c.epoll = some n ↔ c.ioUring = some m)

theorem aligned_created : created.Aligned := ⟨nofun, fun _ => ⟨rfl, rfl⟩, nofun⟩

theorem Aligned.inUse_iff {s : UnixClients} (h : s.Aligned) {c : Connection}
    (hc : c ∈ s.connections) : s.InUse c ↔ s.Reads c ∧ s.ioUring.isConnected = true := by
  cases hconnected : s.ioUring.isConnected with
  | false =>
    obtain ⟨hhandlers, -⟩ := h.idle hconnected
    simp [InUse, hhandlers]
  | true =>
    obtain ⟨n, m, hsocket, hhandlers, -, hinFlight, hsame⟩ := h.live hconnected
    have hboth := hsame c hc
    simp only [InUse, Reads, hsocket, hhandlers, hinFlight, List.mem_singleton, Option.mem_def,
      Option.some.injEq, IoUring.ClientOp.mk.injEq, true_and, and_true, ← hboth]
    constructor
    · rintro ⟨fd, hfd, rfl, -⟩
      exact hfd
    · exact fun hn => ⟨n, hn, rfl, rfl⟩

theorem Aligned.endsTogether {s : UnixClients} (h : s.Aligned) {a : HistoryStep}
    (horderly : s.Orderly a) : s.EndsTogether a := by
  cases a with
  | init created => trivial
  | connect established created => trivial
  | close => exact horderly
  | peerClose c => exact fun connection hc => h.inUse_iff (List.mem_of_getElem? hc)
  | readError c errno events =>
    intro connection hc
    have huse := h.inUse_iff (List.mem_of_getElem? hc)
    split
    · rename_i hin
      exact huse.mp hin
    · rename_i hnot
      intro hreads
      cases hconnected : s.ioUring.isConnected with
      | true => exact absurd (huse.mpr ⟨hreads, hconnected⟩) hnot
      | false =>
        rw [Reads, (h.idle hconnected).2] at hreads
        cases hreads

theorem Aligned.of_idle {epoll : Epoll.UnixClient} {ioUring : IoUring.Client}
    {connections : List Connection} (hhandlers : epoll.handlers = [])
    (hinFlight : ioUring.inFlight = []) (hconnected : ioUring.isConnected = false)
    (hready : epoll.socket.isSome = true →
      ioUring.isRunning = true ∧ ioUring.socket.isSome = true) :
    (⟨epoll, ioUring, connections⟩ : UnixClients).Aligned where
  ready := hready
  idle _ := ⟨hhandlers, hinFlight⟩
  live hlive := by
    rw [show ioUring.isConnected = true from hlive] at hconnected
    cases hconnected

theorem handlers_init (s : Epoll.UnixClient) (created : Bool) :
    (s.init created).handlers = s.handlers := by
  cases created <;> rfl

theorem created_of_socket {s : Epoll.UnixClient} {created : Bool}
    (h : (s.init created).socket.isSome = true) : created = true := by
  cases created with
  | true => rfl
  | false => cases h

theorem aligned_init {s : UnixClients} (h : s.Aligned) (hidle : s.ioUring.isConnected = false)
    (created : Bool) : (s.init created).Aligned := by
  obtain ⟨hhandlers, hinFlight⟩ := h.idle hidle
  refine .of_idle ?_ ?_ (IoUring.Client.isConnected_init hidle) fun hsocket => ?_
  · exact (handlers_init s.epoll created).trans hhandlers
  · exact (IoUring.Client.inFlight_init _ _ _ _).trans hinFlight
  · rw [created_of_socket hsocket]
    exact ⟨rfl, rfl⟩

theorem handlers_close {s : Epoll.UnixClient} (h : s.handlers = []) : s.close.handlers = [] := by
  unfold Epoll.UnixClient.close Epoll.UnixClient.removeHandler
  split <;> simp [h]

theorem socket_close (s : Epoll.UnixClient) : s.close.socket = none := by
  unfold Epoll.UnixClient.close
  split
  · rfl
  · assumption

theorem aligned_connect {s : UnixClients} {established created : Bool} (h : s.Aligned)
    (hidle : s.ioUring.isConnected = false) (hsocket : s.epoll.socket.isSome = true)
    (hfresh : (established && s.alreadyConnected) = false) :
    (s.connect established created).Aligned := by
  obtain ⟨hhandlers, hinFlight⟩ := h.idle hidle
  obtain ⟨hrunning, hready⟩ := h.ready hsocket
  obtain ⟨n, hn⟩ := Option.isSome_iff_exists.mp hsocket
  obtain ⟨m, hm⟩ := Option.isSome_iff_exists.mp hready
  cases established with
  | false =>
    have hioUring : IoUring.UnixClient.connect s.ioUring false (outcome created) submitted =
        s.ioUring.reInit .unix (outcome created) := by
      rw [connect_submitted, hrunning]
      rfl
    have hepoll : (s.epoll.connect false created).1 = s.epoll.close.init created := by
      simp [Epoll.UnixClient.connect, Epoll.UnixClient.reInit, hn]
    simp only [connect, hioUring, hepoll]
    refine .of_idle ?_ ?_ (IoUring.Client.isConnected_reInit hidle) fun hcreated => ⟨?_, ?_⟩
    · exact (handlers_init _ created).trans (handlers_close hhandlers)
    · exact (IoUring.Client.inFlight_reInit .unix s.ioUring _).trans hinFlight
    · exact (IoUring.Client.isRunning_reInit .unix s.ioUring _).trans hrunning
    · rw [created_of_socket hcreated]
      rfl
  | true =>
    have hnew : ∀ c ∈ s.connections, c.epoll ≠ some n ∧ c.ioUring ≠ some m := by
      intro c hc
      have hnone := List.any_eq_false.mp hfresh c hc
      simp only [hn, hm, Bool.or_eq_true, Bool.and_eq_true, beq_iff_eq, not_or, not_and] at hnone
      exact ⟨fun he => hnone.1 (by rw [he]; rfl) he, fun he => hnone.2 (by rw [he]; rfl) he⟩
    have hioUring : IoUring.UnixClient.connect s.ioUring true (outcome created) submitted =
        ({ s.ioUring with isConnected := true } : IoUring.Client).post .read := by
      rw [connect_submitted, if_neg (by simp [hrunning]), if_pos (by simp [hready])]
    simp only [connect, hioUring, Epoll.UnixClient.connect, if_true, hn, hrunning, hm,
      Bool.and_self]
    refine ⟨fun _ => ⟨rfl, rfl⟩, nofun, fun _ => ⟨n, m, rfl, ?_, rfl, ?_, fun c hc => ?_⟩⟩
    · change n :: s.epoll.handlers = [n]
      rw [hhandlers]
    · change s.ioUring.inFlight ++ [⟨.read, some m⟩] = _
      rw [hinFlight]
      rfl
    · rcases List.mem_append.mp hc with hold | hlast
      · exact iff_of_false (hnew c hold).1 (hnew c hold).2
      · rw [List.mem_singleton.mp hlast]
        exact iff_of_true rfl rfl

theorem aligned_end {s : UnixClients} {c : Connection} {events : Nat} {last : RecvReturn}
    {error : Option Reason} {result : Int} (h : s.Aligned) (hc : c ∈ s.connections)
    (hevent : ∀ fd, fd ∈ s.epoll.handlers →
      s.epoll.dispatchEvent fd events last = s.epoll.handleConnectionClose fd error)
    (hread : ∀ t : IoUring.Client, t.isRunning = true →
      (IoUring.UnixClient.handleReceiveWithFds t ⟨result, [], []⟩ submitted).isConnected = false ∧
        (IoUring.UnixClient.handleReceiveWithFds t ⟨result, [], []⟩ submitted).inFlight =
          t.inFlight) :
    ({ s with
      epoll := epollEvent s.epoll c events last
      ioUring := ioUringRead s.ioUring c result } : UnixClients).Aligned := by
  by_cases huse : s.InUse c
  · obtain ⟨hreads, hconnected⟩ := (h.inUse_iff hc).mp huse
    obtain ⟨n, m, hn, hhandlers, hregistered, hinFlight, -⟩ := h.live hconnected
    obtain ⟨fd, hfd, -, hsocket⟩ := huse
    obtain rfl : n = fd := Option.some.inj (hn.symm.trans hsocket)
    have hrunning := (h.ready (by rw [hn]; rfl)).1
    have hmem : n ∈ s.epoll.handlers := by simp [hhandlers]
    have hepoll : epollEvent s.epoll c events last = s.epoll.handleConnectionClose n error := by
      rw [epollEvent, show c.epoll = some n from hfd]
      exact hevent n hmem
    have hop : c.ioUring = some m := by
      simpa [Reads, hinFlight] using hreads
    rw [hepoll, ioUringRead_of_reads hreads]
    obtain ⟨hended, hkept⟩ := hread
      { s.ioUring with inFlight := s.ioUring.inFlight.erase ⟨.read, c.ioUring⟩ } hrunning
    refine .of_idle ?_ ?_ hended ?_
    · simp [Epoll.UnixClient.handleConnectionClose, Epoll.UnixClient.removeHandler, hn, hhandlers,
        hregistered]
    · rw [hkept]
      simp [hinFlight, hop]
    · simp [Epoll.UnixClient.handleConnectionClose, hn]
  · have hepoll : epollEvent s.epoll c events last = s.epoll := by
      unfold epollEvent
      split
      · rfl
      · rename_i fd hfd
        have hnot : fd ∉ s.epoll.handlers := by
          intro hmem
          refine huse ⟨fd, hfd, hmem, ?_⟩
          cases hconnected : s.ioUring.isConnected with
          | false =>
            rw [(h.idle hconnected).1] at hmem
            cases hmem
          | true =>
            obtain ⟨n, -, hn, hhandlers, -⟩ := h.live hconnected
            rw [hhandlers, List.mem_singleton] at hmem
            rw [hmem, hn]
        rw [Epoll.UnixClient.dispatchEvent, if_pos hnot]
    have hreads : ¬ s.Reads c := by
      intro hreads
      cases hconnected : s.ioUring.isConnected with
      | false =>
        rw [Reads, (h.idle hconnected).2] at hreads
        cases hreads
      | true => exact huse ((h.inUse_iff hc).mpr ⟨hreads, hconnected⟩)
    rw [hepoll, ioUringRead_of_not_reads hreads]
    exact ⟨h.ready, h.idle, h.live⟩

theorem aligned_step {s s' : UnixClients} {a : HistoryStep} (h : s.Aligned)
    (hs : s.step a = some s') (horderly : s.Orderly a) : s'.Aligned := by
  cases a with
  | init created =>
    cases hs
    exact aligned_init h horderly created
  | connect established created =>
    obtain ⟨hidle, hsocket⟩ := horderly
    simp only [step] at hs
    split at hs
    · cases hs
    · rename_i hfresh
      cases hs
      exact aligned_connect h hidle hsocket (by simpa using hfresh)
  | close =>
    cases hs
    obtain ⟨hhandlers, hinFlight⟩ := h.idle horderly
    refine .of_idle (handlers_close hhandlers) ?_ ?_ fun hsocket => ?_
    · unfold IoUring.UnixClient.close
      split
      · exact (IoUring.UnixClient.inFlight_handleClose _).trans hinFlight
      · exact hinFlight
    · unfold IoUring.UnixClient.close
      split
      · exact IoUring.UnixClient.isConnected_handleClose _
      · exact horderly
    · rw [socket_close] at hsocket
      cases hsocket
  | peerClose c =>
    obtain ⟨connection, hconnection, rfl⟩ := Option.map_eq_some_iff.mp hs
    exact aligned_end h (List.mem_of_getElem? hconnection)
      (fun _ => Epoll.UnixClient.dispatchEvent_peerClosed)
      fun t _ => ⟨IoUring.UnixClient.isConnected_handleClose t,
        IoUring.UnixClient.inFlight_handleClose t⟩
  | readError c errno events =>
    simp only [step] at hs
    split at hs
    · cases hs
    · rename_i herrno
      obtain ⟨connection, hconnection, rfl⟩ := Option.map_eq_some_iff.mp hs
      refine aligned_end h (List.mem_of_getElem? hconnection)
        (fun _ hfd => Epoll.UnixClient.dispatchEvent_error hfd (by tauto) (by tauto))
        fun t hrunning => ?_
      rw [handleReceiveWithFds_error t (by omega) (by tauto), IoUring.UnixClient.readFailed,
        if_pos hrunning]
      simp [IoUring.UnixClient.failWith]

/-- With such a caller the two listeners are told the same. -/
theorem toldSame_of_orderly {history : List HistoryStep}
    (h : machine.Every (fun s a _ => s.Orderly a) created history) :
    machine.Every (fun _ _ s' => s'.ToldSame) created history :=
  machine.every_of_every (I := fun s => (s.Inv ∧ s.ToldSame) ∧ s.Aligned)
    (fun _ _ _ hs ha horderly =>
      have hsame := (toldSame_step_iff hs.1.1 hs.1.2 ha).mpr (hs.2.endsTogether horderly)
      ⟨⟨⟨inv_step hs.1.1 ha, hsame⟩, aligned_step hs.2 ha horderly⟩, hsame⟩)
    ⟨⟨inv_created, rfl⟩, aligned_created⟩ h

instance decidableOrderly (s : UnixClients) (a : HistoryStep) : Decidable (s.Orderly a) :=
  match a with
  | .connect _ _ => inferInstanceAs (Decidable
      (s.ioUring.isConnected = false ∧ s.epoll.socket.isSome = true))
  | .init _ | .close => inferInstanceAs (Decidable (s.ioUring.isConnected = false))
  | .peerClose _ | .readError _ _ _ => inferInstanceAs (Decidable True)

def oneAfterTheOther : List HistoryStep :=
  [.init true, .connect false false, .init true, .connect true true, .peerClose 1, .init true,
    .connect true true, .readError 2 104 Epoll.UnixClient.peerClosed, .close]

theorem toldSame_of_orderly_oneAfterTheOther :
    machine.Every (fun _ _ s' => s'.ToldSame) created oneAfterTheOther :=
  toldSame_of_orderly (machine.every_of_check (by decide))

end UnixClients

end Lmnet.Linux
