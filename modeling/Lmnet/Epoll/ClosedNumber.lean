import Lmnet.Epoll.ServerLife
import Lmnet.Epoll.UnixChannel
import Lmnet.UnixSocketUtils

/-!
One `DispatchEvent` on a connection: the calls on descriptors that the four handler classes
make for a mask, and whether any of them comes after the connection's number was closed.
The classes differ in their owner, a server or a client, and in their send queue.
-/

set_option autoImplicit false

namespace Lmnet.Epoll

/-- `closeConnection` is the `close` of `HandleConnectionClose`, `closeDescriptor` that of
`CloseDescriptors`; `recv` and `send` stand for `recvmsg` and `sendmsg` too. -/
inductive FdCall where
  | recv (fd : Fd)
  | send (fd : Fd)
  | modifyHandler (fd : Fd) (events : Nat)
  | removeHandler (fd : Fd)
  | closeConnection (fd : Fd)
  | closeDescriptor (fd : Fd)
  deriving DecidableEq, Repr

/-- `HandleConnectionClose` itself calls `RemoveHandler` just before its `close`. -/
def FdCall.touches (fd : Fd) : FdCall → Bool
  | .recv n | .send n | .modifyHandler n _ | .closeConnection n | .closeDescriptor n => n == fd
  | .removeHandler _ => false

/-- No call on the number comes after the connection's `close` of it. -/
def KeepsOff (fd : Fd) (calls : List FdCall) : Prop :=
  calls.Pairwise fun c d => c = .closeConnection fd → d.touches fd = false

instance decidableKeepsOff (fd : Fd) (calls : List FdCall) : Decidable (KeepsOff fd calls) :=
  inferInstanceAs (Decidable (calls.Pairwise _))

inductive Owner where
  | server | client
  deriving DecidableEq, Repr

def Owner.keepsOn : Owner → Int → Bool
  | .server, errno => errno == EAGAIN || errno == ETIMEDOUT
  | .client, errno => errno == EAGAIN

/-- A handler with entries `ε` in its queue, and what its owner has for it. `known`:
`sessions_` has the number, or `socket_` is it; `calls` are those of the dispatch so far. -/
structure ConnectionHandler (ε : Type) where
  fd : Fd
  ownerAlive : Bool
  known : Bool
  handlerRegistered : Bool
  sendQueue : List ε
  writeEventsEnabled : Bool
  calls : List FdCall
  deriving DecidableEq, Repr

namespace ConnectionHandler

variable {ε : Type} (o : Owner)

def calling (s : ConnectionHandler ε) (cs : List FdCall) : ConnectionHandler ε :=
  { s with calls := s.calls ++ cs }

/-- Only a client asks whether its handler is registered. -/
def handleConnectionClose (s : ConnectionHandler ε) : ConnectionHandler ε :=
  if s.known then
    let removes := o = .server ∨ s.handlerRegistered = true
    let s := s.calling ((if removes then [.removeHandler s.fd] else []) ++ [.closeConnection s.fd])
    { s with known := false, handlerRegistered := false }
  else s

/-- `HandleError` and `HandleClose`: `server_` or `client_` is locked first. -/
def closeByOwner (s : ConnectionHandler ε) : ConnectionHandler ε :=
  if s.ownerAlive then s.handleConnectionClose o else s

def handleReceive (s : ConnectionHandler ε) : List RecvReturn → Option (ConnectionHandler ε)
  | .bytes data :: rs =>
      if data = [] then none else (s.calling [.recv s.fd]).handleReceive rs
  | [.disconnect] => some (s.calling [.recv s.fd])
  | [.error errno] =>
      if o.keepsOn errno then some (s.calling [.recv s.fd])
      else some ((s.calling [.recv s.fd]).handleConnectionClose o)
  | _ => none

def handleRead (s : ConnectionHandler ε) (rs : List RecvReturn) : Option (ConnectionHandler ε) :=
  if s.ownerAlive then s.handleReceive o rs else some s

def disableWriteEvents (s : ConnectionHandler ε) : ConnectionHandler ε :=
  if s.writeEventsEnabled then
    { s.calling [.modifyHandler s.fd (getEvents false)] with writeEventsEnabled := false }
  else s

def tcpProcessSendQueue (s : ConnectionHandler (List UInt8)) :
    List SendReturn → Option (ConnectionHandler (List UInt8))
  | [] => if s.sendQueue = [] then some s.disableWriteEvents else none
  | r :: rs =>
      match s.sendQueue, r with
      | [], _ => none
      | buf :: rest, .bytes n =>
          let s := s.calling [.send s.fd]
          if n = 0 then s.tcpProcessSendQueue rs
          else if n < buf.length then
            { s with sendQueue := buf.drop n :: rest }.tcpProcessSendQueue rs
          else if n = buf.length then { s with sendQueue := rest }.tcpProcessSendQueue rs
          else none
      | _ :: _, .wouldBlock => if rs = [] then some (s.calling [.send s.fd]) else none
      | _ :: _, .error _ =>
          if rs = [] then some ((s.calling [.send s.fd]).closeByOwner o) else none

/-- What a `sendmsg` of `n` bytes leaves of the queue; with 0 the front is popped. -/
def leftBehind (p : PendingSend) (rest : List PendingSend) (n : Nat) : List PendingSend :=
  if n ≠ 0 ∧ (p.updated n).hasData = true then p.updated n :: rest else rest

def pop (s : ConnectionHandler PendingSend) (p : PendingSend) (queue : List PendingSend) :
    ConnectionHandler PendingSend :=
  { s.calling ((cleanupFds p.fds).map .closeDescriptor) with sendQueue := queue }

def unixProcessSendQueue (s : ConnectionHandler PendingSend) :
    List SendReturn → Option (ConnectionHandler PendingSend)
  | [] => if s.sendQueue = [] then some s.disableWriteEvents else none
  | r :: rs =>
      match s.sendQueue, r with
      | [], _ => none
      | p :: rest, .bytes n =>
          if n ≤ p.iov.length then
            ((s.calling [.send s.fd]).pop p (leftBehind p rest n)).unixProcessSendQueue rs
          else none
      | _ :: _, .wouldBlock => if rs = [] then some (s.calling [.send s.fd]) else none
      | p :: rest, .error _ =>
          if rs = [] then
            -- the loop is left with `break`, so the test of the queue follows
            let s := ((s.calling [.send s.fd]).pop p rest).closeByOwner o
            some (if rest = [] then s.disableWriteEvents else s)
          else none

def handlerCall (handleWrite : ConnectionHandler ε → Option (ConnectionHandler ε))
    (rs : List RecvReturn) (s : ConnectionHandler ε) : HandlerCall → Option (ConnectionHandler ε)
  | .handleRead => s.handleRead o rs
  | .handleWrite => handleWrite s
  | .handleError | .handleClose => some (s.closeByOwner o)

def dispatchEvent (handleWrite : ConnectionHandler ε → Option (ConnectionHandler ε))
    (s : ConnectionHandler ε) (events : Nat) (rs : List RecvReturn) :
    Option (ConnectionHandler ε) :=
  (dispatchCalls events).foldlM (handlerCall o handleWrite rs) s

def tcpDispatchEvent (s : ConnectionHandler (List UInt8)) (events : Nat) (rs : List RecvReturn)
    (ss : List SendReturn) : Option (ConnectionHandler (List UInt8)) :=
  s.dispatchEvent o (fun s => s.tcpProcessSendQueue o ss) events rs

def unixDispatchEvent (s : ConnectionHandler PendingSend) (events : Nat) (rs : List RecvReturn)
    (ss : List SendReturn) : Option (ConnectionHandler PendingSend) :=
  s.dispatchEvent o (fun s => s.unixProcessSendQueue o ss) events rs

def recvFails : List RecvReturn → Bool
  | [] => false
  | .bytes _ :: rs => recvFails rs
  | .disconnect :: _ => false
  | .error errno :: _ => !o.keepsOn errno

def ReadCloses (s : ConnectionHandler ε) (events : Nat) (rs : List RecvReturn) : Prop :=
  s.ownerAlive = true ∧ s.known = true ∧ events &&& EPOLLIN ≠ 0 ∧ recvFails o rs = true

/-- The `sendmsg` of the last entry of the queue fails. -/
def LastRefused : List PendingSend → List SendReturn → Prop
  | [_], [.error _] => True
  | p :: rest, .bytes n :: ss => LastRefused (leftBehind p rest n) ss
  | _, _ => False

def Idle (s : ConnectionHandler ε) : Prop := s.sendQueue = [] ∧ s.writeEventsEnabled = false

/-- A mask with `EPOLLOUT` does not come with a failing read, unless there is nothing to be
done in `HandleWrite`. -/
def TcpQuiet (s : ConnectionHandler (List UInt8)) (events : Nat) (rs : List RecvReturn) : Prop :=
  events &&& EPOLLOUT ≠ 0 → s.ReadCloses o events rs → s.Idle

/-- And, where the read does not fail, write events are off or no failing `sendmsg` empties
the queue. -/
def UnixQuiet (s : ConnectionHandler PendingSend) (events : Nat) (rs : List RecvReturn)
    (ss : List SendReturn) : Prop :=
  events &&& EPOLLOUT ≠ 0 →
    (s.ReadCloses o events rs → s.Idle) ∧
    (¬ s.ReadCloses o events rs → s.ownerAlive = true → s.known = true →
      s.writeEventsEnabled = true → ¬ LastRefused s.sendQueue ss)

theorem keepsOff_append {fd : Fd} {cs ds : List FdCall} :
    KeepsOff fd (cs ++ ds) ↔ KeepsOff fd cs ∧ KeepsOff fd ds ∧
      (.closeConnection fd ∈ cs → ∀ d ∈ ds, d.touches fd = false) := by
  unfold KeepsOff
  rw [List.pairwise_append]
  refine and_congr_right fun _ => and_congr_right fun _ => ⟨?_, ?_⟩
  · exact fun h hclose d hd => h _ hclose d hd rfl
  · rintro h c hc d hd rfl
    exact h hc d hd

theorem keepsOff_of_not_mem {fd : Fd} {cs : List FdCall} (h : .closeConnection fd ∉ cs) :
    KeepsOff fd cs := by
  refine List.pairwise_of_forall_mem_list fun c hc d _ heq => ?_
  rw [heq] at hc
  exact absurd hc h

def Closed (s : ConnectionHandler ε) : Prop := .closeConnection s.fd ∈ s.calls

def Inv (s : ConnectionHandler ε) : Prop := s.known = true → ¬ s.Closed

/-- What every part of a dispatch does: it keeps the number, and adds calls. -/
structure Adds (s s' : ConnectionHandler ε) : Prop where
  fd : s'.fd = s.fd
  calls : s.calls <+: s'.calls
  inv : s.Inv → s'.Inv

theorem Adds.trans {s s' s'' : ConnectionHandler ε} (h : s.Adds s') (h' : s'.Adds s'') :
    s.Adds s'' :=
  ⟨h'.fd.trans h.fd, h.calls.trans h'.calls, fun hi => h'.inv (h.inv hi)⟩

theorem Adds.refl (s : ConnectionHandler ε) : s.Adds s :=
  ⟨rfl, List.prefix_rfl, id⟩

theorem Adds.keepsOff {s s' : ConnectionHandler ε} (h : s.Adds s')
    (hk : KeepsOff s.fd s'.calls) : KeepsOff s.fd s.calls :=
  List.Pairwise.sublist h.calls.sublist hk

theorem adds_calling {s : ConnectionHandler ε} {cs : List FdCall}
    (h : .closeConnection s.fd ∉ cs) : s.Adds (s.calling cs) := by
  refine ⟨rfl, List.prefix_append _ _, fun hi hknown hclosed => ?_⟩
  obtain hmem | hmem := List.mem_append.mp hclosed
  · exact hi hknown hmem
  · exact h hmem

theorem closed_calling {s : ConnectionHandler ε} {cs : List FdCall}
    (h : .closeConnection s.fd ∉ cs) : (s.calling cs).Closed ↔ s.Closed := by
  unfold Closed calling
  rw [List.mem_append]
  exact or_iff_left h

theorem adds_handleConnectionClose (s : ConnectionHandler ε) :
    s.Adds (s.handleConnectionClose o) := by
  unfold handleConnectionClose
  split
  · exact ⟨rfl, List.prefix_append _ _, fun _ hknown => nomatch hknown⟩
  · exact .refl s

theorem keepsOff_handleConnectionClose {s : ConnectionHandler ε} (hi : s.Inv) :
    KeepsOff s.fd (s.handleConnectionClose o).calls ↔ KeepsOff s.fd s.calls := by
  refine ⟨(adds_handleConnectionClose o s).keepsOff, fun h => ?_⟩
  unfold handleConnectionClose
  split
  · rename_i hknown
    refine keepsOff_append.mpr ⟨h, ?_, fun hclosed => absurd hclosed (hi hknown)⟩
    split <;> simp [KeepsOff]
  · exact h

theorem closed_handleConnectionClose {s : ConnectionHandler ε} (hknown : s.known = true) :
    (s.handleConnectionClose o).Closed := by
  simp [handleConnectionClose, hknown, Closed, calling]

theorem adds_closeByOwner (s : ConnectionHandler ε) : s.Adds (s.closeByOwner o) := by
  unfold closeByOwner
  split
  · exact adds_handleConnectionClose o s
  · exact .refl s

theorem keepsOff_closeByOwner {s : ConnectionHandler ε} (hi : s.Inv) :
    KeepsOff s.fd (s.closeByOwner o).calls ↔ KeepsOff s.fd s.calls := by
  unfold closeByOwner
  split
  · exact keepsOff_handleConnectionClose o hi
  · exact Iff.rfl

theorem closed_closeByOwner {s : ConnectionHandler ε} (hopen : ¬ s.Closed) :
    (s.closeByOwner o).Closed ↔ s.ownerAlive = true ∧ s.known = true := by
  constructor
  · intro hclosed
    by_contra hnot
    have hsame : s.closeByOwner o = s := by
      unfold closeByOwner handleConnectionClose
      split
      · split
        · exact absurd ⟨‹_›, ‹_›⟩ hnot
        · rfl
      · rfl
    exact hopen (hsame ▸ hclosed)
  · rintro ⟨halive, hknown⟩
    rw [closeByOwner, if_pos halive]
    exact closed_handleConnectionClose o hknown

theorem writeEventsEnabled_closeByOwner (s : ConnectionHandler ε) :
    (s.closeByOwner o).writeEventsEnabled = s.writeEventsEnabled := by
  unfold closeByOwner handleConnectionClose
  split
  · split <;> rfl
  · rfl

theorem handleReceive_cases {s s' : ConnectionHandler ε} {rs : List RecvReturn}
    (h : s.handleReceive o rs = some s') :
    ∃ cs, .closeConnection s.fd ∉ cs ∧
      ((recvFails o rs = false ∧ s' = s.calling cs) ∨
        (recvFails o rs = true ∧ s' = (s.calling cs).handleConnectionClose o)) := by
  induction rs generalizing s with
  | nil => simp [handleReceive] at h
  | cons r rs ih =>
    cases r with
    | bytes data =>
      simp only [handleReceive] at h
      split at h
      · cases h
      · obtain ⟨cs, hcs, hcases⟩ := ih h
        refine ⟨.recv s.fd :: cs, fun hmem => (List.mem_cons.mp hmem).elim nofun hcs, ?_⟩
        have hcalls : (s.calling [.recv s.fd]).calling cs = s.calling (.recv s.fd :: cs) := by
          simp [calling]
        rwa [hcalls] at hcases
    | disconnect =>
      cases rs with
      | nil =>
        cases h
        exact ⟨[.recv s.fd], by simp, .inl ⟨rfl, rfl⟩⟩
      | cons r rs => simp [handleReceive] at h
    | error errno =>
      cases rs with
      | nil =>
        simp only [handleReceive] at h
        refine ⟨[.recv s.fd], by simp, ?_⟩
        split at h
        · rename_i hkeeps
          cases h
          exact .inl ⟨by simp [recvFails, hkeeps], rfl⟩
        · rename_i hkeeps
          cases h
          exact .inr ⟨by simpa [recvFails] using hkeeps, rfl⟩
      | cons r rs => simp [handleReceive] at h

theorem adds_disableWriteEvents (s : ConnectionHandler ε) : s.Adds s.disableWriteEvents := by
  have hadds : s.Adds (s.calling [.modifyHandler s.fd (getEvents false)]) :=
    adds_calling (by simp)
  unfold disableWriteEvents
  split
  · exact ⟨hadds.fd, hadds.calls, hadds.inv⟩
  · exact .refl s

theorem keepsOff_disableWriteEvents (s : ConnectionHandler ε) :
    KeepsOff s.fd s.disableWriteEvents.calls ↔
      KeepsOff s.fd s.calls ∧ (s.Closed → s.writeEventsEnabled = false) := by
  unfold disableWriteEvents
  split
  · rename_i henabled
    simp only [calling, keepsOff_append, henabled]
    refine and_congr_right fun _ => ⟨fun h hclosed => ?_, fun h => ⟨?_, fun hclosed => ?_⟩⟩
    · have htouch := h.2 hclosed _ (List.mem_singleton_self _)
      simp [FdCall.touches] at htouch
    · exact keepsOff_of_not_mem (by simp)
    · exact absurd (h hclosed) (by simp)
  · rename_i hoff
    simp [hoff]

theorem not_keepsOff_send {s : ConnectionHandler ε} (h : s.Closed) :
    ¬ KeepsOff s.fd (s.calling [.send s.fd]).calls := by
  intro hk
  have htouch := (keepsOff_append.mp hk).2.2 h _ (List.mem_singleton_self _)
  simp [FdCall.touches] at htouch

theorem tcpProcessSendQueue_cons {s s' : ConnectionHandler (List UInt8)} {r : SendReturn}
    {rs : List SendReturn} (h : s.tcpProcessSendQueue o (r :: rs) = some s') :
    s.sendQueue ≠ [] ∧
      ((∃ queue, ({ s.calling [.send s.fd] with sendQueue := queue } :
          ConnectionHandler (List UInt8)).tcpProcessSendQueue o rs = some s') ∨
        s' = s.calling [.send s.fd] ∨ s' = (s.calling [.send s.fd]).closeByOwner o) := by
  cases hqueue : s.sendQueue with
  | nil =>
    cases r <;> simp [tcpProcessSendQueue, hqueue] at h
  | cons buf rest =>
    refine ⟨List.cons_ne_nil _ _, ?_⟩
    cases r with
    | bytes n =>
      simp only [tcpProcessSendQueue, hqueue] at h
      split at h
      · exact .inl ⟨s.sendQueue, h⟩
      · split at h
        · exact .inl ⟨_, h⟩
        · split at h
          · exact .inl ⟨_, h⟩
          · cases h
    | wouldBlock =>
      simp only [tcpProcessSendQueue, hqueue] at h
      split at h
      · cases h
        exact .inr (.inl rfl)
      · cases h
    | error errno =>
      simp only [tcpProcessSendQueue, hqueue] at h
      split at h
      · cases h
        exact .inr (.inr rfl)
      · cases h

theorem adds_tcpProcessSendQueue {s s' : ConnectionHandler (List UInt8)} {ss : List SendReturn}
    (h : s.tcpProcessSendQueue o ss = some s') : s.Adds s' := by
  induction ss generalizing s with
  | nil =>
    simp only [tcpProcessSendQueue] at h
    split at h
    · cases h
      exact adds_disableWriteEvents s
    · cases h
  | cons r rs ih =>
    have hsend : s.Adds (s.calling [.send s.fd]) := adds_calling (by simp)
    rcases (tcpProcessSendQueue_cons o h).2 with ⟨queue, hrest⟩ | rfl | rfl
    · have hrec := ih hrest
      exact hsend.trans ⟨hrec.fd, hrec.calls, hrec.inv⟩
    · exact hsend
    · exact hsend.trans (adds_closeByOwner o _)

theorem tcpProcessSendQueue_open {s s' : ConnectionHandler (List UInt8)} {ss : List SendReturn}
    (hopen : ¬ s.Closed) (h : s.tcpProcessSendQueue o ss = some s') :
    KeepsOff s.fd s'.calls := by
  induction ss generalizing s with
  | nil =>
    simp only [tcpProcessSendQueue] at h
    split at h
    · cases h
      exact (keepsOff_disableWriteEvents s).mpr
        ⟨keepsOff_of_not_mem hopen, fun hclosed => absurd hclosed hopen⟩
    · cases h
  | cons r rs ih =>
    have hsent : ¬ (s.calling [.send s.fd]).Closed := by
      rwa [closed_calling (by simp)]
    rcases (tcpProcessSendQueue_cons o h).2 with ⟨queue, hrest⟩ | rfl | rfl
    · exact ih (s := { s.calling [.send s.fd] with sendQueue := queue }) hsent hrest
    · exact keepsOff_of_not_mem hsent
    · exact (keepsOff_closeByOwner o fun _ => hsent).mpr (keepsOff_of_not_mem hsent)

theorem tcpProcessSendQueue_closed {s s' : ConnectionHandler (List UInt8)}
    {ss : List SendReturn} (hclosed : s.Closed) (hk : KeepsOff s.fd s.calls)
    (h : s.tcpProcessSendQueue o ss = some s') : KeepsOff s.fd s'.calls ↔ s.Idle := by
  cases ss with
  | nil =>
    simp only [tcpProcessSendQueue] at h
    split at h
    · rename_i hempty
      cases h
      rw [keepsOff_disableWriteEvents]
      simp [hk, hclosed, Idle, hempty]
    · cases h
  | cons r rs =>
    obtain ⟨hne, hcases⟩ := tcpProcessSendQueue_cons o h
    refine iff_of_false (fun hafter => not_keepsOff_send hclosed ?_) fun hidle => hne hidle.1
    have hadds : (s.calling [.send s.fd]).Adds s' := by
      rcases hcases with ⟨queue, hrest⟩ | rfl | rfl
      · have hrec := adds_tcpProcessSendQueue o hrest
        exact ⟨hrec.fd, hrec.calls, hrec.inv⟩
      · exact .refl _
      · exact adds_closeByOwner o _
    exact hadds.keepsOff hafter

theorem adds_pop (s : ConnectionHandler PendingSend) (p : PendingSend)
    (queue : List PendingSend) : s.Adds (s.pop p queue) := by
  have hadds : s.Adds (s.calling ((cleanupFds p.fds).map .closeDescriptor)) :=
    adds_calling (by simp)
  exact ⟨hadds.fd, hadds.calls, hadds.inv⟩

theorem closed_pop {s : ConnectionHandler PendingSend} {p : PendingSend}
    {queue : List PendingSend} : (s.pop p queue).Closed ↔ s.Closed :=
  closed_calling (by simp)

theorem unixProcessSendQueue_cons {s s' : ConnectionHandler PendingSend} {r : SendReturn}
    {rs : List SendReturn} (h : s.unixProcessSendQueue o (r :: rs) = some s') :
    ∃ p rest, s.sendQueue = p :: rest ∧
      ((∃ n, r = .bytes n ∧
          ((s.calling [.send s.fd]).pop p (leftBehind p rest n)).unixProcessSendQueue o rs =
            some s') ∨
        (r = .wouldBlock ∧ s' = s.calling [.send s.fd]) ∨
        (∃ errno, r = .error errno ∧ rs = [] ∧
          s' = if rest = [] then
              (((s.calling [.send s.fd]).pop p rest).closeByOwner o).disableWriteEvents
            else ((s.calling [.send s.fd]).pop p rest).closeByOwner o)) := by
  cases hqueue : s.sendQueue with
  | nil => cases r <;> simp [unixProcessSendQueue, hqueue] at h
  | cons p rest =>
    refine ⟨p, rest, rfl, ?_⟩
    cases r with
    | bytes n =>
      simp only [unixProcessSendQueue, hqueue] at h
      split at h
      · exact .inl ⟨n, rfl, h⟩
      · cases h
    | wouldBlock =>
      simp only [unixProcessSendQueue, hqueue] at h
      split at h
      · cases h
        exact .inr (.inl ⟨rfl, rfl⟩)
      · cases h
    | error errno =>
      simp only [unixProcessSendQueue, hqueue] at h
      split at h
      · rename_i hlast
        cases h
        exact .inr (.inr ⟨errno, rfl, hlast, rfl⟩)
      · cases h

theorem adds_unixProcessSendQueue {s s' : ConnectionHandler PendingSend} {ss : List SendReturn}
    (h : s.unixProcessSendQueue o ss = some s') : s.Adds s' := by
  induction ss generalizing s with
  | nil =>
    simp only [unixProcessSendQueue] at h
    split at h
    · cases h
      exact adds_disableWriteEvents s
    · cases h
  | cons r rs ih =>
    have hsend : s.Adds (s.calling [.send s.fd]) := adds_calling (by simp)
    obtain ⟨p, rest, -, hcases⟩ := unixProcessSendQueue_cons o h
    rcases hcases with ⟨n, -, hrest⟩ | ⟨-, rfl⟩ | ⟨errno, -, -, rfl⟩
    · exact (hsend.trans (adds_pop _ p _)).trans (ih hrest)
    · exact hsend
    · have hclose := (hsend.trans (adds_pop _ p rest)).trans (adds_closeByOwner o _)
      split
      · exact hclose.trans (adds_disableWriteEvents _)
      · exact hclose

/-- On a connection that is open, the Unix loop calls something after its own close just
when a failing `sendmsg` empties the queue while write events are on. -/
theorem unixProcessSendQueue_open {s s' : ConnectionHandler PendingSend} {ss : List SendReturn}
    (hopen : ¬ s.Closed) (h : s.unixProcessSendQueue o ss = some s') :
    KeepsOff s.fd s'.calls ↔ (s.ownerAlive = true → s.known = true →
      s.writeEventsEnabled = true → ¬ LastRefused s.sendQueue ss) := by
  induction ss generalizing s with
  | nil =>
    simp only [unixProcessSendQueue] at h
    split at h
    · rename_i hempty
      cases h
      refine iff_of_true ?_ fun _ _ _ => by simp [hempty, LastRefused]
      exact (keepsOff_disableWriteEvents s).mpr
        ⟨keepsOff_of_not_mem hopen, fun hclosed => absurd hclosed hopen⟩
    · cases h
  | cons r rs ih =>
    have hsent : ¬ (s.calling [.send s.fd]).Closed := by
      rwa [closed_calling (by simp)]
    obtain ⟨p, rest, hqueue, hcases⟩ := unixProcessSendQueue_cons o h
    rcases hcases with ⟨n, rfl, hrest⟩ | ⟨rfl, rfl⟩ | ⟨errno, rfl, rfl, rfl⟩
    · have hrec := ih (fun hc => hsent (closed_pop.mp hc)) hrest
      simp only [hqueue, LastRefused]
      exact hrec
    · refine iff_of_true (keepsOff_of_not_mem hsent) fun _ _ _ => ?_
      simp [hqueue, LastRefused]
    · have hpop : ¬ ((s.calling [.send s.fd]).pop p rest).Closed :=
        fun hc => hsent (closed_pop.mp hc)
      have hclose : KeepsOff s.fd
          (((s.calling [.send s.fd]).pop p rest).closeByOwner o).calls :=
        (keepsOff_closeByOwner o fun _ => hpop).mpr (keepsOff_of_not_mem hpop)
      cases rest with
      | cons q rest => simpa [hqueue, LastRefused] using hclose
      | nil =>
        have hfd := ((adds_pop (s.calling [.send s.fd]) p []).trans (adds_closeByOwner o _)).fd
        have hdisable := keepsOff_disableWriteEvents
          (((s.calling [.send s.fd]).pop p []).closeByOwner o)
        rw [hfd, closed_closeByOwner o hpop, writeEventsEnabled_closeByOwner] at hdisable
        simp only [hqueue, LastRefused, not_true_eq_false, if_true]
        refine (hdisable.trans (and_iff_right hclose)).trans
          ⟨fun hall halive hknown hon => ?_, fun hall hboth => ?_⟩
        · exact absurd (hon.symm.trans (hall ⟨halive, hknown⟩)) (by simp)
        · exact Bool.eq_false_iff.mpr fun hon => hall hboth.1 hboth.2 hon

theorem unixProcessSendQueue_closed {s s' : ConnectionHandler PendingSend}
    {ss : List SendReturn} (hclosed : s.Closed) (hk : KeepsOff s.fd s.calls)
    (h : s.unixProcessSendQueue o ss = some s') : KeepsOff s.fd s'.calls ↔ s.Idle := by
  cases ss with
  | nil =>
    simp only [unixProcessSendQueue] at h
    split at h
    · rename_i hempty
      cases h
      rw [keepsOff_disableWriteEvents]
      simp [hk, hclosed, Idle, hempty]
    · cases h
  | cons r rs =>
    obtain ⟨p, rest, hqueue, hcases⟩ := unixProcessSendQueue_cons o h
    refine iff_of_false (fun hafter => not_keepsOff_send hclosed ?_) fun hidle => by
      simp [hidle.1] at hqueue
    have hadds : (s.calling [.send s.fd]).Adds s' := by
      rcases hcases with ⟨n, -, hrest⟩ | ⟨-, rfl⟩ | ⟨errno, -, -, rfl⟩
      · exact (adds_pop _ p _).trans (adds_unixProcessSendQueue o hrest)
      · exact .refl _
      · have hclose := (adds_pop (s.calling [.send s.fd]) p rest).trans (adds_closeByOwner o _)
        split
        · exact hclose.trans (adds_disableWriteEvents _)
        · exact hclose
    exact hadds.keepsOff hafter

theorem dispatchEvent_eq
    (handleWrite : ConnectionHandler ε → Option (ConnectionHandler ε))
    (s : ConnectionHandler ε) (events : Nat) (rs : List RecvReturn) :
    s.dispatchEvent o handleWrite events rs =
      (if events &&& EPOLLIN ≠ 0 then s.handleRead o rs else some s).bind fun s =>
        (if events &&& EPOLLOUT ≠ 0 then handleWrite s else some s).map fun s =>
          let s := if events &&& EPOLLERR ≠ 0 then s.closeByOwner o else s
          if events &&& (EPOLLHUP ||| EPOLLRDHUP) ≠ 0 then s.closeByOwner o else s := by
  unfold dispatchEvent dispatchCalls
  simp only [List.foldlM_append, Option.bind_eq_bind, bne_iff_ne]
  split <;> split <;> split <;> split <;>
    simp only [handlerCall, List.foldlM_cons, List.foldlM_nil, Option.pure_def,
      Option.bind_eq_bind, Option.bind_fun_some, Option.bind_some, Option.bind_assoc,
      Option.map_eq_bind, Function.comp_def]

theorem handleRead_cases {s s' : ConnectionHandler ε} {rs : List RecvReturn}
    (h : s.handleRead o rs = some s') (hcalls : s.calls = []) :
    (s.ownerAlive = true ∧ s.known = true ∧ recvFails o rs = true ∧ s'.Closed ∧
        KeepsOff s.fd s'.calls ∧ (s'.Idle ↔ s.Idle) ∧ s'.fd = s.fd ∧ s'.known = false) ∨
    (¬ (s.ownerAlive = true ∧ s.known = true ∧ recvFails o rs = true) ∧ ¬ s'.Closed ∧
      ∃ cs, s' = { s with calls := cs }) := by
  unfold handleRead at h
  split at h
  · rename_i halive
    obtain ⟨cs, hcs, hcases⟩ := handleReceive_cases o h
    have hopen : ¬ (s.calling cs).Closed := by
      rw [closed_calling hcs, Closed, hcalls]
      simp
    rcases hcases with ⟨hfine, rfl⟩ | ⟨hfails, rfl⟩
    · exact .inr ⟨by simp [hfine], hopen, _, rfl⟩
    · by_cases hknown : s.known = true
      · refine .inl ⟨halive, hknown, hfails, ?_, ?_, ?_, ?_, ?_⟩
        · exact closed_handleConnectionClose o hknown
        · exact (keepsOff_handleConnectionClose o fun _ => hopen).mpr (keepsOff_of_not_mem hopen)
        · simp [handleConnectionClose, hknown, calling, Idle]
        · simp [handleConnectionClose, hknown, calling]
        · simp [handleConnectionClose, hknown, calling]
      · have hsame : (s.calling cs).handleConnectionClose o = s.calling cs := by
          simp [handleConnectionClose, hknown, calling]
        rw [hsame]
        exact .inr ⟨by simp [hknown], hopen, _, rfl⟩
  · rename_i hgone
    cases h
    exact .inr ⟨fun hall => hgone hall.1, by simp [Closed, hcalls], _, rfl⟩

theorem keepsOff_errorAndClose {s : ConnectionHandler ε} (hi : s.Inv) (events : Nat) :
    KeepsOff s.fd
      (let t := if events &&& EPOLLERR ≠ 0 then s.closeByOwner o else s
       if events &&& (EPOLLHUP ||| EPOLLRDHUP) ≠ 0 then t.closeByOwner o else t).calls ↔
      KeepsOff s.fd s.calls := by
  have herror : ∀ t : ConnectionHandler ε, s.Adds t →
      (KeepsOff s.fd (if events &&& (EPOLLHUP ||| EPOLLRDHUP) ≠ 0 then t.closeByOwner o
        else t).calls ↔ KeepsOff s.fd t.calls) := by
    intro t ht
    split
    · have hclose := keepsOff_closeByOwner o (ht.inv hi)
      rwa [ht.fd] at hclose
    · exact Iff.rfl
  by_cases hevent : events &&& EPOLLERR ≠ 0
  · simp only [if_pos hevent]
    exact (herror _ (adds_closeByOwner o s)).trans (keepsOff_closeByOwner o hi)
  · simp only [if_neg hevent]
    exact herror s (.refl s)

/-- A whole dispatch, by what the class's `HandleWrite` does on a connection that is open
and on one that has been closed. -/
theorem dispatchEvent_keepsOff
    {handleWrite : ConnectionHandler ε → Option (ConnectionHandler ε)}
    {Q : ConnectionHandler ε → Prop}
    (hadds : ∀ s s', handleWrite s = some s' → s.Adds s')
    (hopen : ∀ s s', ¬ s.Closed → handleWrite s = some s' → (KeepsOff s.fd s'.calls ↔ Q s))
    (hclosed : ∀ s s', s.Closed → KeepsOff s.fd s.calls → handleWrite s = some s' →
      (KeepsOff s.fd s'.calls ↔ s.Idle))
    (hquiet : ∀ s cs, Q { s with calls := cs } ↔ Q s)
    {s s' : ConnectionHandler ε} {events : Nat} {rs : List RecvReturn} (hcalls : s.calls = [])
    (h : s.dispatchEvent o handleWrite events rs = some s') :
    KeepsOff s.fd s'.calls ↔ (events &&& EPOLLOUT ≠ 0 →
      (s.ReadCloses o events rs → s.Idle) ∧ (¬ s.ReadCloses o events rs → Q s)) := by
  rw [dispatchEvent_eq] at h
  obtain ⟨t, hread, h⟩ := Option.bind_eq_some_iff.mp h
  obtain ⟨u, hwrite, rfl⟩ := Option.map_eq_some_iff.mp h
  have hstart : ¬ s.Closed := by simp [Closed, hcalls]
  -- after the reading
  have hcases : (s.ReadCloses o events rs ∧ t.Closed ∧ KeepsOff s.fd t.calls ∧
        (t.Idle ↔ s.Idle) ∧ t.fd = s.fd ∧ t.known = false) ∨
      (¬ s.ReadCloses o events rs ∧ ¬ t.Closed ∧ ∃ cs, t = { s with calls := cs }) := by
    split at hread
    · rename_i hin
      rcases handleRead_cases o hread hcalls with ⟨halive, hknown, hfails, hrest⟩ | ⟨hnot, hrest⟩
      · exact .inl ⟨⟨halive, hknown, hin, hfails⟩, hrest⟩
      · exact .inr ⟨fun hall => hnot ⟨hall.1, hall.2.1, hall.2.2.2⟩, hrest⟩
    · rename_i hnoIn
      cases hread
      exact .inr ⟨fun hall => hnoIn hall.2.2.1, hstart, s.calls, rfl⟩
  have hfd : t.fd = s.fd := by
    rcases hcases with ⟨-, -, -, -, hfd, -⟩ | ⟨-, -, cs, rfl⟩
    · exact hfd
    · rfl
  have hinv : t.Inv := by
    rcases hcases with ⟨-, -, -, -, -, hknown⟩ | ⟨-, hnot, -⟩
    · exact fun h => by simp [hknown] at h
    · exact fun _ => hnot
  have hwritten : t.Adds u := by
    split at hwrite
    · exact hadds t u hwrite
    · cases hwrite
      exact .refl t
  have hlast := keepsOff_errorAndClose o (hwritten.inv hinv) events
  rw [hwritten.fd, hfd] at hlast
  refine hlast.trans ?_
  by_cases hout : events &&& EPOLLOUT ≠ 0
  · rw [if_pos hout] at hwrite
    simp only [hout, not_false_eq_true, ne_eq, forall_const]
    rcases hcases with ⟨hcloses, hclose, hk, hidle, -, -⟩ | ⟨hnot, hnotClosed, cs, rfl⟩
    · have hiff := hclosed t u hclose (by rwa [hfd]) hwrite
      rw [hfd] at hiff
      simp [hiff, hidle, hcloses]
    · have hiff := hopen _ u hnotClosed hwrite
      rw [hquiet] at hiff
      simp [hiff, hnot]
  · rw [if_neg hout] at hwrite
    cases hwrite
    refine iff_of_true ?_ fun h => absurd h hout
    rcases hcases with ⟨-, -, hk, -⟩ | ⟨-, hnot, cs, rfl⟩
    · exact hk
    · exact keepsOff_of_not_mem hnot

/-- The dispatches in which no call on the number comes after the connection's close of
it, for each of the four classes. -/
theorem dispatchEvent_keepsOff_iff (events : Nat) (rs : List RecvReturn) (ss : List SendReturn) :
    (∀ s s' : ConnectionHandler (List UInt8), s.calls = [] →
      s.tcpDispatchEvent o events rs ss = some s' →
        (KeepsOff s.fd s'.calls ↔ s.TcpQuiet o events rs)) ∧
    (∀ s s' : ConnectionHandler PendingSend, s.calls = [] →
      s.unixDispatchEvent o events rs ss = some s' →
        (KeepsOff s.fd s'.calls ↔ s.UnixQuiet o events rs ss)) := by
  constructor
  · intro s s' hcalls h
    have hiff := dispatchEvent_keepsOff o (Q := fun _ => True)
      (fun _ _ => adds_tcpProcessSendQueue o)
      (fun s s' hopen h => iff_of_true (tcpProcessSendQueue_open o hopen h) trivial)
      (fun _ _ => tcpProcessSendQueue_closed o) (fun _ _ => Iff.rfl) hcalls h
    simpa [TcpQuiet] using hiff
  · intro s s' hcalls h
    exact dispatchEvent_keepsOff o (fun _ _ => adds_unixProcessSendQueue o)
      (fun _ _ => unixProcessSendQueue_open o) (fun _ _ => unixProcessSendQueue_closed o)
      (fun _ _ => Iff.rfl) hcalls h

def sending {ε : Type} (message : ε) : ConnectionHandler ε :=
  ⟨7, true, true, true, [message], true, []⟩

def twoBytes : PendingSend := ⟨some ⟨0, [1, 2]⟩, 0, [8], false⟩

theorem dispatchEvent_keepsOff_sending :
    (∃ s', (sending [1, 2]).tcpDispatchEvent .server (EPOLLIN ||| EPOLLOUT ||| EPOLLRDHUP)
        [.bytes [9], .disconnect] [.bytes 1, .bytes 1] = some s' ∧
      (KeepsOff 7 s'.calls ↔ (sending [1, 2]).TcpQuiet .server
        (EPOLLIN ||| EPOLLOUT ||| EPOLLRDHUP) [.bytes [9], .disconnect])) ∧
    (∃ s', (sending twoBytes).unixDispatchEvent .client EPOLLOUT [] [.bytes 2] = some s' ∧
      (KeepsOff 7 s'.calls ↔ (sending twoBytes).UnixQuiet .client EPOLLOUT [] [.bytes 2])) :=
  ⟨⟨_, rfl, (dispatchEvent_keepsOff_iff .server _ _ [.bytes 1, .bytes 1]).1 (sending [1, 2]) _
      rfl rfl⟩,
    ⟨_, rfl, (dispatchEvent_keepsOff_iff .client EPOLLOUT [] [.bytes 2]).2 (sending twoBytes) _
      rfl rfl⟩⟩

/-- The peer has reset a connection on which write events are on: the read closes it, and
`HandleWrite` goes on. -/
theorem reset_touches_closed :
    ¬ ∀ (o : Owner) (s s' : ConnectionHandler (List UInt8)) (events : Nat)
      (rs : List RecvReturn) (ss : List SendReturn), s.calls = [] →
        s.tcpDispatchEvent o events rs ss = some s' → KeepsOff s.fd s'.calls := by
  intro h
  have hk := h .server (sending [1, 2]) _ (EPOLLIN ||| EPOLLOUT ||| EPOLLERR) [.error 104]
    [.error 9] rfl rfl
  exact absurd hk (by decide)

end ConnectionHandler

end Lmnet.Epoll
