import Lmnet.IoUring.Clients
import Lmnet.Lib.Machine

/-!
The calls and callbacks of the io_uring clients in sections. A call of the listener is a section
of its own, so that what the listener calls from there, and what other threads do meanwhile, comes
before the rest. A TCP client hands its calls of the listener to its task queue, where they may be
made at once.
-/

set_option autoImplicit false

namespace Lmnet.IoUring

/-- The sections of `HandleReceive`, `StartReceive`, `HandleClose` and the others. `onError` is
about the `socket_` of the moment, the other calls of the listener about what was read before. -/
inductive Section where
  | onReceive (fd : Option Nat)
  | onReceiveUnixMessage (fd : Option Nat)
  | onError
  | onErrorOf (fd : Option Nat)
  | nextRead
  | readFailed
  | handleClose (isError : Bool)
  | closeSocket
  | close
  deriving DecidableEq, Repr

structure ClientFrame where
  op : Option ClientOp
  code : Section
  deriving DecidableEq, Repr

/-- A call or a callback that is under way: what is left of it, and whether the ring's thread
runs it. -/
structure Computation where
  ring : Bool
  rest : List ClientFrame
  deriving DecidableEq, Repr

def UnixClient.hangUp (s : Client) : Client :=
  let t : Client := { s with stream := .empty, isConnected := false }
  if s.isConnected then t.notify [.onClose s.socket] else t

namespace Client

def receives (impl : ClientImpl) (s : Client) : Bool :=
  match impl with
  | .tcp => s.isRunning
  | .unix => s.isRunning && s.isConnected

def writable (impl : ClientImpl) (s : Client) : Bool :=
  match impl with
  | .tcp => s.isRunning && s.socket.isSome
  | .unix => s.isRunning && s.isConnected && s.socket.isSome

end Client

/-- `HandleClose`, and the `Close` by which a TCP client follows it. -/
def ending (impl : ClientImpl) (op : Option ClientOp) (isError : Bool) : List ClientFrame :=
  match impl with
  | .tcp => [⟨op, .handleClose isError⟩, ⟨op, .close⟩]
  | .unix => [⟨op, .handleClose isError⟩, ⟨op, .closeSocket⟩]

def failing (impl : ClientImpl) (op : Option ClientOp) : List ClientFrame :=
  match impl with
  | .tcp => ending .tcp op true
  | .unix => ⟨op, .onError⟩ :: ending .unix op true

def failingOf (op : Option ClientOp) (fd : Option Nat) : List ClientFrame :=
  ⟨op, .onErrorOf fd⟩ :: ending .unix op true

abbrev Going := Client × List ClientFrame

namespace Client

/-- A submission that fails runs its callback, as part of the one it is made in. -/
def submitRead (impl : ClientImpl) (op : Option ClientOp) (s : Client) (submission : Submission) :
    Going :=
  if !s.receives impl then (s, [])
  else if submission.submitted then (s.post .read, [])
  else (s, [⟨op.or (some ⟨.read, s.socket⟩), .readFailed⟩])

def runSection (impl : ClientImpl) (s : Client) (f : ClientFrame) (submission : Submission) :
    Going :=
  match f.code with
  | .onReceive fd => (s.notify [.onReceive fd], [])
  | .onReceiveUnixMessage fd => (s.notify [.onReceiveUnixMessage fd], [])
  | .onError => (s.notify [.onError s.socket], [])
  | .onErrorOf fd => (s.notify [.onError fd], [])
  | .nextRead => s.submitRead impl f.op submission
  | .readFailed =>
      match impl with
      | .tcp => (s, failing .tcp f.op)
      | .unix => (s, if s.isRunning then failing .unix f.op else [])
  | .handleClose isError =>
      match impl with
      | .tcp => (TcpClient.handleClose s isError, [])
      | .unix => (UnixClient.hangUp s, [])
  | .closeSocket => (s.dropSocket, [])
  | .close => (TcpClient.close s, [])

def receiveSections (impl : ClientImpl) (op : Option ClientOp) (s : Client)
    (completion : Completion) : List ClientFrame :=
  if 0 < completion.result then
    let isPlaceholder := !completion.fds.isEmpty && completion.data = [0]
    match impl with
    | .tcp => [⟨op, .onReceive s.socket⟩, ⟨op, .nextRead⟩]
    | .unix =>
        (if isPlaceholder then [] else [⟨op, .onReceive s.socket⟩]) ++
          [⟨op, .onReceiveUnixMessage s.socket⟩, ⟨op, .nextRead⟩]
  else if completion.result = 0 then ending impl op false
  else if impl = .unix ∧ completion.result = -EAGAIN then [⟨op, .nextRead⟩]
  else [⟨op, .readFailed⟩]

def nextWrite (impl : ClientImpl) (op : Option ClientOp) (s : Client) (submission : Submission) :
    Going × Bool :=
  match s.stream.submitNextWrite (s.writable impl) with
  | (stream, .nothing) => (({ s with stream := stream }, []), true)
  | (stream, .fail) => (({ s with stream := stream }, []), false)
  | (stream, .submit _) =>
      let s : Client := { s with stream := stream }
      if submission.submitted then ((s.post .write, []), true)
      else ((s, failing impl (op.or (some ⟨.write, s.socket⟩))), false)

def orFailing (impl : ClientImpl) (op : Option ClientOp) (next : Going × Bool) : Going :=
  if next.2 then next.1 else (next.1.1, next.1.2 ++ failing impl op)

def queueWrite (impl : ClientImpl) (op : Option ClientOp) (s : Client) (buffer : List UInt8)
    (submission : Submission) : Going × Bool :=
  match s.stream.queueStreamWrite buffer with
  | (stream, .submitNext) =>
      let next := nextWrite impl op { s with stream := stream } submission
      (orFailing impl op next, next.2)
  | (stream, _) => (({ s with stream := stream }, []), true)

def sendSection (impl : ClientImpl) (s : Client) (data : Option (List UInt8))
    (submission : Submission) : Going :=
  match data with
  | none => (s, [])
  | some buffer =>
      let ready := match impl with
        | .tcp => s.isRunning && s.socket.isSome
        | .unix => s.isRunning && s.isConnected
      if buffer.isEmpty || !ready then (s, []) else (queueWrite impl none s buffer submission).1

def writeSection (impl : ClientImpl) (op : Option ClientOp) (s : Client) (result : Int)
    (submission : Submission) : Going :=
  match s.stream.handleWriteComplete result with
  | (stream, .done) => ({ s with stream := stream }, [])
  | (stream, .fail) => ({ s with stream := stream }, failing impl op)
  | (stream, .submitNext) =>
      orFailing impl op (nextWrite impl op { s with stream := stream } submission)

def messageSection (op : Option ClientOp) (s : Client) (fd : Option Nat)
    (buffer : Option (List UInt8)) (result : Int) (submission : Submission) : Going :=
  if result ≤ 0 then (s, failingOf op fd)
  else
    match UnixClient.remaining buffer result with
    | none => (s, [])
    | some rest =>
        let next := queueWrite .unix op s rest submission
        if next.2 then next.1 else (next.1.1, next.1.2 ++ failingOf op fd)

def sendWithFdsSection (s : Client) (buffer : Option (List UInt8)) (fds duplicatedFds : List Fd)
    (outcome : MessageOutcome) : Going :=
  if !s.isRunning || !s.isConnected || (noBytes buffer && fds.isEmpty) then (s, [])
  else if !fds.isEmpty && duplicatedFds.isEmpty then (s, [])
  else
    match outcome with
    | .submitted => (s.post (.message buffer), [])
    | .failed => (s, failingOf (some ⟨.message buffer, s.socket⟩) s.socket)
    | .wrongFamily => (s, [])

def connectSection (impl : ClientImpl) (s : Client) (connected : Bool) (outcome : ReInitOutcome)
    (submission : Submission) : Going :=
  match impl with
  | .tcp =>
      if !s.isRunning || s.socket.isNone then (s, [])
      else if connected then submitRead .tcp none { s with isConnected := true } submission
      else (s.reInit .tcp outcome, [])
  | .unix =>
      if !s.isRunning then (s, [])
      else if connected && s.socket.isSome then
        let next := submitRead .unix none { s with isConnected := true } submission
        -- after `EAGAIN` a callback has submitted the read, and `StartReceive` returns false
        if submission.submitted && submission.again = 0 then next
        else (next.1, next.2 ++ ending .unix none false)
      else (s.reInit .unix outcome, [])

def closeSection (impl : ClientImpl) (s : Client) : Going :=
  match impl with
  | .tcp => (s, [⟨none, .close⟩])
  | .unix =>
      if s.isRunning then ({ s with isRunning := false }, ending .unix none false) else (s, [])

def completeSection (impl : ClientImpl) (s : Client) (op : ClientOp) (completion : Completion)
    (submission : Submission) : Going :=
  match impl, op.kind with
  | impl, .read => (s, s.receiveSections impl (some op) completion)
  | impl, .write => s.writeSection impl (some op) completion.result submission
  | .tcp, .message _ => (s, [])
  | .unix, .message buffer =>
      s.messageSection (some op) op.socket buffer completion.result submission

/-- A call or a callback up to the first call of the listener. -/
def beginning (impl : ClientImpl) (s : Client) : ClientAct → Option Going
  | .init outcome manager => some (s.init impl outcome manager, [])
  | .connect connected outcome submission =>
      some (s.connectSection impl connected outcome submission)
  | .send data submission => some (s.sendSection impl data submission)
  | .sendWithFds data fds duplicatedFds outcome =>
      match impl with
      | .tcp => none
      | .unix => some (s.sendWithFdsSection data fds duplicatedFds outcome)
  | .close => some (s.closeSection impl)
  | .complete k completion submission =>
      s.inFlight[k]?.map fun op =>
        completeSection impl { s with inFlight := s.inFlight.eraseIdx k } op completion submission

end Client

def ClientAct.isCompletion : ClientAct → Bool
  | .complete .. => true
  | _ => false

inductive SectionAct where
  | call (a : ClientAct)
  | resume (i : Nat) (submission : Submission)
  deriving DecidableEq, Repr

structure BusyClient where
  client : Client
  underWay : List Computation
  deriving DecidableEq, Repr

namespace BusyClient

def ringBusy (s : BusyClient) : Bool := s.underWay.any fun c => c.ring && !c.rest.isEmpty

/-- A call can come at any time, the callback of a completion when the ring's thread is free, and
whatever is under way goes on with its next section. -/
def step (impl : ClientImpl) (s : BusyClient) : SectionAct → Option BusyClient
  | .call a =>
      if a.isCompletion && s.ringBusy then none
      else
        (s.client.beginning impl a).map fun next =>
          ⟨next.1, s.underWay ++ [⟨a.isCompletion, next.2⟩]⟩
  | .resume i submission =>
      match s.underWay[i]? with
      | some ⟨ring, f :: rest⟩ =>
          let next := s.client.runSection impl f submission
          some ⟨next.1, s.underWay.set i ⟨ring, next.2 ++ rest⟩⟩
      | _ => none

def created (listening : Bool) : BusyClient := ⟨.created listening, []⟩

def machine (impl : ClientImpl) : Machine BusyClient SectionAct where
  init s := ∃ listening, s = created listening
  step := step impl

end BusyClient

/-! ### When nothing comes in between -/

theorem startReceive_fst (s : Client) (submitted : Bool) (again : Nat) :
    (UnixClient.startReceive s submitted again).1 =
      if s.receives .unix then (if submitted then s.post .read else UnixClient.readFailed s)
      else s := by
  induction again with
  | zero =>
    cases hrunning : s.isRunning <;> cases hconnected : s.isConnected <;> cases submitted <;>
      simp [UnixClient.startReceive, Client.receives, hrunning, hconnected]
  | succ again ih =>
    rw [UnixClient.startReceive]
    split
    · rename_i hclosed
      have hnot : s.receives .unix = false := by
        cases hrunning : s.isRunning <;> cases hconnected : s.isConnected <;>
          simp_all [Client.receives]
      rw [hnot]
      rfl
    · exact ih

theorem startReceive_snd (s : Client) (submitted : Bool) (again : Nat) :
    (UnixClient.startReceive s submitted again).2 =
      (s.receives .unix && submitted && again = 0) := by
  cases again <;> cases hrunning : s.isRunning <;> cases hconnected : s.isConnected <;>
    cases submitted <;> simp [UnixClient.startReceive, Client.receives, hrunning, hconnected]

def ClientAct.submission : ClientAct → Submission
  | .connect _ _ submission | .send _ submission | .complete _ _ submission => submission
  | .init _ _ | .sendWithFds .. | .close => ⟨0, true⟩

namespace Client

def whole (impl : ClientImpl) (submission : Submission) (s : Client) (f : ClientFrame) : Client :=
  match f.code, impl with
  | .nextRead, .tcp => TcpClient.submitRead s submission
  | .nextRead, .unix => (UnixClient.startReceive s submission.submitted submission.again).1
  | .readFailed, .tcp => TcpClient.close (TcpClient.handleClose s true)
  | .readFailed, .unix => UnixClient.readFailed s
  | _, _ => (s.runSection impl f submission).1

def finish (impl : ClientImpl) (submission : Submission) (g : Going) : Client :=
  g.2.foldl (whole impl submission) g.1

theorem finish_append (impl : ClientImpl) (submission : Submission) (s : Client)
    (fs gs : List ClientFrame) : finish impl submission (s, fs ++ gs) =
      finish impl submission (finish impl submission (s, fs), gs) := List.foldl_append

theorem finish_failingOf (submission : Submission) (s : Client) (op : Option ClientOp)
    (fd : Option Nat) : finish .unix submission (s, failingOf op fd) = UnixClient.failWith s fd :=
  rfl

theorem finish_runSection (impl : ClientImpl) (submission : Submission) (s : Client)
    (f : ClientFrame) :
    finish impl submission (s.runSection impl f submission) = whole impl submission s f := by
  obtain ⟨op, code⟩ := f
  cases code with
  | nextRead =>
    cases impl with
    | tcp =>
      simp only [runSection, submitRead, whole, TcpClient.submitRead, receives]
      cases s.isRunning <;> cases submission.submitted <;> rfl
    | unix =>
      simp only [runSection, submitRead, whole, startReceive_fst]
      cases s.receives .unix <;> cases submission.submitted <;> rfl
  | readFailed =>
    cases impl with
    | tcp => rfl
    | unix =>
      simp only [runSection, whole, UnixClient.readFailed]
      cases s.isRunning <;> rfl
  | handleClose isError => cases impl <;> rfl
  | _ => cases impl <;> rfl

theorem finish_nextWrite_tcp (op : Option ClientOp) (s : Client) (submission : Submission) :
    (finish .tcp submission (nextWrite .tcp op s submission).1,
      (nextWrite .tcp op s submission).2) = TcpClient.submitNextWrite s submission := by
  unfold nextWrite TcpClient.submitNextWrite writable
  split <;> rename_i heq <;> rw [heq]
  · rfl
  · rfl
  · dsimp only
    split <;> rfl

theorem finish_nextWrite_unix (op : Option ClientOp) (s : Client) (submission : Submission) :
    (finish .unix submission (nextWrite .unix op s submission).1,
      (nextWrite .unix op s submission).2) = UnixClient.submitNextWrite s submission := by
  unfold nextWrite UnixClient.submitNextWrite writable
  split <;> rename_i heq <;> rw [heq]
  · rfl
  · rfl
  · dsimp only
    split <;> rfl

theorem finish_orFailing_tcp (op : Option ClientOp) (next : Going × Bool)
    (submission : Submission) : finish .tcp submission (orFailing .tcp op next) =
      if next.2 then finish .tcp submission next.1
      else TcpClient.close (TcpClient.handleClose (finish .tcp submission next.1) true) := by
  unfold orFailing
  split
  · rfl
  · exact finish_append .tcp submission _ _ _

theorem finish_orFailing_unix (op : Option ClientOp) (next : Going × Bool)
    (submission : Submission) : finish .unix submission (orFailing .unix op next) =
      if next.2 then finish .unix submission next.1
      else UnixClient.failWith (finish .unix submission next.1)
        (finish .unix submission next.1).socket := by
  unfold orFailing
  split
  · rfl
  · exact finish_append .unix submission _ _ _

theorem finish_queueWrite_unix (op : Option ClientOp) (s : Client) (buffer : List UInt8)
    (submission : Submission) :
    (finish .unix submission (queueWrite .unix op s buffer submission).1,
      (queueWrite .unix op s buffer submission).2) =
        UnixClient.queueStreamWrite s buffer submission := by
  unfold queueWrite UnixClient.queueStreamWrite Stream.queueStreamWrite
  cases s.stream.writeInFlight with
  | true => rfl
  | false =>
    simp only [Bool.false_eq_true, if_false]
    rw [finish_orFailing_unix, ← finish_nextWrite_unix op]
    cases (nextWrite .unix op { s with stream := _ } submission).2 <;> simp

theorem finish_sendSection (impl : ClientImpl) (s : Client) (data : Option (List UInt8))
    (submission : Submission) : finish impl submission (s.sendSection impl data submission) =
      match impl with
      | .tcp => TcpClient.send s data submission
      | .unix => UnixClient.send s data submission := by
  cases data with
  | none => cases impl <;> rfl
  | some buffer =>
    cases impl with
    | tcp =>
      have hready : (buffer.isEmpty || !(s.isRunning && s.socket.isSome)) =
          (buffer.isEmpty || !s.isRunning || s.socket.isNone) := by
        cases buffer.isEmpty <;> cases s.isRunning <;> cases s.socket <;> rfl
      simp only [sendSection, TcpClient.send, hready]
      split
      · rfl
      · unfold queueWrite Stream.queueStreamWrite
        cases s.stream.writeInFlight with
        | true => rfl
        | false =>
          simp only [Bool.false_eq_true, if_false]
          rw [finish_orFailing_tcp, ← finish_nextWrite_tcp none]
    | unix =>
      have hready : (buffer.isEmpty || !(s.isRunning && s.isConnected)) =
          (!s.isRunning || !s.isConnected || buffer.isEmpty) := by
        cases buffer.isEmpty <;> cases s.isRunning <;> cases s.isConnected <;> rfl
      simp only [sendSection, UnixClient.send, hready]
      split
      · rfl
      · rw [← finish_queueWrite_unix none]

theorem finish_submitRead_tcp (op : Option ClientOp) (s : Client) (submission : Submission) :
    finish .tcp submission (s.submitRead .tcp op submission) = TcpClient.submitRead s submission :=
  finish_runSection .tcp submission s ⟨op, .nextRead⟩

theorem finish_submitRead_unix (op : Option ClientOp) (s : Client) (submission : Submission) :
    finish .unix submission (s.submitRead .unix op submission) =
      (UnixClient.startReceive s submission.submitted submission.again).1 :=
  finish_runSection .unix submission s ⟨op, .nextRead⟩

theorem finish_connectSection (impl : ClientImpl) (s : Client) (connected : Bool)
    (outcome : ReInitOutcome) (submission : Submission) :
    finish impl submission (s.connectSection impl connected outcome submission) =
      match impl with
      | .tcp => TcpClient.connect s connected outcome submission
      | .unix => UnixClient.connect s connected outcome submission := by
  cases impl with
  | tcp =>
    simp only [connectSection, TcpClient.connect]
    split
    · rfl
    · split
      · exact finish_submitRead_tcp none _ submission
      · rfl
  | unix =>
    simp only [connectSection, UnixClient.connect]
    split
    · rfl
    · rename_i hrunning
      split
      · have hreceives : ({ s with isConnected := true } : Client).receives .unix = true := by
          simpa [receives] using hrunning
        rw [startReceive_snd, hreceives, Bool.true_and]
        split
        · exact finish_submitRead_unix none _ submission
        · rw [finish_append, ← finish_submitRead_unix none]
          rfl
      · rfl

theorem finish_writeSection (impl : ClientImpl) (op : Option ClientOp) (s : Client) (result : Int)
    (submission : Submission) : finish impl submission (s.writeSection impl op result submission) =
      match impl with
      | .tcp => TcpClient.handleWriteComplete s result submission
      | .unix => UnixClient.handleWriteComplete s result submission := by
  cases impl with
  | tcp =>
    simp only [writeSection, TcpClient.handleWriteComplete]
    obtain ⟨stream, next⟩ := s.stream.handleWriteComplete result
    cases next with
    | done => rfl
    | fail => rfl
    | submitNext =>
      dsimp only
      rw [finish_orFailing_tcp, ← finish_nextWrite_tcp op]
  | unix =>
    simp only [writeSection, UnixClient.handleWriteComplete]
    obtain ⟨stream, next⟩ := s.stream.handleWriteComplete result
    cases next with
    | done => rfl
    | fail => rfl
    | submitNext =>
      dsimp only
      rw [finish_orFailing_unix, ← finish_nextWrite_unix op]

theorem notify_notify (s : Client) (events more : List ClientEvent) :
    (s.notify events).notify more = s.notify (events ++ more) := by
  unfold notify
  cases hlistening : s.listening <;> simp [hlistening]

theorem finish_receiveSections (impl : ClientImpl) (op : Option ClientOp) (s : Client)
    (completion : Completion) (submission : Submission) :
    finish impl submission (s, s.receiveSections impl op completion) =
      match impl with
      | .tcp => TcpClient.handleReceive s completion.result submission
      | .unix => UnixClient.handleReceiveWithFds s completion submission := by
  obtain hpos | hzero | hneg := Int.lt_trichotomy 0 completion.result
  · cases impl with
    | tcp => simp [receiveSections, TcpClient.handleReceive, hpos, finish, whole, runSection]
    | unix =>
      simp only [receiveSections, UnixClient.handleReceiveWithFds, UnixClient.deliver,
        UnixClient.processClientMessage, hpos, if_true]
      split
      · rfl
      · exact congrArg (fun t => (UnixClient.startReceive t submission.submitted
          submission.again).1) (notify_notify s _ _)
  · cases impl with
    | tcp =>
      simp [receiveSections, TcpClient.handleReceive, ← hzero, finish, whole, runSection, ending]
    | unix =>
      simp only [receiveSections, UnixClient.handleReceiveWithFds, UnixClient.deliver, ← hzero]
      rfl
  · have hpos : ¬ 0 < completion.result := by omega
    have hzero : completion.result ≠ 0 := by omega
    cases impl with
    | tcp => simp [receiveSections, TcpClient.handleReceive, hpos, hzero, hneg, finish, whole]
    | unix =>
      simp only [receiveSections, UnixClient.handleReceiveWithFds, UnixClient.deliver, hpos,
        hzero, if_false, true_and]
      split <;> rfl

theorem finish_messageSection (op : Option ClientOp) (s : Client) (fd : Option Nat)
    (buffer : Option (List UInt8)) (result : Int) (submission : Submission) :
    finish .unix submission (s.messageSection op fd buffer result submission) =
      UnixClient.sendMsgComplete s fd buffer result submission := by
  simp only [messageSection, UnixClient.sendMsgComplete]
  split
  · rfl
  · cases UnixClient.remaining buffer result with
    | none => rfl
    | some rest =>
      dsimp only
      rw [← finish_queueWrite_unix op]
      split
      · rfl
      · rw [finish_append, finish_failingOf]

theorem finish_completeSection (impl : ClientImpl) (s : Client) (op : ClientOp)
    (completion : Completion) (submission : Submission) :
    finish impl submission (s.completeSection impl op completion submission) =
      s.handle impl op completion submission := by
  obtain ⟨kind, socket⟩ := op
  cases kind with
  | read => cases impl <;> exact finish_receiveSections _ _ s completion submission
  | write => cases impl <;> exact finish_writeSection _ _ s completion.result submission
  | message buffer =>
    cases impl with
    | tcp => rfl
    | unix => exact finish_messageSection _ s socket buffer completion.result submission

/-- A call or a callback with nothing in between is a step of the client as a whole. -/
theorem finish_beginning (impl : ClientImpl) (s : Client) (a : ClientAct) :
    (s.beginning impl a).map (finish impl a.submission) = s.step impl a := by
  cases a with
  | init outcome manager => rfl
  | connect connected outcome submission =>
    exact congrArg some (finish_connectSection impl s connected outcome submission)
  | send data submission => exact congrArg some (finish_sendSection impl s data submission)
  | sendWithFds data fds duplicatedFds outcome =>
    cases impl with
    | tcp => rfl
    | unix =>
      refine congrArg some ?_
      simp only [sendWithFdsSection, UnixClient.sendWithFds, UnixClient.sendUnixMessage]
      split
      · rfl
      · split
        · rfl
        · cases outcome <;> rfl
  | close =>
    cases impl with
    | tcp => rfl
    | unix =>
      refine congrArg some ?_
      simp only [closeSection, UnixClient.close]
      split <;> rfl
  | complete k completion submission =>
    simp only [beginning, step, Option.map_map]
    congr 1
    funext op
    exact finish_completeSection impl _ op completion submission

end Client

def Section.size : Section → Nat
  | .nextRead => 5
  | .readFailed => 4
  | _ => 1

def sizeOfRest (rest : List ClientFrame) : Nat := (rest.map fun f => f.code.size).sum

theorem size_runSection (impl : ClientImpl) (s : Client) (f : ClientFrame)
    (submission : Submission) : sizeOfRest (s.runSection impl f submission).2 < f.code.size := by
  obtain ⟨op, code⟩ := f
  cases code with
  | nextRead =>
    simp only [Client.runSection, Client.submitRead]
    split
    · simp [sizeOfRest, Section.size]
    · split <;> simp [sizeOfRest, Section.size]
  | readFailed =>
    cases impl <;> simp only [Client.runSection]
    · simp [sizeOfRest, failing, ending, Section.size]
    · split <;> simp [sizeOfRest, failing, ending, Section.size]
  | handleClose isError => cases impl <;> simp [Client.runSection, sizeOfRest, Section.size]
  | _ => simp [Client.runSection, sizeOfRest, Section.size]

namespace BusyClient

theorem exists_run_finish (impl : ClientImpl) (ring : Bool) (submission : Submission) (g : Going) :
    ∃ n, (machine impl).run ⟨g.1, [⟨ring, g.2⟩]⟩ (List.replicate n (.resume 0 submission)) =
      some ⟨Client.finish impl submission g, [⟨ring, []⟩]⟩ := by
  obtain ⟨s, rest⟩ := g
  induction hsize : sizeOfRest rest using Nat.strongRecOn generalizing s rest with
  | ind size ih =>
    cases rest with
    | nil => exact ⟨0, rfl⟩
    | cons f rest =>
      subst hsize
      have hlt := size_runSection impl s f submission
      obtain ⟨n, hn⟩ := ih (sizeOfRest ((s.runSection impl f submission).2 ++ rest))
        (by simp only [sizeOfRest, List.map_append, List.map_cons, List.sum_append,
              List.sum_cons] at hlt ⊢
            omega) (s.runSection impl f submission).1 _ rfl
      refine ⟨n + 1, ?_⟩
      rw [Client.finish_append, show Client.finish impl submission
        ((s.runSection impl f submission).1, (s.runSection impl f submission).2) = _ from
          Client.finish_runSection impl submission s f] at hn
      exact (machine impl).run_cons.mpr ⟨_, rfl, hn⟩

/-- What the client does in one step when nothing comes in between, it does in sections. -/
theorem exists_run_of_step {impl : ClientImpl} {s t : Client} {a : ClientAct}
    (h : s.step impl a = some t) :
    ∃ n, (machine impl).run ⟨s, []⟩ (.call a :: List.replicate n (.resume 0 a.submission)) =
      some ⟨t, [⟨a.isCompletion, []⟩]⟩ := by
  rw [← Client.finish_beginning] at h
  obtain ⟨g, hg, rfl⟩ := Option.map_eq_some_iff.mp h
  obtain ⟨n, hn⟩ := exists_run_finish impl a.isCompletion a.submission g
  refine ⟨n, (machine impl).run_cons.mpr ⟨⟨g.1, [⟨a.isCompletion, g.2⟩]⟩, ?_, hn⟩⟩
  simp [machine, step, ringBusy, hg]

end BusyClient

end Lmnet.IoUring
