import Lmnet.IoUring.ClientSections

set_option autoImplicit false

namespace Lmnet.IoUring

def ClientEvent.disturbs : ClientEvent → Bool
  | .onReceive _ | .onReceiveUnixMessage _ | .onClose _ | .closed _ => true
  | .onError _ => false

/-- A write is in flight only while something is queued. -/
def Stream.Idle (st : Stream) : Prop := st.sendQueue = [] → st.writeInFlight = false

namespace Client

def news (s : Client) : List ClientEvent := s.log.filter ClientEvent.disturbs

def reads (s : Client) : Nat := s.inFlight.countP fun op => op.kind == .read

/-- What a callback must not change: no data is delivered, nothing is closed or reported
closed, the write queue is as it was, and no read is started. -/
structure Undisturbed (s t : Client) : Prop where
  news : t.news = s.news
  stream : t.stream = s.stream
  reads : t.reads = s.reads

def Stale (s : Client) (op : ClientOp) : Prop := ∃ fd, op.socket = some fd ∧ s.socket ≠ some fd

end Client

namespace BusyClient

/-- A section of the callback of an operation of an earlier socket leaves the client
undisturbed. -/
def Spares (s : BusyClient) (a : SectionAct) (t : BusyClient) : Prop :=
  match a with
  | .call (.complete k _ _) => ∀ op, s.client.inFlight[k]? = some op → s.client.Stale op →
      Client.Undisturbed { s.client with inFlight := s.client.inFlight.eraseIdx k } t.client
  | .call _ => True
  | .resume i _ => ∀ ring f rest op, s.underWay[i]? = some ⟨ring, f :: rest⟩ → f.op = some op →
      s.client.Stale op → s.client.Undisturbed t.client

end BusyClient

theorem Stream.idle_of_ne {st : Stream} (h : st.sendQueue ≠ []) : st.Idle := fun h' => absurd h' h

theorem Stream.Idle.submitNextWrite {st : Stream} (h : st.Idle) (isRunning : Bool) :
    (st.submitNextWrite isRunning).1.Idle := by
  unfold Stream.submitNextWrite
  split
  · exact fun _ => rfl
  · split
    · exact h
    · exact fun _ => rfl

theorem Stream.queueStreamWrite_eq (st : Stream) (buffer : List UInt8) :
    st.queueStreamWrite buffer = (⟨st.sendQueue ++ [buffer], true⟩,
      if st.writeInFlight then .done else .submitNext) := by
  unfold Stream.queueStreamWrite
  split <;> rfl

inductive Stream.Wrote (st : Stream) (result : Int) : Stream × WriteNext → Prop
  | failed (h : result < 0) : Wrote st result (st, .fail)
  | none (h : 0 ≤ result) (hqueue : st.sendQueue = []) : Wrote st result (.empty, .done)
  | nothing (hresult : result = 0) (hqueue : st.sendQueue ≠ []) :
      Wrote st result (⟨st.sendQueue, false⟩, .fail)
  | rest {st' : Stream} (h : 0 < result) (hne : st'.sendQueue ≠ st.sendQueue)
      (hqueue : st.sendQueue ≠ []) (hnext : st'.sendQueue ≠ []) :
      Wrote st result (st', .submitNext)
  | all (h : 0 < result) (hqueue : st.sendQueue ≠ []) : Wrote st result (.empty, .done)

theorem Stream.handleWriteComplete_wrote (st : Stream) (result : Int) :
    st.Wrote result (st.handleWriteComplete result) := by
  unfold Stream.handleWriteComplete Stream.handleStreamWriteComplete
  split
  · rename_i h
    exact .failed h
  · rename_i h
    have hle : 0 ≤ result := by omega
    cases hqueue : st.sendQueue with
    | nil => exact .none hle hqueue
    | cons b rest =>
      have hne : st.sendQueue ≠ [] := by simp [hqueue]
      dsimp only
      split
      · rename_i hzero
        rw [← hqueue]
        exact .nothing hzero hne
      · have hpos : 0 < result := by omega
        split
        · rename_i hzero hlt
          refine .rest hpos (fun heq => ?_) hne (by simp)
          rw [hqueue] at heq
          have hlength := congrArg List.length (List.cons.inj heq).1
          rw [List.length_drop] at hlength
          omega
        · cases rest with
          | nil => exact .all hpos hne
          | cons c rest =>
            refine .rest hpos (fun heq => ?_) hne (by simp)
            rw [hqueue] at heq
            have hlength := congrArg List.length heq
            simp at hlength

theorem Stream.Idle.handleWriteComplete {st : Stream} (h : st.Idle) (result : Int) :
    (st.handleWriteComplete result).1.Idle := by
  have hwrote := st.handleWriteComplete_wrote result
  generalize st.handleWriteComplete result = next at hwrote
  cases hwrote with
  | failed => exact h
  | none => exact fun _ => rfl
  | nothing => exact fun _ => rfl
  | rest _ _ _ hnext => exact Stream.idle_of_ne hnext
  | all => exact fun _ => rfl

namespace Client

@[simp] theorem news_notify (s : Client) (events : List ClientEvent) :
    (s.notify events).news =
      s.news ++ if s.listening then events.filter ClientEvent.disturbs else [] := by
  unfold notify news
  cases s.listening <;> simp

@[simp] theorem reads_notify (s : Client) (events : List ClientEvent) :
    (s.notify events).reads = s.reads := by
  unfold notify
  split <;> rfl

@[simp] theorem orFailing_fst (impl : ClientImpl) (op : Option ClientOp) (next : Going × Bool) :
    (orFailing impl op next).1 = next.1.1 := by
  unfold orFailing
  split <;> rfl

theorem stream_nextWrite (impl : ClientImpl) (op : Option ClientOp) (s : Client)
    (submission : Submission) : (nextWrite impl op s submission).1.1.stream =
      (s.stream.submitNextWrite (s.writable impl)).1 := by
  unfold nextWrite
  split <;> rename_i heq <;> rw [heq]
  split <;> rfl

theorem sendQueue_submitNextWrite (st : Stream) (isRunning : Bool) :
    (st.submitNextWrite isRunning).1.sendQueue = st.sendQueue := by
  unfold Stream.submitNextWrite
  split
  · rfl
  · split <;> rfl

theorem sendQueue_nextWrite (impl : ClientImpl) (op : Option ClientOp) (s : Client)
    (submission : Submission) :
    (nextWrite impl op s submission).1.1.stream.sendQueue = s.stream.sendQueue := by
  rw [stream_nextWrite, sendQueue_submitNextWrite]

theorem sendQueue_queueWrite (impl : ClientImpl) (op : Option ClientOp) (s : Client)
    (buffer : List UInt8) (submission : Submission) :
    (queueWrite impl op s buffer submission).1.1.stream.sendQueue =
      s.stream.sendQueue ++ [buffer] := by
  unfold queueWrite
  rw [Stream.queueStreamWrite_eq]
  cases s.stream.writeInFlight with
  | true => rfl
  | false => simp [sendQueue_nextWrite]

theorem idle_nextWrite {impl : ClientImpl} {op : Option ClientOp} {s : Client}
    (hs : s.stream.Idle) (submission : Submission) :
    (nextWrite impl op s submission).1.1.stream.Idle := by
  rw [stream_nextWrite]
  exact hs.submitNextWrite _

theorem idle_queueWrite (impl : ClientImpl) (op : Option ClientOp) (s : Client)
    (buffer : List UInt8) (submission : Submission) :
    (queueWrite impl op s buffer submission).1.1.stream.Idle := by
  refine Stream.idle_of_ne ?_
  rw [sendQueue_queueWrite]
  simp

theorem idle_writeSection {impl : ClientImpl} {op : Option ClientOp} {s : Client}
    (hs : s.stream.Idle) (result : Int) (submission : Submission) :
    (s.writeSection impl op result submission).1.stream.Idle := by
  have hidle := hs.handleWriteComplete result
  unfold writeSection
  split
  · rename_i heq
    rwa [heq] at hidle
  · rename_i heq
    rwa [heq] at hidle
  · rename_i heq
    rw [heq] at hidle
    rw [orFailing_fst]
    exact idle_nextWrite (s := { s with stream := _ }) hidle submission

theorem stream_submitRead (impl : ClientImpl) (op : Option ClientOp) (s : Client)
    (submission : Submission) : (s.submitRead impl op submission).1.stream = s.stream := by
  unfold submitRead
  split
  · rfl
  · split <;> rfl

theorem idle_completeSection {impl : ClientImpl} {s : Client} (hs : s.stream.Idle) (op : ClientOp)
    (completion : Completion) (submission : Submission) :
    (s.completeSection impl op completion submission).1.stream.Idle := by
  obtain ⟨kind, socket⟩ := op
  cases kind with
  | read => exact hs
  | write => exact idle_writeSection hs completion.result submission
  | message buffer =>
    cases impl with
    | tcp => exact hs
    | unix =>
      simp only [completeSection, messageSection]
      split
      · exact hs
      · split
        · exact hs
        · split <;> exact idle_queueWrite .unix _ s _ submission

theorem idle_beginning {impl : ClientImpl} {s : Client} {a : ClientAct} {next : Going}
    (hs : s.stream.Idle) (h : s.beginning impl a = some next) : next.1.stream.Idle := by
  cases a with
  | init outcome manager =>
    cases h
    rw [stream_init]
    exact hs
  | connect connected outcome submission =>
    cases h
    cases impl <;> simp only [connectSection]
    · split
      · exact hs
      · split
        · rw [stream_submitRead]
          exact hs
        · rw [stream_reInit]
          exact hs
    · split
      · exact hs
      · split
        · split <;>
          · rw [stream_submitRead]
            exact hs
        · rw [stream_reInit]
          exact hs
  | send data submission =>
    cases h
    cases data with
    | none => exact hs
    | some buffer =>
      cases impl <;> simp only [sendSection] <;> split <;>
        first | exact hs | exact idle_queueWrite _ none s buffer submission
  | sendWithFds data fds duplicatedFds outcome =>
    cases impl <;> cases h
    simp only [sendWithFdsSection]
    split
    · exact hs
    · split
      · exact hs
      · cases outcome <;> exact hs
  | close =>
    cases h
    cases impl
    · exact hs
    · simp only [closeSection]
      split <;> exact hs
  | complete k completion submission =>
    obtain ⟨op, -, rfl⟩ := Option.map_eq_some_iff.mp h
    exact idle_completeSection (s := { s with inFlight := s.inFlight.eraseIdx k }) hs op completion
      submission

theorem idle_close {s : Client} (hs : s.stream.Idle) : (TcpClient.close s).stream.Idle := by
  unfold TcpClient.close
  dsimp only
  split
  · exact hs
  · split
    · exact fun _ => rfl
    · split
      · rw [TcpClient.notifyClose, stream_notify, stream_dropSocket]
        exact fun _ => rfl
      · rw [stream_dropSocket]
        exact fun _ => rfl

theorem idle_runSection {impl : ClientImpl} {s : Client} (hs : s.stream.Idle) (f : ClientFrame)
    (submission : Submission) : (s.runSection impl f submission).1.stream.Idle := by
  obtain ⟨op, code⟩ := f
  cases code with
  | onReceive | onReceiveUnixMessage | onError | onErrorOf =>
    simp only [runSection, stream_notify]
    exact hs
  | nextRead =>
    simp only [runSection, stream_submitRead]
    exact hs
  | readFailed => cases impl <;> exact hs
  | handleClose isError =>
    cases impl <;> simp only [runSection]
    · unfold TcpClient.handleClose TcpClient.notifyClose
      split
      · rw [stream_notify]
        exact hs
      · exact hs
    · unfold UnixClient.hangUp
      dsimp only
      split
      · rw [stream_notify]
        exact fun _ => rfl
      · exact fun _ => rfl
  | closeSocket =>
    simp only [runSection, stream_dropSocket]
    exact hs
  | close => exact idle_close hs

end Client

namespace BusyClient

/-- What a step is: the beginning of a call, or a section of something under way. -/
theorem step_cases {impl : ClientImpl} {s t : BusyClient} {a : SectionAct}
    (h : s.step impl a = some t) :
    (∃ b next, a = .call b ∧ s.client.beginning impl b = some next ∧
      t = ⟨next.1, s.underWay ++ [⟨b.isCompletion, next.2⟩]⟩) ∨
    ∃ i submission ring f rest, a = .resume i submission ∧
      s.underWay[i]? = some ⟨ring, f :: rest⟩ ∧
      t = ⟨(s.client.runSection impl f submission).1,
        s.underWay.set i ⟨ring, (s.client.runSection impl f submission).2 ++ rest⟩⟩ := by
  cases a with
  | call b =>
    simp only [step] at h
    split at h
    · cases h
    · obtain ⟨next, hnext, rfl⟩ := Option.map_eq_some_iff.mp h
      exact .inl ⟨b, next, rfl, hnext, rfl⟩
  | resume i submission =>
    simp only [step] at h
    split at h
    · rename_i ring f rest hi
      cases h
      exact .inr ⟨i, submission, ring, f, rest, rfl, hi, rfl⟩
    · cases h

theorem idle_step {impl : ClientImpl} {s t : BusyClient} {a : SectionAct}
    (hs : s.client.stream.Idle) (h : s.step impl a = some t) : t.client.stream.Idle := by
  obtain ⟨b, next, -, hnext, rfl⟩ | ⟨i, submission, ring, f, rest, -, -, rfl⟩ := step_cases h
  · exact Client.idle_beginning hs hnext
  · exact Client.idle_runSection hs f submission

end BusyClient

end Lmnet.IoUring
