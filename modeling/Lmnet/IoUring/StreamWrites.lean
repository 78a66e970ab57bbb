import Mathlib.Algebra.GroupWithZero.Nat
import Lmnet.IoUring.StreamSession
import Lmnet.Lib.Lists

/-!
The stream writes of an `IoUringSessionImpl` and of the io_uring `TcpClientImpl`: any
number of `Send` calls against the completions of the ring. A step is one critical
section of `sendMutex_`, one `SubmitWriteRequest`, or the kernel's work on a request.
-/

set_option autoImplicit false

namespace Lmnet.IoUring

inductive StreamOwner where
  | session | tcpClient | unixClient
  deriving DecidableEq, Repr

/-- What the critical section of `SubmitNextStreamWrite` or `SubmitNextWrite` decides. -/
inductive NextWrite where
  | nothing
  | submit (buffer : List UInt8)
  | fail
  deriving DecidableEq, Repr

namespace Stream

def sessionNext (st : Stream) : Stream × NextWrite :=
  match st.submitNextStreamWrite, st.sendQueue with
  | (st', true), b :: _ => (st', .submit b)
  | (st', _), _ => (st', .nothing)

def submitNextWrite (isRunning : Bool) (st : Stream) : Stream × NextWrite :=
  match st.sendQueue with
  | [] => ({ st with writeInFlight := false }, .nothing)
  | b :: _ => if isRunning then (st, .submit b) else ({ st with writeInFlight := false }, .fail)

def handleWriteComplete (st : Stream) (result : Int) : Stream × WriteNext :=
  st.handleStreamWriteComplete result

end Stream

/-- What a thread has taken on: to enter the critical section that picks the next
write, to submit a buffer, to wait for the ring, or to handle a result. -/
inductive Work where
  | next
  | submit (buffer : List UInt8)
  | outstanding (buffer : List UInt8)
  | completed (buffer : List UInt8) (result : Int)
  deriving DecidableEq, Repr

inductive StreamAct where
  | send (data : Option (List UInt8))
  | next (i : Nat)
  | submit (i : Nat) (submitted : Bool)
  | complete (i : Nat) (result : Int)
  | handle (i : Nat)
  deriving DecidableEq, Repr

/-- `isRunning` is `isRunning_`, of a Unix client with `isConnected_`. `queued` are the
buffers in the order in which they were pushed, `written` what the kernel has put on the
socket. -/
structure StreamWriter where
  stream : Stream
  isRunning : Bool
  work : List Work
  queued : List (List UInt8)
  written : List UInt8
  deriving DecidableEq, Repr

namespace StreamWriter

def connected : StreamWriter := ⟨.empty, true, [], [], []⟩

/-- `FailStreamWrite`; a client closes itself. -/
def fail (owner : StreamOwner) (s : StreamWriter) : StreamWriter :=
  match owner with
  | .session => { s with stream := s.stream.failStreamWrite }
  | .tcpClient | .unixClient =>
      { s with stream := s.stream.failStreamWrite, isRunning := false }

/-- `QueueStreamWrite` up to its `SubmitNextStreamWrite`; `TcpClientImpl::Send` has the
same critical section. -/
def queueStreamWrite (s : StreamWriter) (buffer : List UInt8) : StreamWriter :=
  match s.stream.queueStreamWrite buffer with
  | (stream, .submitNext) =>
      { s with stream := stream, queued := s.queued ++ [buffer], work := s.work ++ [.next] }
  | (stream, _) => { s with stream := stream, queued := s.queued ++ [buffer] }

def sessionSend (s : StreamWriter) (buffer : Option (List UInt8)) : StreamWriter :=
  match buffer with
  | none => s
  | some b => if b.isEmpty then s else s.queueStreamWrite b

def clientSend (s : StreamWriter) (data : Option (List UInt8)) : StreamWriter :=
  match data with
  | none => s
  | some b => if b.isEmpty || !s.isRunning then s else s.queueStreamWrite b

def send (owner : StreamOwner) (s : StreamWriter) (data : Option (List UInt8)) : StreamWriter :=
  match owner with
  | .session => s.sessionSend data
  | .tcpClient | .unixClient => s.clientSend data

def next (owner : StreamOwner) (s : StreamWriter) (i : Nat) : StreamWriter :=
  let (stream, next) :=
    match owner with
    | .session => s.stream.sessionNext
    | .tcpClient | .unixClient => s.stream.submitNextWrite s.isRunning
  let s := { s with stream := stream }
  match next with
  | .nothing => { s with work := s.work.eraseIdx i }
  | .submit buffer => { s with work := s.work.set i (.submit buffer) }
  | .fail => fail owner { s with work := s.work.eraseIdx i }

def handle (owner : StreamOwner) (s : StreamWriter) (i : Nat) (result : Int) : StreamWriter :=
  let (stream, next) :=
    match owner with
    | .session => s.stream.handleStreamWriteComplete result
    | .tcpClient | .unixClient => s.stream.handleWriteComplete result
  let s := { s with stream := stream }
  match next with
  | .done => { s with work := s.work.eraseIdx i }
  | .submitNext => { s with work := s.work.set i .next }
  | .fail => fail owner { s with work := s.work.eraseIdx i }

def step (owner : StreamOwner) (s : StreamWriter) : StreamAct → Option StreamWriter
  | .send data => some (s.send owner data)
  | .next i =>
      match s.work[i]? with
      | some .next => some (s.next owner i)
      | _ => none
  | .submit i submitted =>
      match s.work[i]? with
      | some (.submit buffer) =>
          if submitted then some { s with work := s.work.set i (.outstanding buffer) }
          else some (fail owner { s with work := s.work.eraseIdx i })
      | _ => none
  | .complete i result =>
      match s.work[i]? with
      | some (.outstanding buffer) =>
          if result ≤ buffer.length then
            some { s with
              work := s.work.set i (.completed buffer result)
              written := s.written ++ buffer.take result.toNat }
          else none
      | _ => none
  | .handle i =>
      match s.work[i]? with
      | some (.completed _ result) => some (s.handle owner i result)
      | _ => none

def machine (owner : StreamOwner) : Machine StreamWriter StreamAct where
  init s := s = connected
  step := step owner

end StreamWriter

/-- Submissions succeed and writes put at least one byte on the socket. -/
def StreamAct.Clean : StreamAct → Prop
  | .submit _ submitted => submitted = true
  | .complete _ result => 0 < result
  | _ => True

def Work.unhandled : Work → Nat
  | .completed _ result => result.toNat
  | _ => 0

def Work.Serves (q : List (List UInt8)) : Work → Prop
  | .next => q ≠ []
  | .submit buffer | .outstanding buffer => q.head? = some buffer
  | .completed buffer result => q.head? = some buffer ∧ 0 < result ∧ result ≤ buffer.length

theorem Work.Serves.append {q : List (List UInt8)} {w : Work} (h : w.Serves q)
    (b : List UInt8) : w.Serves (q ++ [b]) := by
  cases w with
  | next => simp [Work.Serves]
  | submit c =>
    have hfront : q.head? = some c := h
    simp [Work.Serves, hfront]
  | outstanding c =>
    have hfront : q.head? = some c := h
    simp [Work.Serves, hfront]
  | completed c r =>
    have hfront : q.head? = some c := h.1
    exact ⟨by simp [hfront], h.2⟩

namespace StreamWriter

def unwritten (s : StreamWriter) : List UInt8 :=
  s.stream.sendQueue.flatten.drop (s.work.map Work.unhandled).sum

/-- Either nothing is queued and nobody is at it, or one thread is. -/
structure Serialised (s : StreamWriter) : Prop where
  running : s.isRunning = true
  nonempty : ∀ b ∈ s.stream.sendQueue, b ≠ []
  work : (s.stream.writeInFlight = false ∧ s.work = [] ∧ s.stream.sendQueue = []) ∨
    (s.stream.writeInFlight = true ∧ ∃ w, s.work = [w] ∧ w.Serves s.stream.sendQueue)

structure Keeps (s s' : StreamWriter) : Prop where
  serialised : s'.Serialised
  data : ∃ pushed, s'.queued = s.queued ++ pushed ∧
    s'.written ++ s'.unwritten = s.written ++ s.unwritten ++ pushed.flatten

theorem connected_serialised : connected.Serialised where
  running := rfl
  nonempty := by simp [connected, Stream.empty]
  work := .inl ⟨rfl, rfl, rfl⟩

theorem Serialised.unhandled_le {s : StreamWriter} (h : s.Serialised) :
    (s.work.map Work.unhandled).sum ≤ s.stream.sendQueue.flatten.length := by
  rcases h.work with ⟨-, hwork, -⟩ | ⟨-, w, hwork, hserves⟩
  · simp [hwork]
  · rw [hwork]
    cases w with
    | completed b r =>
      obtain ⟨hfront, hpos, hle⟩ := hserves
      obtain ⟨rest, hqueue⟩ := List.head?_eq_some_iff.mp hfront
      simp only [List.map_cons, List.map_nil, List.sum_cons, List.sum_nil, Work.unhandled, hqueue,
        List.flatten_cons, List.length_append]
      omega
    | _ => simp [Work.unhandled]

/-- The thread that pushes goes on to submit if no other does. -/
theorem queueStreamWrite_eq (s : StreamWriter) (b : List UInt8) :
    s.queueStreamWrite b = { s with
      stream := ⟨s.stream.sendQueue ++ [b], true⟩
      queued := s.queued ++ [b]
      work := if s.stream.writeInFlight then s.work else s.work ++ [.next] } := by
  cases hflag : s.stream.writeInFlight <;>
    simp [queueStreamWrite, Stream.queueStreamWrite, hflag]

theorem Serialised.queueStreamWrite {s : StreamWriter} (h : s.Serialised) {b : List UInt8}
    (hb : b ≠ []) : Keeps s (s.queueStreamWrite b) := by
  rw [queueStreamWrite_eq]
  refine ⟨⟨h.running, fun c hc => ?_, .inr ?_⟩, [b], rfl, ?_⟩
  · rcases List.mem_append.mp hc with hc | hc
    · exact h.nonempty c hc
    · rw [List.mem_singleton.mp hc]
      exact hb
  · rcases h.work with ⟨hflag, hwork, hqueue⟩ | ⟨hflag, w, hwork, hserves⟩
    · exact ⟨rfl, .next, by simp [hflag, hwork], by simp [Work.Serves]⟩
    · exact ⟨rfl, w, by simp [hflag, hwork], hserves.append b⟩
  · have hwork : ((if s.stream.writeInFlight then s.work else s.work ++ [.next]).map
        Work.unhandled).sum = (s.work.map Work.unhandled).sum := by
      split <;> simp [Work.unhandled]
    simp only [unwritten, hwork, List.flatten_append, List.flatten_cons, List.flatten_nil,
      List.append_nil]
    rw [List.drop_append_of_le_length h.unhandled_le, ← List.append_assoc]

theorem Keeps.of_total {s s' : StreamWriter} (h : s'.Serialised) (hqueued : s'.queued = s.queued)
    (htotal : s'.written ++ s'.unwritten = s.written ++ s.unwritten) : Keeps s s' :=
  ⟨h, [], by simpa using hqueued, by simpa using htotal⟩

theorem Serialised.send {owner : StreamOwner} {s : StreamWriter} (h : s.Serialised)
    (data : Option (List UInt8)) : Keeps s (s.send owner data) := by
  have hsame : Keeps s s := .of_total h rfl rfl
  cases data with
  | none => cases owner <;> exact hsame
  | some b =>
    by_cases hb : b = []
    · cases owner <;> simpa [StreamWriter.send, sessionSend, clientSend, hb] using hsame
    · have hpush := h.queueStreamWrite hb
      cases owner <;> simpa [StreamWriter.send, sessionSend, clientSend, hb, h.running] using hpush

theorem Serialised.only {s : StreamWriter} (h : s.Serialised) {i : Nat} {w : Work}
    (hw : s.work[i]? = some w) :
    i = 0 ∧ s.work = [w] ∧ s.stream.writeInFlight = true ∧ w.Serves s.stream.sendQueue := by
  rcases h.work with ⟨-, hwork, -⟩ | ⟨hflag, v, hwork, hserves⟩
  · simp [hwork] at hw
  · rw [hwork] at hw
    obtain ⟨rfl, rfl⟩ := List.getElem?_singleton_eq_some hw
    exact ⟨rfl, hwork, hflag, hserves⟩

theorem Serialised.next {owner : StreamOwner} {s : StreamWriter} (h : s.Serialised) {i : Nat}
    (hw : s.work[i]? = some .next) : Keeps s (s.next owner i) := by
  obtain ⟨rfl, hwork, hflag, hserves⟩ := h.only hw
  cases hqueue : s.stream.sendQueue with
  | nil => exact absurd hqueue hserves
  | cons b rest =>
    have hnext : s.next owner 0 = { s with work := [.submit b] } := by
      cases owner <;> simp [StreamWriter.next, Stream.sessionNext, Stream.submitNextStreamWrite,
        Stream.submitNextWrite, hqueue, h.running, hwork]
    rw [hnext]
    refine .of_total ⟨h.running, h.nonempty, .inr ⟨hflag, .submit b, rfl, ?_⟩⟩ rfl ?_
    · simp [Work.Serves, hqueue]
    · simp [unwritten, hwork, Work.unhandled]

theorem Serialised.submit {s : StreamWriter} (h : s.Serialised) {i : Nat} {b : List UInt8}
    (hw : s.work[i]? = some (.submit b)) :
    Keeps s { s with work := s.work.set i (.outstanding b) } := by
  obtain ⟨rfl, hwork, hflag, hserves⟩ := h.only hw
  refine .of_total ⟨h.running, h.nonempty, .inr ⟨hflag, .outstanding b, by simp [hwork], hserves⟩⟩
    rfl ?_
  simp [unwritten, hwork, Work.unhandled]

theorem Serialised.complete {s : StreamWriter} (h : s.Serialised) {i : Nat} {b : List UInt8}
    {r : Int} (hw : s.work[i]? = some (.outstanding b)) (hpos : 0 < r) (hle : r ≤ b.length) :
    Keeps s { s with
      work := s.work.set i (.completed b r), written := s.written ++ b.take r.toNat } := by
  obtain ⟨rfl, hwork, hflag, hfront⟩ := h.only hw
  obtain ⟨rest, hqueue⟩ := List.head?_eq_some_iff.mp hfront
  refine .of_total ⟨h.running, h.nonempty,
    .inr ⟨hflag, .completed b r, by simp [hwork], hfront, hpos, hle⟩⟩ rfl ?_
  have hlen : r.toNat ≤ b.length := by omega
  simp only [unwritten, hwork, hqueue, List.map_cons, List.map_nil, List.sum_cons, List.sum_nil,
    Work.unhandled, Nat.add_zero, List.drop_zero, List.flatten_cons, List.set_cons_zero]
  rw [List.drop_append_of_le_length hlen, List.append_assoc, ← List.append_assoc (b.take r.toNat),
    List.take_append_drop]

theorem Serialised.handle {owner : StreamOwner} {s : StreamWriter} (h : s.Serialised) {i : Nat}
    {b : List UInt8} {r : Int} (hw : s.work[i]? = some (.completed b r)) :
    Keeps s (s.handle owner i r) := by
  obtain ⟨rfl, hwork, hflag, hfront, hpos, hle⟩ := h.only hw
  obtain ⟨rest, hqueue⟩ := List.head?_eq_some_iff.mp hfront
  have hnonempty := h.nonempty
  have hneg : ¬ r < 0 := by omega
  have hzero : r ≠ 0 := by omega
  have hbefore : s.unwritten = b.drop r.toNat ++ rest.flatten := by
    simp only [unwritten, hwork, hqueue, List.map_cons, List.map_nil, List.sum_cons, List.sum_nil,
      Work.unhandled, Nat.add_zero, List.flatten_cons]
    exact List.drop_append_of_le_length (by omega)
  rw [hqueue] at hnonempty
  by_cases hshort : r.toNat < b.length
  · have hhandle : s.handle owner 0 r = { s with
        stream := ⟨b.drop r.toNat :: rest, true⟩, work := [.next] } := by
      cases owner <;> simp [StreamWriter.handle, Stream.handleWriteComplete,
        Stream.handleStreamWriteComplete, hqueue, hneg, hzero, hshort, hwork, hflag]
    rw [hhandle]
    refine .of_total ⟨h.running, fun c hc => ?_, .inr ⟨rfl, .next, rfl, by simp [Work.Serves]⟩⟩
      rfl ?_
    · rcases List.mem_cons.mp hc with rfl | hc
      · rw [Ne, List.drop_eq_nil_iff]
        omega
      · exact hnonempty c (List.mem_cons_of_mem b hc)
    · rw [hbefore]
      simp [unwritten, Work.unhandled]
  · have hgone : b.drop r.toNat = [] := List.drop_eq_nil_of_le (by omega)
    rw [hgone, List.nil_append] at hbefore
    cases rest with
    | nil =>
      have hhandle : s.handle owner 0 r = { s with stream := ⟨[], false⟩, work := [] } := by
        cases owner <;> simp [StreamWriter.handle, Stream.handleWriteComplete,
          Stream.handleStreamWriteComplete, hqueue, hneg, hzero, hshort, hwork]
      rw [hhandle]
      refine .of_total ⟨h.running, by simp, .inl ⟨rfl, rfl, rfl⟩⟩ rfl ?_
      rw [hbefore]
      simp [unwritten]
    | cons c cs =>
      have hhandle : s.handle owner 0 r =
          { s with stream := ⟨c :: cs, true⟩, work := [.next] } := by
        cases owner <;> simp [StreamWriter.handle, Stream.handleWriteComplete,
          Stream.handleStreamWriteComplete, hqueue, hneg, hzero, hshort, hwork]
      rw [hhandle]
      refine .of_total ⟨h.running, fun x hx => hnonempty x (List.mem_cons_of_mem b hx),
        .inr ⟨rfl, .next, rfl, by simp [Work.Serves]⟩⟩ rfl ?_
      rw [hbefore]
      simp [unwritten, Work.unhandled]

theorem Serialised.step {owner : StreamOwner} {s s' : StreamWriter} {a : StreamAct}
    (h : s.Serialised) (hstep : s.step owner a = some s') (ha : a.Clean) : Keeps s s' := by
  cases a with
  | send data =>
    cases hstep
    exact h.send data
  | next i =>
    simp only [StreamWriter.step] at hstep
    split at hstep
    · rename_i hw
      cases hstep
      exact h.next hw
    · cases hstep
  | submit i submitted =>
    obtain rfl : submitted = true := ha
    simp only [StreamWriter.step] at hstep
    split at hstep
    · rename_i b hw
      cases hstep
      exact h.submit hw
    · cases hstep
  | complete i result =>
    simp only [StreamWriter.step] at hstep
    split at hstep
    · rename_i b hw
      split at hstep
      · rename_i hle
        cases hstep
        exact h.complete hw ha hle
      · cases hstep
    · cases hstep
  | handle i =>
    simp only [StreamWriter.step] at hstep
    split at hstep
    · rename_i b r hw
      cases hstep
      exact h.handle hw
    · cases hstep

def Work.isOutstanding : Work → Bool
  | .outstanding _ | .completed _ _ => true
  | _ => false

end StreamWriter

end Lmnet.IoUring
