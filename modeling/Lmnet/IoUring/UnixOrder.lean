import Lmnet.Common
import Lmnet.IoUring.StreamWrites

/-!
The two ways onto a Unix stream of the io_uring backend: `Send` goes through the write
queue, `SendFds` and `SendWithFds` submit a `sendmsg` of their own and queue what it
leaves. `IoUringSessionImpl` and `UnixClientImpl` differ in what their calls turn away.
-/

set_option autoImplicit false

namespace Lmnet.IoUring

inductive Message where
  | outstanding (buffer : Option (List UInt8))
  | completed (buffer : Option (List UInt8)) (result : Int)
  deriving DecidableEq, Repr

/-- What becomes of the submission of a `sendmsg`: `failed` runs the callback with an
error, `wrongFamily` does not. -/
inductive MessageOutcome where
  | submitted | failed | wrongFamily
  deriving DecidableEq, Repr

def noBytes (buffer : Option (List UInt8)) : Bool := (buffer.map List.isEmpty).getD true

/-- What the iovec of a `sendmsg` points to: the data, or a placeholder byte. -/
def payload (buffer : Option (List UInt8)) : List UInt8 :=
  match buffer with
  | none => [0]
  | some b => if b.isEmpty then [0] else b

inductive UnixStreamAct where
  | stream (a : StreamAct)
  | sendFds (fds duplicatedFds : List Fd) (outcome : MessageOutcome)
  | sendWithFds (buffer : Option (List UInt8)) (fds duplicatedFds : List Fd)
      (outcome : MessageOutcome)
  | completeMessage (i : Nat) (result : Int)
  | handleMessage (i : Nat)
  deriving DecidableEq, Repr

/-- `payloads` is what the calls that were not turned away put on the socket, in call
order. -/
structure UnixStream where
  writer : StreamWriter
  messages : List Message
  payloads : List (List UInt8)
  deriving DecidableEq, Repr

namespace UnixStream

def connected : UnixStream := ⟨.connected, [], []⟩

def sendUnixMessage (owner : StreamOwner) (s : UnixStream) (buffer : Option (List UInt8))
    (fds duplicatedFds : List Fd) (outcome : MessageOutcome) : UnixStream :=
  if !fds.isEmpty && duplicatedFds.isEmpty then s
  else
    match outcome with
    | .submitted =>
        { s with
          messages := s.messages ++ [.outstanding buffer]
          payloads := s.payloads ++ [payload buffer] }
    | .failed => { s with writer := s.writer.fail owner }
    | .wrongFamily => s

def sendFds (owner : StreamOwner) (s : UnixStream) (fds duplicatedFds : List Fd)
    (outcome : MessageOutcome) : UnixStream :=
  match owner with
  | .session => s.sendUnixMessage owner none fds duplicatedFds outcome
  | .tcpClient | .unixClient =>
      if !s.writer.isRunning || fds.isEmpty then s
      else s.sendUnixMessage owner none fds duplicatedFds outcome

def sendWithFds (owner : StreamOwner) (s : UnixStream) (buffer : Option (List UInt8))
    (fds duplicatedFds : List Fd) (outcome : MessageOutcome) : UnixStream :=
  match owner with
  | .session =>
      if noBytes buffer && fds.isEmpty then s
      else s.sendUnixMessage owner buffer fds duplicatedFds outcome
  | .tcpClient | .unixClient =>
      if !s.writer.isRunning || (noBytes buffer && fds.isEmpty) then s
      else s.sendUnixMessage owner buffer fds duplicatedFds outcome

def sendMsgComplete (owner : StreamOwner) (s : UnixStream) (buffer : Option (List UInt8))
    (result : Int) : UnixStream :=
  if result ≤ 0 then { s with writer := s.writer.fail owner }
  else
    match buffer with
    | none => s
    | some b =>
        if result.toNat < b.length then
          { s with writer := s.writer.queueStreamWrite (b.drop result.toNat) }
        else s

def step (owner : StreamOwner) (s : UnixStream) : UnixStreamAct → Option UnixStream
  | .stream a =>
      (s.writer.step owner a).map fun writer =>
        { s with
          writer := writer
          payloads := s.payloads ++ writer.queued.drop s.writer.queued.length }
  | .sendFds fds duplicatedFds outcome => some (s.sendFds owner fds duplicatedFds outcome)
  | .sendWithFds buffer fds duplicatedFds outcome =>
      some (s.sendWithFds owner buffer fds duplicatedFds outcome)
  | .completeMessage i result =>
      match s.messages[i]? with
      | some (.outstanding buffer) =>
          if result ≤ (payload buffer).length then
            some { s with
              writer := { s.writer with
                written := s.writer.written ++ (payload buffer).take result.toNat }
              messages := s.messages.set i (.completed buffer result) }
          else none
      | _ => none
  | .handleMessage i =>
      match s.messages[i]? with
      | some (.completed buffer result) =>
          some (sendMsgComplete owner { s with messages := s.messages.eraseIdx i } buffer result)
      | _ => none

def machine (owner : StreamOwner) : Machine UnixStream UnixStreamAct where
  init s := s = connected
  step := step owner

end UnixStream

/-- Submissions succeed, and what the kernel takes it takes at least a byte of. -/
def UnixStreamAct.Clean : UnixStreamAct → Prop
  | .stream a => a.Clean
  | .sendFds _ _ outcome | .sendWithFds _ _ _ outcome => outcome = .submitted
  | .completeMessage _ result => 0 < result
  | .handleMessage _ => True

def Message.left : Message → List UInt8
  | .outstanding buffer => payload buffer
  | .completed buffer result => (payload buffer).drop result.toNat

def Message.Sound : Message → Prop
  | .outstanding _ => True
  | .completed _ result => 0 < result

namespace UnixStream

def Idle (s : UnixStream) : Prop := s.writer.work = [] ∧ s.messages = []

/-- A call with descriptors finds the connection idle, and a `Send` finds no `sendmsg`
outstanding; a call that puts nothing on the socket may come at any time. -/
def Waits (owner : StreamOwner) (s : UnixStream) : UnixStreamAct → Prop
  | .stream (.send data) => noBytes data = true ∨ s.messages = []
  | .sendFds fds duplicatedFds outcome => s.sendFds owner fds duplicatedFds outcome = s ∨ s.Idle
  | .sendWithFds buffer fds duplicatedFds outcome =>
      s.sendWithFds owner buffer fds duplicatedFds outcome = s ∨ s.Idle
  | _ => True

structure Ordered (s : UnixStream) : Prop where
  serialised : s.writer.Serialised
  data : (s.messages = [] ∧
      s.writer.written ++ s.writer.unwritten = s.payloads.flatten) ∨
    (∃ m, s.messages = [m] ∧ s.writer.work = [] ∧ m.Sound ∧
      s.writer.written ++ m.left = s.payloads.flatten)

theorem connected_ordered : connected.Ordered :=
  ⟨StreamWriter.connected_serialised, .inl ⟨rfl, rfl⟩⟩

theorem sendFds_cases (owner : StreamOwner) (s : UnixStream) (fds duplicatedFds : List Fd) :
    s.sendFds owner fds duplicatedFds .submitted = s ∨
      s.sendFds owner fds duplicatedFds .submitted = { s with
        messages := s.messages ++ [.outstanding none]
        payloads := s.payloads ++ [payload none] } := by
  unfold sendFds sendUnixMessage
  grind

theorem sendWithFds_cases (owner : StreamOwner) (s : UnixStream) (buffer : Option (List UInt8))
    (fds duplicatedFds : List Fd) :
    s.sendWithFds owner buffer fds duplicatedFds .submitted = s ∨
      s.sendWithFds owner buffer fds duplicatedFds .submitted = { s with
        messages := s.messages ++ [.outstanding buffer]
        payloads := s.payloads ++ [payload buffer] } := by
  unfold sendWithFds sendUnixMessage
  grind

theorem unwritten_of_idle {w : StreamWriter} (h : w.Serialised) (hwork : w.work = []) :
    w.unwritten = [] := by
  rcases h.work with ⟨-, -, hqueue⟩ | ⟨-, v, hv, -⟩
  · simp [StreamWriter.unwritten, hqueue]
  · simp [hwork] at hv

theorem Ordered.message {s : UnixStream} (h : s.Ordered) (hidle : s.Idle)
    (buffer : Option (List UInt8)) :
    Ordered { s with
      messages := s.messages ++ [.outstanding buffer]
      payloads := s.payloads ++ [payload buffer] } := by
  obtain ⟨hwork, hmessages⟩ := hidle
  rcases h.data with ⟨-, hdata⟩ | ⟨m, hm, -⟩
  · rw [unwritten_of_idle h.serialised hwork, List.append_nil] at hdata
    exact ⟨h.serialised, .inr ⟨.outstanding buffer, by simp [hmessages], hwork, trivial,
      by simp [hdata, Message.left]⟩⟩
  · simp [hmessages] at hm

theorem Ordered.stream {owner : StreamOwner} {s : UnixStream} {a : StreamAct} {w : StreamWriter}
    (h : s.Ordered) (hclean : a.Clean) (hwaits : s.Waits owner (.stream a))
    (hstep : s.writer.step owner a = some w) :
    Ordered { s with
      writer := w, payloads := s.payloads ++ w.queued.drop s.writer.queued.length } := by
  obtain ⟨hserialised, pushed, hqueued, htotal⟩ := h.serialised.step hstep hclean
  have hpushed : w.queued.drop s.writer.queued.length = pushed := by rw [hqueued, List.drop_left]
  rw [hpushed]
  rcases h.data with ⟨hmessages, hdata⟩ | ⟨m, hmessages, hwork, hsound, hdata⟩
  · exact ⟨hserialised, .inl ⟨hmessages, by rw [htotal, hdata, List.flatten_append]⟩⟩
  · -- while the `sendmsg` is out, the write queue can only turn a call away
    have hsame : w = s.writer ∧ pushed = [] := by
      cases a with
      | send data =>
        have hnone : noBytes data = true := by
          rcases hwaits with hnone | hnil
          · exact hnone
          · simp [hmessages] at hnil
        cases hstep
        have hsame : s.writer.send owner data = s.writer := by
          cases data with
          | none => cases owner <;> rfl
          | some b =>
            have hb : b = [] := by simpa [noBytes] using hnone
            cases owner <;> simp [StreamWriter.send, StreamWriter.sessionSend,
              StreamWriter.clientSend, hb]
        rw [hsame] at hqueued
        exact ⟨hsame, by simpa using hqueued⟩
      | next i => simp [StreamWriter.step, hwork] at hstep
      | submit i submitted => simp [StreamWriter.step, hwork] at hstep
      | complete i result => simp [StreamWriter.step, hwork] at hstep
      | handle i => simp [StreamWriter.step, hwork] at hstep
    obtain ⟨rfl, rfl⟩ := hsame
    exact ⟨h.serialised, .inr ⟨m, hmessages, hwork, hsound, by simpa using hdata⟩⟩

theorem Ordered.only {s : UnixStream} (h : s.Ordered) {i : Nat} {m : Message}
    (hm : s.messages[i]? = some m) :
    i = 0 ∧ s.messages = [m] ∧ s.writer.work = [] ∧ m.Sound ∧
      s.writer.written ++ m.left = s.payloads.flatten := by
  rcases h.data with ⟨hmessages, -⟩ | ⟨n, hmessages, hrest⟩
  · simp [hmessages] at hm
  · rw [hmessages] at hm
    obtain ⟨rfl, rfl⟩ := List.getElem?_singleton_eq_some hm
    exact ⟨rfl, hmessages, hrest⟩

theorem Ordered.completeMessage {s : UnixStream} (h : s.Ordered) {i : Nat}
    {buffer : Option (List UInt8)} {r : Int} (hm : s.messages[i]? = some (.outstanding buffer))
    (hpos : 0 < r) :
    Ordered { s with
      writer := { s.writer with written := s.writer.written ++ (payload buffer).take r.toNat }
      messages := s.messages.set i (.completed buffer r) } := by
  obtain ⟨rfl, hmessages, hwork, -, hdata⟩ := h.only hm
  refine ⟨⟨h.serialised.running, h.serialised.nonempty, h.serialised.work⟩,
    .inr ⟨.completed buffer r, by simp [hmessages], hwork, hpos, ?_⟩⟩
  simp only [Message.left] at hdata ⊢
  rw [List.append_assoc, List.take_append_drop, hdata]

/-- What a short `sendmsg` left goes to a queue with nothing in it. -/
theorem Ordered.handleMessage {owner : StreamOwner} {s : UnixStream} (h : s.Ordered) {i : Nat}
    {buffer : Option (List UInt8)} {r : Int} (hm : s.messages[i]? = some (.completed buffer r)) :
    (sendMsgComplete owner { s with messages := s.messages.eraseIdx i } buffer r).Ordered := by
  obtain ⟨rfl, hmessages, hwork, hpos, hdata⟩ := h.only hm
  have hpos : 0 < r := hpos
  have hneg : ¬ r ≤ 0 := by omega
  have hnone := unwritten_of_idle h.serialised hwork
  simp only [sendMsgComplete, hneg, if_false, hmessages, List.eraseIdx_cons_zero]
  simp only [Message.left] at hdata
  -- nothing of the message is left
  have hdone (hleft : (payload buffer).drop r.toNat = []) : Ordered { s with messages := [] } := by
    rw [hleft] at hdata
    exact ⟨h.serialised, .inl ⟨rfl, by simpa [hnone] using hdata⟩⟩
  cases buffer with
  | none =>
    refine hdone (List.drop_eq_nil_of_le ?_)
    simp only [payload, List.length_singleton]
    omega
  | some b =>
    simp only
    split
    · rename_i hshort
      have hb : b.isEmpty = false := by
        cases b with
        | nil => simp at hshort
        | cons x xs => rfl
      have hne : b.drop r.toNat ≠ [] := by
        rw [Ne, List.drop_eq_nil_iff]
        omega
      obtain ⟨hserialised, pushed, hqueued, htotal⟩ := h.serialised.queueStreamWrite hne
      obtain rfl : [b.drop r.toNat] = pushed := by
        rw [StreamWriter.queueStreamWrite_eq] at hqueued
        simpa using hqueued
      simp only [payload, hb] at hdata
      exact ⟨hserialised, .inl ⟨rfl, by simpa [htotal, hnone] using hdata⟩⟩
    · rename_i hlong
      refine hdone (List.drop_eq_nil_of_le ?_)
      cases b with
      | nil =>
        simp only [payload, List.isEmpty_nil, if_true, List.length_singleton]
        omega
      | cons x xs =>
        simp only [payload, List.isEmpty_cons, Bool.false_eq_true, if_false]
        omega

theorem Ordered.step {owner : StreamOwner} {s s' : UnixStream} {a : UnixStreamAct}
    (h : s.Ordered) (hstep : s.step owner a = some s') (hclean : a.Clean)
    (hwaits : s.Waits owner a) : s'.Ordered := by
  cases a with
  | stream a =>
    simp only [UnixStream.step, Option.map_eq_some_iff] at hstep
    obtain ⟨w, hw, rfl⟩ := hstep
    exact h.stream hclean hwaits hw
  | sendFds fds duplicatedFds outcome =>
    cases hstep
    obtain rfl : outcome = .submitted := hclean
    rcases hwaits with hsame | hidle
    · rwa [hsame]
    · rcases s.sendFds_cases owner fds duplicatedFds with heq | heq
      · rwa [heq]
      · rw [heq]
        exact h.message hidle none
  | sendWithFds buffer fds duplicatedFds outcome =>
    cases hstep
    obtain rfl : outcome = .submitted := hclean
    rcases hwaits with hsame | hidle
    · rwa [hsame]
    · rcases s.sendWithFds_cases owner buffer fds duplicatedFds with heq | heq
      · rwa [heq]
      · rw [heq]
        exact h.message hidle buffer
  | completeMessage i result =>
    simp only [UnixStream.step] at hstep
    split at hstep
    · rename_i buffer hm
      split at hstep
      · cases hstep
        exact h.completeMessage hm hclean
      · cases hstep
    · cases hstep
  | handleMessage i =>
    simp only [UnixStream.step] at hstep
    split at hstep
    · rename_i buffer r hm
      cases hstep
      exact h.handleMessage hm
    · cases hstep

/-- As long as calls with descriptors find the connection idle and a `Send` no `sendmsg`
outstanding, the socket carries the messages in call order, and all of them once the
connection is idle. -/
theorem messages_in_order (owner : StreamOwner) {as : List UnixStreamAct} {t : UnixStream}
    (h : (machine owner).run connected as = some t) (hclean : ∀ a ∈ as, a.Clean)
    (hwaits : (machine owner).Every (fun s a _ => s.Waits owner a) connected as) :
    t.writer.written <+: t.payloads.flatten ∧
      (t.Idle → t.writer.written = t.payloads.flatten) := by
  have hall : t.Ordered :=
    (machine owner).run_invariant_of_every (I := Ordered)
      (C := fun s a _ => a.Clean ∧ s.Waits owner a)
      (fun s a s' hs hstep hc => hs.step hstep hc.1 hc.2) connected_ordered
      ((machine owner).every_and hclean hwaits) h
  rcases hall.data with ⟨hmessages, hdata⟩ | ⟨m, hmessages, -, -, hdata⟩
  · refine ⟨⟨_, hdata⟩, fun hidle => ?_⟩
    rw [← hdata, unwritten_of_idle hall.serialised hidle.1, List.append_nil]
  · refine ⟨⟨_, hdata⟩, fun hidle => ?_⟩
    simp [hidle.2] at hmessages

instance (s : UnixStream) : Decidable s.Idle := by
  unfold Idle
  infer_instance

instance (owner : StreamOwner) (s : UnixStream) (a : UnixStreamAct) :
    Decidable (s.Waits owner a) := by
  unfold Waits
  split <;> infer_instance

def shortMessage : List UnixStreamAct :=
  [.sendWithFds (some [7, 8]) [3] [5] .submitted, .completeMessage 0 1, .handleMessage 0,
    .stream (.next 0), .stream (.submit 0 true), .stream (.send (some [9])),
    .stream (.complete 0 1)]

theorem messages_in_order_shortMessage :
    ∃ t, (machine .unixClient).run connected shortMessage = some t ∧
      t.writer.written <+: t.payloads.flatten := by
  have hrun : (machine .unixClient).run connected shortMessage = some _ := rfl
  have hclean : ∀ a ∈ shortMessage, a.Clean := by
    simp [shortMessage, UnixStreamAct.Clean, StreamAct.Clean]
  exact ⟨_, hrun, (messages_in_order .unixClient hrun hclean
    ((machine .unixClient).every_of_check (by decide))).1⟩

/-- Two sends, the second of which waits in the queue, and a message with a descriptor,
which does not: the kernel takes what it is given in the order in which it gets it. -/
def overtaken : List UnixStreamAct :=
  [.stream (.send (some [1])), .stream (.next 0), .stream (.submit 0 true),
    .stream (.send (some [2])), .sendWithFds (some [3]) [3] [5] .submitted,
    .stream (.complete 0 1), .completeMessage 0 1]

theorem message_overtakes_queue :
    (∀ a ∈ overtaken, a.Clean) ∧
      (∃ t, (machine .session).run connected overtaken = some t ∧
        t.writer.written = [1, 3] ∧ t.payloads = [[1], [2], [3]]) ∧
      (∃ t, (machine .unixClient).run connected overtaken = some t ∧
        t.writer.written = [1, 3] ∧ t.payloads = [[1], [2], [3]]) := by
  refine ⟨by simp [overtaken, UnixStreamAct.Clean, StreamAct.Clean], ?_, ?_⟩ <;>
    exact ⟨_, rfl, rfl, rfl⟩

end UnixStream

end Lmnet.IoUring
