import Lmnet.Lib.Lists
import Lmnet.Windows.PacketOrderer

/-!
The receives of the Windows `UdpServerImpl` and `UdpClientImpl`: the numbers that
`SubmitReceive` draws from `receive_seq_counter_`, and the `PacketOrderer` that their
completions are handed to.
-/

set_option autoImplicit false

namespace Lmnet.Windows

inductive UdpEnd where
  | server | client
  deriving DecidableEq, Repr

/-- A receive that has a number and has not come back; `posted` once `WSARecvFrom` has
it. -/
structure Receive where
  seq : Seq
  posted : Bool
  deriving DecidableEq, Repr

/-- How `Init` ends: before it touches the socket, without a socket, after it made the
orderer (a client whose remote address is no address), or well. -/
inductive InitOutcome where
  | noQueue | noSocket | badRemote | done
  deriving DecidableEq, Repr

inductive UdpAct where
  | init (outcome : InitOutcome)
  | start
  | stop
  | handleClose
  | draw
  | submit (i : Nat) (submitted : Bool)
  | complete (i : Nat) (bytesReceived error : Nat) (buffer : DataBuffer) (fromAddr : SockaddrIn)
      (arrivalTime now : Int)
  | retry
  deriving DecidableEq, Repr

def CONCURRENT_RECEIVES : Nat := 4

/-- `toSubmit` are the calls of `SubmitReceive` that have yet to begin, `retryTasks` the
queued tasks that will make one. -/
structure UdpReceiver where
  isRunning : Bool
  hasSocket : Bool
  packetOrderer : Option PacketOrderer
  receiveSeqCounter : Seq
  receives : List Receive
  toSubmit : Nat
  receiveRetryPending : Bool
  retryTasks : Nat

namespace UdpReceiver

def created : UdpReceiver := ⟨false, false, none, 0, [], 0, false, 0⟩

def newOrderer : PacketOrderer := .created true 64 100

def startReceiving (s : UdpReceiver) : UdpReceiver :=
  { s with toSubmit := s.toSubmit + CONCURRENT_RECEIVES }

/-- `UdpServerImpl::Init`; it does not ask whether the server runs. -/
def serverInit (s : UdpReceiver) : InitOutcome → Option UdpReceiver
  | .noQueue => some s
  | .noSocket => some { s with hasSocket := false }
  | .badRemote => none
  | .done => some { s with hasSocket := true, packetOrderer := some newOrderer }

/-- `UdpClientImpl::Close`, and `HandleClose` but for its callbacks. -/
def close (s : UdpReceiver) : UdpReceiver := { s with isRunning := false, hasSocket := false }

def clientInit (s : UdpReceiver) : InitOutcome → Option UdpReceiver
  | .noQueue => some s
  | .noSocket => some s.close
  | .badRemote => some { s.close with packetOrderer := some newOrderer }
  | .done =>
      some { s with
        hasSocket := true, packetOrderer := some newOrderer, isRunning := true }.startReceiving

def start (s : UdpReceiver) : UdpReceiver :=
  if s.isRunning || !s.hasSocket then s
  else { s with isRunning := true, receiveRetryPending := false }.startReceiving

def stop (s : UdpReceiver) : UdpReceiver :=
  if !s.isRunning && !s.hasSocket then s else { s.close with receiveRetryPending := false }

def draw (s : UdpReceiver) : UdpReceiver :=
  if s.isRunning then
    { s with
      toSubmit := s.toSubmit - 1
      receiveSeqCounter := s.receiveSeqCounter + 1
      receives := s.receives ++ [⟨s.receiveSeqCounter, false⟩] }
  else { s with toSubmit := s.toSubmit - 1 }

/-- A submission that failed: a server tries again from its task queue, a client
queues a `HandleClose`. -/
def submitFailed (e : UdpEnd) (s : UdpReceiver) : UdpReceiver :=
  match e with
  | .server =>
      if s.isRunning && !s.receiveRetryPending then
        { s with receiveRetryPending := true, retryTasks := s.retryTasks + 1 }
      else s
  | .client => s

def receiveComplete (s : UdpReceiver) (bytesReceived error : Nat) (c : Submission) :
    UdpReceiver :=
  let packetOrderer :=
    if s.isRunning && (error == 0 && 0 < bytesReceived) then
      s.packetOrderer.map fun o => o.submitPacket c
    else s.packetOrderer
  { s with packetOrderer := packetOrderer, toSubmit := s.toSubmit + 1 }

def step (e : UdpEnd) (s : UdpReceiver) : UdpAct → Option UdpReceiver
  | .init outcome =>
      match e with
      | .server => s.serverInit outcome
      | .client => s.clientInit outcome
  | .start =>
      match e with
      | .server => some s.start
      | .client => none
  | .stop =>
      match e with
      | .server => some s.stop
      | .client => some s.close
  | .handleClose =>
      match e with
      | .server => none
      | .client => if s.isRunning then some s.close else some s
  | .draw => if s.toSubmit = 0 then none else some s.draw
  | .submit i submitted =>
      match s.receives[i]? with
      | some ⟨seq, false⟩ =>
          if submitted then some { s with receives := s.receives.set i ⟨seq, true⟩ }
          else some (submitFailed e { s with receives := s.receives.eraseIdx i })
      | _ => none
  | .complete i bytesReceived error buffer fromAddr arrivalTime now =>
      match s.receives[i]? with
      | some ⟨seq, true⟩ =>
          some (receiveComplete { s with receives := s.receives.eraseIdx i } bytesReceived error
            ⟨seq, buffer, fromAddr, arrivalTime, now⟩)
      | _ => none
  | .retry =>
      if s.retryTasks = 0 then none
      else some { s with
        retryTasks := s.retryTasks - 1, receiveRetryPending := false, toSubmit := s.toSubmit + 1 }

def machine (e : UdpEnd) : Machine UdpReceiver UdpAct where
  init s := s = created
  step := step e

def pending (s : UdpReceiver) : List Seq :=
  (s.packetOrderer.map fun o => o.pendingPackets.keys).getD []

/-- Every packet that is held waits for a receive of a smaller number. -/
def Waiting (s : UdpReceiver) : Prop :=
  ∀ k ∈ s.pending, ∃ r ∈ s.receives, r.seq < k

end UdpReceiver

/-- With the packet stored and the run of consecutive ones delivered, what is left is
neither too old nor too much: no number is passed over. -/
def PacketOrderer.PassesNone (o : PacketOrderer) (c : Submission) : Prop :=
  (∀ k p, (o.store c).deliverConsecutivePackets.pendingPackets.min? = some (k, p) →
      ¬ TimedOut o.gapTimeout c.now p.arrivalTime) ∧
    (o.store c).deliverConsecutivePackets.pendingPackets.size ≤ o.maxBufferSize

namespace UdpReceiver

/-- What a step must meet for no number to be lost: `Init` only before the first number
is drawn; no end of running while a packet is held; no number drawn twice; and while
the endpoint runs no submission that fails, and no completion without data or that makes
the orderer pass over a gap. -/
def LosesNone (s : UdpReceiver) : UdpAct → Prop
  | .init outcome => outcome = .noQueue ∨ s.receiveSeqCounter = 0
  | .start | .retry => True
  | .stop | .handleClose => s.pending = []
  | .draw => s.isRunning = true → s.receiveSeqCounter ≠ Fin.last _
  | .submit _ submitted => s.isRunning = true → submitted = true
  | .complete i bytesReceived error buffer fromAddr arrivalTime now =>
      s.isRunning = true → error = 0 ∧ 0 < bytesReceived ∧
        ∀ r o, s.receives[i]? = some r → s.packetOrderer = some o →
          o.PassesNone ⟨r.seq, buffer, fromAddr, arrivalTime, now⟩

end UdpReceiver

namespace PacketOrderer

theorem lt_add_one_iff_le {m n : Seq} (h : n ≠ Fin.last _) : m < n + 1 ↔ m ≤ n :=
  ⟨fun hm => le_of_not_gt fun hgt => absurd hm (not_lt.mpr (Fin.add_one_le_of_lt hgt)),
    fun hm => lt_of_le_of_lt hm (lt_add_one h)⟩

structure RunTaken (s t : PacketOrderer) : Prop where
  le : s.nextExpectedSeq ≤ t.nextExpectedSeq
  run : ∀ n, s.nextExpectedSeq ≤ n → n < t.nextExpectedSeq → n ∈ s.pendingPackets.keys
  keys : ∀ n, n ∈ t.pendingPackets.keys ↔
    n ∈ s.pendingPackets.keys ∧ (n < s.nextExpectedSeq ∨ t.nextExpectedSeq ≤ n)

theorem RunTaken.deliverNext {s t : PacketOrderer} {p : PacketInfo}
    (hb : Fin.last _ ∉ s.pendingPackets.keys)
    (hp : t.pendingPackets.find? t.nextExpectedSeq = some p) (h : RunTaken s t) :
    RunTaken s (t.deliverNext p) := by
  obtain ⟨hmem, -⟩ := (h.keys _).mp (SortedMap.mem_keys_of_find? hp)
  have hne : t.nextExpectedSeq ≠ Fin.last _ := fun he => hb (he ▸ hmem)
  have hlt := lt_add_one hne
  refine ⟨le_trans h.le (le_of_lt hlt), fun n hle hn => ?_, fun n => ?_⟩
  · rcases lt_or_eq_of_le ((lt_add_one_iff_le hne).mp hn) with hn | rfl
    · exact h.run n hle hn
    · exact hmem
  · have hkeys : n ∈ (t.deliverNext p).pendingPackets.keys ↔
        n ≠ t.nextExpectedSeq ∧ n ∈ t.pendingPackets.keys := SortedMap.mem_keys_erase
    rw [hkeys, h.keys]
    have hsplit : t.nextExpectedSeq + 1 ≤ n ↔ n ≠ t.nextExpectedSeq ∧ t.nextExpectedSeq ≤ n := by
      constructor
      · intro hn
        have hlt' := lt_of_lt_of_le hlt hn
        exact ⟨ne_of_gt hlt', le_of_lt hlt'⟩
      · rintro ⟨hn, hle⟩
        exact Fin.add_one_le_of_lt (lt_of_le_of_ne hle (Ne.symm hn))
    have hbefore : n < s.nextExpectedSeq → n ≠ t.nextExpectedSeq := fun hn =>
      ne_of_lt (lt_of_lt_of_le hn h.le)
    change _ ↔ n ∈ s.pendingPackets.keys ∧ (n < s.nextExpectedSeq ∨ t.nextExpectedSeq + 1 ≤ n)
    rw [hsplit]
    tauto

theorem deliverConsecutivePackets_runTaken {s : PacketOrderer}
    (hb : Fin.last _ ∉ s.pendingPackets.keys) : RunTaken s s.deliverConsecutivePackets :=
  deliverLoop_induct (P := RunTaken s) (fun _ _ hp h => h.deliverNext hb hp) _
    ⟨le_refl _, fun n hle hn => absurd (lt_of_le_of_lt hle hn) (lt_irrefl _),
      fun n => by simp [lt_or_ge]⟩

theorem submitPacket_of_passesNone {o : PacketOrderer} {c : Submission} (h : o.PassesNone c) :
    o.submitPacket c = (o.store c).deliverConsecutivePackets := by
  obtain ⟨htime, hsize⟩ := h
  have hgap : (o.store c).deliverConsecutivePackets.gapTimeout = o.gapTimeout :=
    deliverLoop_induct (P := fun t => t.gapTimeout = o.gapTimeout) (fun _ _ _ h => h) _ rfl
  have hmax : (o.store c).deliverConsecutivePackets.maxBufferSize = o.maxBufferSize :=
    deliverLoop_induct (P := fun t => t.maxBufferSize = o.maxBufferSize) (fun _ _ _ h => h) _ rfl
  have hskip : (o.store c).deliverConsecutivePackets.skipTimedOut c.now =
      (o.store c).deliverConsecutivePackets := by
    unfold skipTimedOut
    split
    · rfl
    · rename_i k p hmin
      have hage := htime k p hmin
      rw [if_neg (by rw [hgap]; exact hage)]
  rw [submitPacket, enforceConstraints, hskip]
  cases hfuel : (o.store c).deliverConsecutivePackets.pendingPackets.size with
  | zero => rfl
  | succ fuel =>
    unfold overflowLoop
    rw [if_neg (by rw [hmax]; exact not_lt.mpr hsize)]

end PacketOrderer

namespace UdpReceiver

def numbers (s : UdpReceiver) : List Seq := s.receives.map Receive.seq

/-- Each number from the expected one up to the counter is held or has not come back. -/
structure Accounts (s : UdpReceiver) (o : PacketOrderer) : Prop where
  le : o.nextExpectedSeq ≤ s.receiveSeqCounter
  gap : o.nextExpectedSeq ∉ o.pendingPackets.keys
  all : ∀ n, n ∈ o.pendingPackets.keys ∨ n ∈ s.numbers ↔
    o.nextExpectedSeq ≤ n ∧ n < s.receiveSeqCounter
  apart : ∀ n ∈ o.pendingPackets.keys, n ∉ s.numbers

structure Inv (s : UdpReceiver) : Prop where
  nodup : s.numbers.Nodup
  below : ∀ n ∈ s.numbers, n < s.receiveSeqCounter
  serving : s.isRunning = true ∨ s.hasSocket = true →
    ∃ o, s.packetOrderer = some o ∧ s.Accounts o
  stopped : s.isRunning = false → s.pending = []
  fresh : s.isRunning = false → s.hasSocket = true → s.receiveSeqCounter = 0

theorem Accounts.waiting {s : UdpReceiver} {o : PacketOrderer} (h : s.Accounts o) {k : Seq}
    (hk : k ∈ o.pendingPackets.keys) : ∃ r ∈ s.receives, r.seq < k := by
  obtain ⟨hle, hlt⟩ := (h.all k).mp (.inl hk)
  have hne : o.nextExpectedSeq ≠ k := fun he => h.gap (he ▸ hk)
  have hbefore := lt_of_le_of_ne hle hne
  have hnumber := (h.all o.nextExpectedSeq).mpr ⟨le_refl _, lt_trans hbefore hlt⟩
  obtain ⟨r, hr, hseq⟩ := List.mem_map.mp (hnumber.resolve_left h.gap)
  exact ⟨r, hr, hseq ▸ hbefore⟩

theorem Inv.waiting {s : UdpReceiver} (h : s.Inv) : s.Waiting := by
  intro k hk
  cases hrun : s.isRunning with
  | false =>
    rw [h.stopped hrun] at hk
    cases hk
  | true =>
    obtain ⟨o, ho, haccounts⟩ := h.serving (.inl hrun)
    exact haccounts.waiting (by simpa [pending, ho] using hk)

theorem Inv.numbers_nil {s : UdpReceiver} (h : s.Inv) (hzero : s.receiveSeqCounter = 0) :
    s.numbers = [] := by
  refine List.eq_nil_iff_forall_not_mem.mpr fun n hn => ?_
  have hlt := h.below n hn
  rw [hzero] at hlt
  exact absurd hlt (Fin.not_lt_zero n)

theorem Accounts.of_numbers {s s' : UdpReceiver} {o : PacketOrderer} (h : s.Accounts o)
    (hcounter : s'.receiveSeqCounter = s.receiveSeqCounter) (hnumbers : s'.numbers = s.numbers) :
    s'.Accounts o := by
  refine ⟨by rw [hcounter]; exact h.le, h.gap, fun n => ?_, fun n hn => ?_⟩
  · rw [hnumbers, hcounter]
    exact h.all n
  · rw [hnumbers]
    exact h.apart n hn

theorem keys_newOrderer : newOrderer.pendingPackets.keys = [] := rfl

theorem accounts_new {s : UdpReceiver} (hzero : s.receiveSeqCounter = 0)
    (hnil : s.numbers = []) : s.Accounts newOrderer := by
  refine ⟨Fin.zero_le _, by simp [keys_newOrderer], fun n => ?_, by simp [keys_newOrderer]⟩
  simp [keys_newOrderer, hnil, hzero]

theorem Inv.close {s : UdpReceiver} (h : s.Inv) (hnil : s.pending = []) : s.close.Inv :=
  ⟨h.nodup, h.below, by simp [UdpReceiver.close], fun _ => hnil, by simp [UdpReceiver.close]⟩

theorem Inv.init {e : UdpEnd} {s s' : UdpReceiver} {outcome : InitOutcome} (h : s.Inv)
    (hstep : s.step e (.init outcome) = some s') (hzero : s.receiveSeqCounter = 0) : s'.Inv := by
  have hnil := h.numbers_nil hzero
  have hpending : s.pending = [] := by
    cases hrun : s.isRunning with
    | false => exact h.stopped hrun
    | true =>
      obtain ⟨o, ho, haccounts⟩ := h.serving (.inl hrun)
      refine List.eq_nil_iff_forall_not_mem.mpr fun k hk => ?_
      have hlt := ((haccounts.all k).mp (.inl (by simpa [pending, ho] using hk))).2
      rw [hzero] at hlt
      exact absurd hlt (Fin.not_lt_zero k)
  have hnew (t : UdpReceiver) (hcounter : t.receiveSeqCounter = 0) (hnumbers : t.numbers = [])
      (ho : t.packetOrderer = some newOrderer) : t.Inv :=
    ⟨by simp [hnumbers], by simp [hnumbers],
      fun _ => ⟨newOrderer, ho, accounts_new hcounter hnumbers⟩,
      fun _ => by simp [pending, ho, keys_newOrderer], fun _ _ => hcounter⟩
  cases e with
  | server =>
    cases outcome with
    | noQueue =>
      cases hstep
      exact h
    | noSocket =>
      cases hstep
      refine ⟨h.nodup, h.below, fun hs => ?_, h.stopped, fun _ hs => by cases hs⟩
      obtain ⟨o, ho, haccounts⟩ := h.serving (.inl (hs.resolve_right (by simp)))
      exact ⟨o, ho, haccounts.of_numbers rfl rfl⟩
    | badRemote => cases hstep
    | done =>
      cases hstep
      exact hnew _ hzero hnil rfl
  | client =>
    cases outcome with
    | noQueue =>
      cases hstep
      exact h
    | noSocket =>
      cases hstep
      exact h.close hpending
    | badRemote =>
      cases hstep
      exact hnew _ hzero hnil rfl
    | done =>
      cases hstep
      exact hnew _ hzero hnil rfl

theorem Inv.of_numbers {s s' : UdpReceiver} (h : s.Inv)
    (hcounter : s'.receiveSeqCounter = s.receiveSeqCounter) (hnumbers : s'.numbers = s.numbers)
    (horderer : s'.packetOrderer = s.packetOrderer) (hrunning : s'.isRunning = s.isRunning)
    (hsocket : s'.hasSocket = s.hasSocket) : s'.Inv := by
  refine ⟨by rw [hnumbers]; exact h.nodup, by rw [hnumbers, hcounter]; exact h.below,
    fun hs => ?_, fun hs => ?_, fun hs hs' => ?_⟩
  · rw [hrunning, hsocket] at hs
    obtain ⟨o, ho, haccounts⟩ := h.serving hs
    exact ⟨o, horderer.trans ho, haccounts.of_numbers hcounter hnumbers⟩
  · rw [hrunning] at hs
    simpa [pending, horderer] using h.stopped hs
  · rw [hcounter]
    exact h.fresh (hrunning ▸ hs) (hsocket ▸ hs')

theorem Inv.start {s : UdpReceiver} (h : s.Inv) : s.start.Inv := by
  unfold UdpReceiver.start
  split
  · exact h
  · rename_i hguard
    have hsocket : s.hasSocket = true := by
      cases hs : s.hasSocket with
      | true => rfl
      | false => simp [hs] at hguard
    obtain ⟨o, ho, haccounts⟩ := h.serving (.inr hsocket)
    exact ⟨h.nodup, h.below, fun _ => ⟨o, ho, haccounts.of_numbers rfl rfl⟩,
      fun hrun => (by cases hrun), fun hrun => (by cases hrun)⟩

theorem Inv.draw {s : UdpReceiver} (h : s.Inv)
    (hwrap : s.isRunning = true → s.receiveSeqCounter ≠ Fin.last _) : s.draw.Inv := by
  unfold UdpReceiver.draw
  split
  · rename_i hrun
    have hlt := PacketOrderer.lt_add_one (hwrap hrun)
    have hnext (n : Seq) : n < s.receiveSeqCounter + 1 ↔
        n < s.receiveSeqCounter ∨ n = s.receiveSeqCounter := by
      rw [PacketOrderer.lt_add_one_iff_le (hwrap hrun), le_iff_lt_or_eq]
    have hnew : s.receiveSeqCounter ∉ s.numbers := fun hmem =>
      absurd (h.below _ hmem) (lt_irrefl _)
    obtain ⟨o, ho, haccounts⟩ := h.serving (.inl hrun)
    have hnumbers : numbers { s with
        toSubmit := s.toSubmit - 1
        receiveSeqCounter := s.receiveSeqCounter + 1
        receives := s.receives ++ [⟨s.receiveSeqCounter, false⟩] } =
          s.numbers ++ [s.receiveSeqCounter] := by simp [numbers]
    refine ⟨?_, fun n hn => ?_, fun _ => ⟨o, ho, ?_⟩, fun hstop => ?_, fun hstop => ?_⟩
    · rw [hnumbers]
      exact List.nodup_append.mpr ⟨h.nodup, List.nodup_singleton _, fun a ha b hb => by
        rw [List.mem_singleton.mp hb]
        exact fun he => hnew (he ▸ ha)⟩
    · rw [hnumbers, List.mem_append, List.mem_singleton] at hn
      exact (hnext n).mpr (hn.imp_left (h.below n))
    · refine ⟨le_trans haccounts.le (le_of_lt hlt), haccounts.gap, fun n => ?_, fun n hn => ?_⟩
      · rw [hnumbers, List.mem_append, List.mem_singleton, ← or_assoc, haccounts.all, hnext]
        constructor
        · rintro (⟨hle, hn⟩ | rfl)
          · exact ⟨hle, .inl hn⟩
          · exact ⟨haccounts.le, .inr rfl⟩
        · rintro ⟨hle, hn | rfl⟩
          · exact .inl ⟨hle, hn⟩
          · exact .inr rfl
      · rw [hnumbers, List.mem_append, List.mem_singleton]
        rintro (hmem | rfl)
        · exact haccounts.apart n hn hmem
        · exact absurd ((haccounts.all _).mp (.inl hn)).2 (lt_irrefl _)
    · simp [hrun] at hstop
    · simp [hrun] at hstop
  · exact h.of_numbers rfl rfl rfl rfl rfl

theorem Inv.erase {s s' : UdpReceiver} (h : s.Inv) (hrun : s.isRunning = false) {i : Nat}
    {r : Receive} (hr : s.receives[i]? = some r)
    (hcounter : s'.receiveSeqCounter = s.receiveSeqCounter)
    (hreceives : s'.receives = s.receives.eraseIdx i)
    (horderer : s'.packetOrderer = s.packetOrderer) (hrunning : s'.isRunning = s.isRunning)
    (hsocket : s'.hasSocket = s.hasSocket) : s'.Inv := by
  have hsub : s'.numbers.Sublist s.numbers := by
    rw [numbers, hreceives]
    exact (List.eraseIdx_sublist _ _).map _
  have hmem : r.seq ∈ s.numbers := List.mem_map_of_mem (List.mem_of_getElem? hr)
  have hnosocket : s'.isRunning = true ∨ s'.hasSocket = true → False := by
    rw [hrunning, hsocket, hrun]
    rintro (hs | hs)
    · cases hs
    · rw [h.numbers_nil (h.fresh hrun hs)] at hmem
      cases hmem
  refine ⟨h.nodup.sublist hsub, fun n hn => ?_, fun hs => (hnosocket hs).elim, fun _ => ?_,
    fun _ hs => (hnosocket (.inr hs)).elim⟩
  · rw [hcounter]
    exact h.below n (hsub.subset hn)
  · simpa [pending, horderer] using h.stopped hrun

theorem Inv.submit {e : UdpEnd} {s : UdpReceiver} (h : s.Inv) {i : Nat} {q : Seq}
    (hr : s.receives[i]? = some ⟨q, false⟩) (submitted : Bool)
    (hc : s.isRunning = true → submitted = true) :
    (if submitted then { s with receives := s.receives.set i ⟨q, true⟩ }
      else submitFailed e { s with receives := s.receives.eraseIdx i }).Inv := by
  cases submitted with
  | true =>
    refine h.of_numbers rfl ?_ rfl rfl rfl
    obtain ⟨hi, hget⟩ := List.getElem?_eq_some_iff.mp hr
    have hlt : i < (s.receives.map Receive.seq).length := by simpa using hi
    have hseq : q = (s.receives.map Receive.seq)[i] := by simp [hget]
    simp only [if_true, numbers, List.map_set]
    rw [hseq, List.set_getElem_self]
  | false =>
    have hrun : s.isRunning = false := by
      cases hs : s.isRunning with
      | false => rfl
      | true => cases hc hs
    have hfailed : submitFailed e { s with receives := s.receives.eraseIdx i } =
        { s with receives := s.receives.eraseIdx i } := by
      cases e <;> simp [submitFailed, hrun]
    simp only [Bool.false_eq_true, if_false, hfailed]
    exact h.erase hrun hr rfl rfl rfl rfl rfl

theorem mem_numbers_erase {s : UdpReceiver} (hnodup : s.numbers.Nodup) {i : Nat} {r : Receive}
    (hr : s.receives[i]? = some r) (n : Seq) :
    n ∈ (s.receives.eraseIdx i).map Receive.seq ↔ n ∈ s.numbers ∧ n ≠ r.seq := by
  obtain ⟨front, back, hall, herase⟩ := List.exists_eraseIdx hr
  have hapart : r.seq ∉ (front ++ back).map Receive.seq := by
    rw [numbers, hall, List.map_append, List.map_cons] at hnodup
    have hperm : (r.seq :: (front.map Receive.seq ++ back.map Receive.seq)).Nodup :=
      List.perm_middle.nodup_iff.mp hnodup
    simpa using (List.nodup_cons.mp hperm).1
  rw [herase, numbers, hall]
  constructor
  · intro hn
    refine ⟨?_, fun he => hapart (he ▸ hn)⟩
    simp only [List.map_append, List.mem_append, List.map_cons, List.mem_cons] at hn ⊢
    tauto
  · rintro ⟨hn, hne⟩
    simp only [List.map_append, List.mem_append, List.map_cons, List.mem_cons] at hn ⊢
    tauto

/-- A packet that comes back with data takes its place among the held ones, and the run
of consecutive ones goes. -/
theorem Accounts.submitPacket {s s' : UdpReceiver} {o : PacketOrderer} (h : s.Accounts o)
    (hnodup : s.numbers.Nodup) {i : Nat} {r : Receive} (hr : s.receives[i]? = some r)
    (hcounter : s'.receiveSeqCounter = s.receiveSeqCounter)
    (hreceives : s'.receives = s.receives.eraseIdx i) {c : Submission} (hseq : c.seq = r.seq)
    (hnone : o.PassesNone c) : s'.Accounts (o.submitPacket c) := by
  have hmem : r.seq ∈ s.numbers := List.mem_map_of_mem (List.mem_of_getElem? hr)
  have hnumbers (n : Seq) : n ∈ s'.numbers ↔ n ∈ s.numbers ∧ n ≠ r.seq := by
    rw [numbers, hreceives]
    exact mem_numbers_erase hnodup hr n
  have hstore (n : Seq) : n ∈ (o.store c).pendingPackets.keys ↔
      n = r.seq ∨ n ∈ o.pendingPackets.keys := by
    rw [← hseq]
    exact SortedMap.mem_keys_insert
  have hrange (n : Seq) (hn : n ∈ (o.store c).pendingPackets.keys) :
      o.nextExpectedSeq ≤ n ∧ n < s.receiveSeqCounter := by
    rcases (hstore n).mp hn with rfl | hn
    · exact (h.all _).mp (.inr hmem)
    · exact (h.all n).mp (.inl hn)
  have hlast : Fin.last _ ∉ (o.store c).pendingPackets.keys := fun hn =>
    absurd (hrange _ hn).2 (not_lt.mpr (Fin.le_last _))
  rw [PacketOrderer.submitPacket_of_passesNone hnone]
  have htaken := PacketOrderer.deliverConsecutivePackets_runTaken hlast
  have hgap := PacketOrderer.deliverLoop_gap (Nat.le_refl (o.store c).pendingPackets.size)
  generalize hend : (o.store c).deliverConsecutivePackets = t at htaken
  have hgap : t.nextExpectedSeq ∉ t.pendingPackets.keys := by
    rw [← hend]
    exact hgap
  have hle : o.nextExpectedSeq ≤ t.nextExpectedSeq := htaken.le
  have hkeys (n : Seq) : n ∈ t.pendingPackets.keys ↔
      n ∈ (o.store c).pendingPackets.keys ∧ t.nextExpectedSeq ≤ n := by
    rw [htaken.keys]
    constructor
    · rintro ⟨hn, hlt | hge⟩
      · exact absurd hlt (not_lt.mpr (hrange n hn).1)
      · exact ⟨hn, hge⟩
    · rintro ⟨hn, hge⟩
      exact ⟨hn, .inr hge⟩
  refine ⟨?_, hgap, fun n => ?_, fun n hn => ?_⟩
  · rw [hcounter]
    refine le_of_not_gt fun hgt => ?_
    exact absurd (hrange _ (htaken.run _ h.le hgt)).2 (lt_irrefl _)
  · rw [hkeys, hnumbers, hcounter]
    constructor
    · rintro (⟨hn, hge⟩ | ⟨hn, hne⟩)
      · exact ⟨hge, (hrange n hn).2⟩
      · obtain ⟨hlo, hhi⟩ := (h.all n).mp (.inr hn)
        refine ⟨le_of_not_gt fun hgt => ?_, hhi⟩
        rcases (hstore n).mp (htaken.run n hlo hgt) with rfl | hheld
        · exact hne rfl
        · exact h.apart n hheld hn
    · rintro ⟨hge, hlt⟩
      by_cases he : n = r.seq
      · exact .inl ⟨(hstore n).mpr (.inl he), hge⟩
      · rcases (h.all n).mpr ⟨le_trans hle hge, hlt⟩ with hheld | hn
        · exact .inl ⟨(hstore n).mpr (.inr hheld), hge⟩
        · exact .inr ⟨hn, he⟩
  · rw [hnumbers]
    rintro ⟨hmem', hne⟩
    rcases (hstore n).mp ((hkeys n).mp hn).1 with rfl | hheld
    · exact hne rfl
    · exact h.apart n hheld hmem'

theorem Inv.complete {s : UdpReceiver} (h : s.Inv) {i : Nat} {r : Receive}
    (hr : s.receives[i]? = some r) {bytesReceived error : Nat} {c : Submission}
    (hseq : c.seq = r.seq)
    (hc : s.isRunning = true → error = 0 ∧ 0 < bytesReceived ∧
      ∀ o, s.packetOrderer = some o → o.PassesNone c) :
    (receiveComplete { s with receives := s.receives.eraseIdx i } bytesReceived error c).Inv := by
  cases hrun : s.isRunning with
  | false => exact h.erase hrun hr rfl rfl (by simp [receiveComplete]) hrun.symm rfl
  | true =>
    obtain ⟨rfl, hpos, hnone⟩ := hc hrun
    obtain ⟨o, ho, haccounts⟩ := h.serving (.inl hrun)
    have hmem (n : Seq) := mem_numbers_erase h.nodup hr n
    refine ⟨?_, fun n hn => ?_, fun _ => ⟨o.submitPacket c, ?_, ?_⟩, fun hs => ?_, fun hs => ?_⟩
    · exact h.nodup.sublist ((List.eraseIdx_sublist _ _).map _)
    · exact h.below n ((hmem n).mp hn).1
    · simp [receiveComplete, hpos, ho]
    · refine haccounts.submitPacket h.nodup hr ?_ ?_ hseq (hnone o ho) <;> rfl
    · cases hs
    · cases hs

theorem created_inv : created.Inv where
  nodup := by simp [created, numbers]
  below := by simp [created, numbers]
  serving := by simp [created]
  stopped := fun _ => rfl
  fresh := by simp [created]

theorem Inv.step {e : UdpEnd} {s s' : UdpReceiver} {a : UdpAct} (h : s.Inv)
    (hstep : s.step e a = some s') (hc : s.LosesNone a) : s'.Inv := by
  cases a with
  | init outcome =>
    rcases hc with rfl | hzero
    · cases e <;> (cases hstep; exact h)
    · exact h.init hstep hzero
  | start =>
    cases e with
    | server =>
      cases hstep
      exact h.start
    | client => cases hstep
  | stop =>
    cases e with
    | server =>
      cases hstep
      unfold stop
      split
      · exact h
      · exact (h.close hc).of_numbers rfl rfl rfl rfl rfl
    | client =>
      cases hstep
      exact h.close hc
  | handleClose =>
    cases e with
    | server => cases hstep
    | client =>
      simp only [UdpReceiver.step] at hstep
      split at hstep
      · cases hstep
        exact h.close hc
      · cases hstep
        exact h
  | draw =>
    simp only [UdpReceiver.step] at hstep
    split at hstep
    · cases hstep
    · cases hstep
      exact h.draw hc
  | submit i submitted =>
    simp only [UdpReceiver.step] at hstep
    split at hstep
    · rename_i q hr
      have hsubmit := h.submit (e := e) hr submitted hc
      split at hstep <;> cases hstep <;> simpa [*] using hsubmit
    · cases hstep
  | complete i bytesReceived error buffer fromAddr arrivalTime now =>
    simp only [UdpReceiver.step] at hstep
    split at hstep
    · rename_i q hr
      cases hstep
      refine h.complete hr rfl fun hrun => ?_
      obtain ⟨herror, hpos, hnone⟩ := hc hrun
      exact ⟨herror, hpos, fun o ho => hnone _ o hr ho⟩
    · cases hstep
  | retry =>
    simp only [UdpReceiver.step] at hstep
    split at hstep
    · cases hstep
    · cases hstep
      exact h.of_numbers rfl rfl rfl rfl rfl

instance (o : PacketOrderer) (c : Submission) : Decidable (o.PassesNone c) :=
  decidable_of_iff
    ((∀ e ∈ (o.store c).deliverConsecutivePackets.pendingPackets.min?,
        ¬ PacketOrderer.TimedOut o.gapTimeout c.now e.2.arrivalTime) ∧
      (o.store c).deliverConsecutivePackets.pendingPackets.size ≤ o.maxBufferSize)
    (by simp [PacketOrderer.PassesNone])

instance (s : UdpReceiver) (a : UdpAct) : Decidable (s.LosesNone a) :=
  match a with
  | .init outcome => inferInstanceAs (Decidable (outcome = .noQueue ∨ s.receiveSeqCounter = 0))
  | .start | .retry => isTrue trivial
  | .stop | .handleClose => inferInstanceAs (Decidable (s.pending = []))
  | .draw =>
      inferInstanceAs (Decidable (s.isRunning = true → s.receiveSeqCounter ≠ Fin.last _))
  | .submit _ submitted => inferInstanceAs (Decidable (s.isRunning = true → submitted = true))
  | .complete i bytesReceived error buffer fromAddr arrivalTime now =>
      decidable_of_iff (s.isRunning = true → error = 0 ∧ 0 < bytesReceived ∧
          ∀ r ∈ s.receives[i]?, ∀ o ∈ s.packetOrderer,
            o.PassesNone ⟨r.seq, buffer, fromAddr, arrivalTime, now⟩)
        (by simp only [LosesNone, Option.mem_def]; grind)

end UdpReceiver

end Lmnet.Windows
