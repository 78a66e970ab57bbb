import Lmnet.Epoll.UnixChannel

set_option autoImplicit false

namespace Lmnet.Epoll

def dataOf (bytes : List WireByte) : List UInt8 :=
  (bytes.filter fun b => !b.isPlaceholder).map WireByte.value

@[simp] theorem dataOf_nil : dataOf [] = [] := rfl

@[simp] theorem dataOf_append (bs cs : List WireByte) :
    dataOf (bs ++ cs) = dataOf bs ++ dataOf cs := by
  simp [dataOf]

theorem dataOf_eq_nil {bytes : List WireByte} (h : ∀ b ∈ bytes, b.isPlaceholder = true) :
    dataOf bytes = [] := by
  simpa [dataOf] using h

theorem dataOf_eq_map {bytes : List WireByte} (h : ∀ b ∈ bytes, b.isPlaceholder = false) :
    dataOf bytes = bytes.map WireByte.value := by
  rw [dataOf, List.filter_eq_self.mpr]
  intro b hb
  simp [h b hb]

namespace PendingSend

def Ready (p : PendingSend) : Prop :=
  p.hasData = true ∨ (noData p.data = true ∧ p.fds ≠ [] ∧ p.fdsSent = false)

theorem iov_of_hasData {p : PendingSend} (h : p.hasData = true) :
    ∃ d, p.data = some d ∧ p.offset < d.size ∧
      p.iov = (d.bytes.drop p.offset).map fun b => ⟨b, false⟩ := by
  unfold hasData at h
  cases hdata : p.data with
  | none => simp [hdata] at h
  | some d =>
    have hlt : p.offset < d.size := by simpa [hdata] using h
    exact ⟨d, rfl, hlt, by simp [iov, hdata, hlt]⟩

theorem iov_of_noData {p : PendingSend} (h : noData p.data = true) : p.iov = [.placeholder] := by
  cases hdata : p.data with
  | none => simp [iov, hdata]
  | some d =>
    have hsize : d.size = 0 := by simpa [noData, hdata] using h
    simp [iov, hdata, hsize]

theorem updated_of_noData {p : PendingSend} (n : Nat) (h : noData p.data = true) :
    (p.updated n).hasData = false := by
  cases hdata : p.data with
  | none => simp [updated, hasData, hdata]
  | some d =>
    have hsize : d.size = 0 := by simpa [noData, hdata] using h
    simp [updated, hasData, hdata, hsize]

theorem iov_updated {p : PendingSend} {n : Nat} (h : p.Ready) (hpos : 1 ≤ n) :
    p.iov.take n ++ (if (p.updated n).hasData then (p.updated n).iov else []) = p.iov := by
  rcases h with hdata | ⟨hnone, -, -⟩
  · obtain ⟨d, hd, hlt, hiov⟩ := iov_of_hasData hdata
    by_cases hall : d.size ≤ p.offset + n
    · have hlen : p.iov.length ≤ n := by
        rw [hiov, List.length_map, List.length_drop]
        simp only [DataBuffer.size] at hall
        omega
      simp [updated, hd, hlt, hall, hasData, List.take_of_length_le hlen]
    · have hlt' : p.offset + n < d.size := by omega
      simp only [updated, hd, hlt, hall, if_true, if_false, hasData, hlt', decide_true, iov]
      rw [← List.map_take, ← List.map_append, ← List.drop_drop, List.take_append_drop]
  · have hsent := updated_of_noData n hnone
    rw [iov_of_noData hnone, hsent, List.take_of_length_le (by simpa using hpos)]
    rfl

theorem data_of_hasData {p : PendingSend} (h : p.hasData = true) :
    ∀ b ∈ p.iov, b.isPlaceholder = false := by
  obtain ⟨d, -, -, hiov⟩ := iov_of_hasData h
  intro b hb
  rw [hiov] at hb
  obtain ⟨v, -, rfl⟩ := List.mem_map.mp hb
  rfl

theorem dataOf_iov_new (data : Option DataBuffer) (fds : List Fd) :
    dataOf (iov ⟨data, 0, fds, false⟩) = (data.map DataBuffer.bytes).getD [] := by
  cases data with
  | none => rfl
  | some d =>
    by_cases hsize : 0 < d.size
    · have hdata := data_of_hasData (p := ⟨some d, 0, fds, false⟩) (by simpa [hasData] using hsize)
      rw [dataOf_eq_map hdata]
      simp [iov, hsize, Function.comp_def]
    · have hnil : d.bytes = [] := by
        simp only [DataBuffer.size] at hsize
        exact List.eq_nil_of_length_eq_zero (by omega)
      simp [iov, hsize, dataOf, WireByte.placeholder, hnil]

theorem same_self (p : PendingSend) : p.same p = true := by simp [same]

end PendingSend

/-- A placeholder is alone in its segment, and came with descriptors. -/
def Segment.Sound (seg : Segment) : Prop :=
  seg.bytes ≠ [] ∧
    ∀ b ∈ seg.bytes, b.isPlaceholder = true → seg.bytes = [.placeholder] ∧ seg.fds ≠ []

namespace Channel

theorem segments_bytes (p : PendingSend) {n head : Nat} (h : head ≤ n) :
    (segments p n head).flatMap Segment.bytes = p.iov.take n := by
  have htake : (p.iov.take n).take head = p.iov.take head := by
    rw [List.take_take, Nat.min_eq_left h]
  unfold segments
  by_cases hlt : head < n
  · simp only [hlt, if_true, List.flatMap_cons, List.flatMap_nil, List.append_nil]
    rw [← htake, List.take_append_drop]
  · have heq : head = n := by omega
    simp [heq]

theorem segments_sound {p : PendingSend} (hp : p.Ready) {n head : Nat} (hhead : 1 ≤ head)
    (hn : head ≤ n) (hlen : n ≤ p.iov.length) : ∀ seg ∈ segments p n head, seg.Sound := by
  intro seg hseg
  rcases hp with hdata | ⟨hnone, hfds, hsent⟩
  · have hpure := PendingSend.data_of_hasData hdata
    have hsound : seg.bytes ≠ [] ∧ ∀ b ∈ seg.bytes, b ∈ p.iov := by
      unfold segments at hseg
      rcases List.mem_cons.mp hseg with rfl | hseg
      · refine ⟨fun hnil => ?_, fun b hb => List.mem_of_mem_take hb⟩
        have hzero := congrArg List.length hnil
        simp only [List.length_take, List.length_nil] at hzero
        omega
      · split at hseg
        · obtain rfl := List.mem_singleton.mp hseg
          refine ⟨fun hnil => ?_, fun b hb => List.mem_of_mem_take (List.mem_of_mem_drop hb)⟩
          have hzero := congrArg List.length hnil
          simp only [List.length_drop, List.length_take, List.length_nil] at hzero
          omega
        · cases hseg
    refine ⟨hsound.1, fun b hb hplaceholder => ?_⟩
    have hfalse := hpure b (hsound.2 b hb)
    rw [hplaceholder] at hfalse
    cases hfalse
  · -- a placeholder is one byte, so `sendmsg` cannot split it
    have hiov := PendingSend.iov_of_noData hnone
    rw [hiov, List.length_singleton] at hlen
    have hone : head = 1 ∧ n = 1 := by omega
    obtain ⟨rfl, rfl⟩ := hone
    have hseg : seg = ⟨[.placeholder], p.fds⟩ := by
      simpa [segments, hiov, PendingSend.control, hsent] using hseg
    rw [hseg]
    exact ⟨by simp, fun _ _ _ => ⟨rfl, hfds⟩⟩

theorem take_append (ss : List Segment) (n : Nat) :
    (take ss n).1 ++ (take ss n).2.2.flatMap Segment.bytes = ss.flatMap Segment.bytes := by
  induction ss generalizing n with
  | nil => rfl
  | cons seg rest ih =>
    unfold take
    split
    · rfl
    · split
      · simp [← List.append_assoc]
      · split
        · simp [ih]
        · rfl

theorem take_sound {ss : List Segment} (h : ∀ seg ∈ ss, seg.Sound) (n : Nat) :
    ∀ seg ∈ (take ss n).2.2, seg.Sound := by
  induction ss generalizing n with
  | nil => simp [take]
  | cons seg rest ih =>
    have hrest := fun x hx => h x (List.mem_cons_of_mem seg hx)
    unfold take
    split
    · exact h
    · split
      · rename_i hn hlt
        intro x hx
        rcases List.mem_cons.mp hx with rfl | hx
        · refine ⟨by simpa using hlt, fun b hb hplaceholder => ?_⟩
          -- a segment of one byte is not split
          have hone := ((h seg List.mem_cons_self).2 b (List.mem_of_mem_drop hb) hplaceholder).1
          rw [hone, List.length_singleton] at hlt
          omega
        · exact hrest x hx
      · split
        · exact ih hrest _
        · exact hrest

theorem take_ne_nil {ss : List Segment} (h : ∀ seg ∈ ss, seg.Sound) {n : Nat} (hn : n ≠ 0)
    (hss : ss ≠ []) : (take ss n).1 ≠ [] := by
  cases ss with
  | nil => exact absurd rfl hss
  | cons seg rest =>
    have hne := (h seg List.mem_cons_self).1
    unfold take
    rw [if_neg hn]
    split
    · simpa [hn] using hne
    · split
      · simp [hne]
      · exact hne

theorem take_placeholder {ss : List Segment} (h : ∀ seg ∈ ss, seg.Sound) {n : Nat} {b : WireByte}
    (hb : b ∈ (take ss n).1) (hplaceholder : b.isPlaceholder = true) :
    b = .placeholder ∧ (take ss n).2.1 ≠ [] := by
  induction ss generalizing n with
  | nil => simp [take] at hb
  | cons seg rest ih =>
    have hseg := (h seg List.mem_cons_self).2
    have hrest := fun x hx => h x (List.mem_cons_of_mem seg hx)
    unfold take at hb ⊢
    by_cases hn : n = 0
    · simp [hn] at hb
    · simp only [hn, if_false] at hb ⊢
      by_cases hlt : n < seg.bytes.length
      · simp only [hlt, if_true] at hb
        have hone := (hseg b (List.mem_of_mem_take hb) hplaceholder).1
        rw [hone, List.length_singleton] at hlt
        omega
      · simp only [hlt, if_false] at hb ⊢
        by_cases hfds : seg.fds.isEmpty = true
        · simp only [hfds, if_true] at hb ⊢
          rcases List.mem_append.mp hb with hb | hb
          · exact absurd (List.isEmpty_iff.mp hfds) (hseg b hb hplaceholder).2
          · exact ih hrest hb
        · simp only [hfds] at hb ⊢
          obtain ⟨hone, hne⟩ := hseg b hb hplaceholder
          rw [hone] at hb
          exact ⟨List.mem_singleton.mp hb, hne⟩

def outgone (s : Channel) : List UInt8 :=
  dataOf s.received.flatten ++ dataOf (s.stream.flatMap Segment.bytes)

def waiting (s : Channel) : List UInt8 := dataOf (s.sendQueue.flatMap PendingSend.iov)

structure Whole (s : Channel) : Prop where
  ready : ∀ p ∈ s.sendQueue, p.Ready
  front : ∀ p, s.sending = some p → ∃ rest, s.sendQueue = p :: rest
  sound : ∀ seg ∈ s.stream, seg.Sound
  /-- Unless data was taken for a placeholder, none is missing. -/
  kept : (∀ b ∈ s.dropped, b.isPlaceholder = true) →
    (s.isOpen = true ∨ s.sending ≠ none → s.outgone ++ s.waiting = s.accepted) ∧
      s.outgone <+: s.accepted

theorem whole_connected : connected.Whole where
  ready := by simp [connected]
  front := by simp [connected]
  sound := by simp [connected]
  kept := by simp [connected, outgone, waiting]

theorem call_induction {P : Channel → Prop} {s : Channel} (hsame : P s)
    (henqueue : ∀ data fds, P ((s.acceptData data).queueSend ⟨data, 0, fds, false⟩))
    (sender : Sender) (c : SendCall) (duplicated : List Fd) :
    P (s.call sender c duplicated).1 := by
  have hsend : ∀ sender data fds duplicated,
      P (s.sendWithFds sender data fds duplicated).1 := by
    intro sender data fds duplicated
    unfold sendWithFds
    split
    · exact hsame
    · split
      · exact hsame
      · exact henqueue data _
  unfold call
  split
  · split
    · exact hsame
    · exact hsend _ _ _ _
  · split
    · exact hsame
    · exact hsend _ _ _ _
  · split
    · exact hsame
    · exact hsend _ _ _ _
  · exact hsend _ _ _ _
  · exact hsend _ _ _ _

theorem bytes_of_noData {data : Option DataBuffer} (h : noData data = true) :
    (data.map DataBuffer.bytes).getD [] = [] := by
  cases data with
  | none => rfl
  | some d => simpa [noData, DataBuffer.size] using h

theorem Whole.enqueue {s : Channel} (hs : s.Whole) (hopen : s.isOpen = true)
    (data : Option DataBuffer) (fds : List Fd) :
    ((s.acceptData data).queueSend ⟨data, 0, fds, false⟩).Whole := by
  unfold queueSend acceptData
  by_cases hguard : (noData data && fds.isEmpty) = true
  · have hnil := bytes_of_noData (Bool.and_eq_true_iff.mp hguard).1
    simpa [hguard, hnil] using hs
  · simp only [hguard, Bool.false_eq_true, if_false]
    refine ⟨fun p hp => ?_, fun p hp => ?_, hs.sound, fun hdropped => ?_⟩
    · rcases List.mem_append.mp hp with hp | hp
      · exact hs.ready p hp
      · obtain rfl := List.mem_singleton.mp hp
        cases data with
        | none =>
          have hfds : fds ≠ [] := by simpa [noData] using hguard
          exact .inr ⟨rfl, hfds, rfl⟩
        | some d =>
          by_cases hsize : d.size = 0
          · have hfds : fds ≠ [] := by simpa [noData, hsize] using hguard
            exact .inr ⟨by simp [noData, hsize], hfds, rfl⟩
          · exact .inl (by simp [PendingSend.hasData]; omega)
    · obtain ⟨rest, hrest⟩ := hs.front p hp
      exact ⟨rest ++ [_], by rw [hrest, List.cons_append]⟩
    · obtain ⟨heq, hin⟩ := hs.kept hdropped
      refine ⟨fun _ => ?_, hin.trans (List.prefix_append _ _)⟩
      have hnew := PendingSend.dataOf_iov_new data fds
      simp only [outgone, waiting, List.flatMap_append, List.flatMap_singleton, dataOf_append]
        at heq ⊢
      rw [hnew, ← heq (.inl hopen)]
      simp only [List.append_assoc]

theorem Whole.copyFront {s t : Channel} (hs : s.Whole) (hopen : s.isOpen = true)
    (h : s.front = some t) : t.Whole := by
  unfold Channel.front at h
  split at h
  · cases h
  · rename_i p rest hqueue
    cases h
    refine ⟨hs.ready, fun q hq => ?_, hs.sound, fun hdropped => ?_⟩
    · cases hq
      exact ⟨rest, hqueue⟩
    · obtain ⟨heq, hin⟩ := hs.kept hdropped
      exact ⟨fun _ => heq (.inl hopen), hin⟩

theorem Whole.close {s : Channel} (hs : s.Whole) : Whole { s with isOpen := false } where
  ready := hs.ready
  front := hs.front
  sound := hs.sound
  kept hdropped := by
    obtain ⟨heq, hin⟩ := hs.kept hdropped
    refine ⟨fun hsending => heq (.inr ?_), hin⟩
    simpa using hsending

theorem Whole.sendmsg {s t : Channel} (hs : s.Whole) {p : PendingSend} (hp : s.sending = some p)
    {r : SendmsgResult} (h : s.sendmsg p r = some t) : t.Whole := by
  obtain ⟨rest, hqueue⟩ := hs.front p hp
  have hready := hs.ready p (by simp [hqueue])
  have hrest : ∀ q ∈ rest, q.Ready := fun q hq => hs.ready q (by simp [hqueue, hq])
  cases r with
  | wouldBlock =>
    cases h
    refine ⟨hs.ready, by simp, hs.sound, fun hdropped => ?_⟩
    obtain ⟨heq, hin⟩ := hs.kept hdropped
    exact ⟨fun hopen => heq (.inr (by simp [hp])), hin⟩
  | error =>
    cases h
    refine ⟨fun q hq => hs.ready q (List.mem_of_mem_tail hq), by simp, hs.sound, ?_⟩
    intro hdropped
    exact ⟨by simp, (hs.kept hdropped).2⟩
  | bytes n head =>
    simp only [Channel.sendmsg, hqueue, PendingSend.same_self, if_true] at h
    split at h
    · rename_i hbounds
      obtain ⟨hhead, hn, hlen⟩ := hbounds
      cases h
      have hsegments := segments_sound hready hhead hn hlen
      have hbytes := segments_bytes p hn
      have hupdated := PendingSend.iov_updated hready (Nat.le_trans hhead hn)
      refine ⟨fun q hq => ?_, by simp, fun seg hseg => ?_, fun hdropped => ?_⟩
      · split at hq
        · rename_i hmore
          rcases List.mem_cons.mp hq with rfl | hq
          · exact .inl hmore
          · exact hrest q hq
        · exact hrest q hq
      · rcases List.mem_append.mp hseg with hseg | hseg
        · exact hs.sound seg hseg
        · exact hsegments seg hseg
      · have hsplit : ((if (p.updated n).hasData then p.updated n :: rest else rest).flatMap
            PendingSend.iov) = (if (p.updated n).hasData then (p.updated n).iov else []) ++
              rest.flatMap PendingSend.iov := by
          split <;> rfl
        have hall := (hs.kept hdropped).1 (.inr (by simp [hp]))
        simp only [outgone, waiting, hqueue, List.flatMap_cons, List.flatMap_append, hsplit,
          hbytes, dataOf_append] at hall ⊢
        rw [← hupdated, dataOf_append] at hall
        simp only [List.append_assoc] at hall ⊢
        refine ⟨fun _ => hall, ?_⟩
        rw [← hall, ← List.append_assoc, ← List.append_assoc, ← List.append_assoc]
        exact List.prefix_append _ _
    · cases h

theorem isPlaceholder_iff {buffer : List WireByte} {fds : List Fd} :
    isPlaceholder buffer (fds.take MAX_FDS_PER_MESSAGE) = true ↔
      fds ≠ [] ∧ ∃ b, buffer = [b] ∧ b.value = 0 := by
  have hfds : fds.take MAX_FDS_PER_MESSAGE = [] ↔ fds = [] := by
    simp [List.take_eq_nil_iff, MAX_FDS_PER_MESSAGE]
  have hmap : buffer.map WireByte.value = [0] ↔ ∃ b, buffer = [b] ∧ b.value = 0 := by
    simp [List.map_eq_cons_iff]
  simp [isPlaceholder, hfds, hmap]

theorem receiveTask_eq (sender : Sender) (s : Channel) (buffer : Option (List WireByte))
    (fds : List Fd) : receiveTask sender s buffer fds = s.processMessage buffer fds := by
  cases sender <;> rfl

theorem processMessage_none (s : Channel) (fds : List Fd) :
    s.processMessage none fds = { s with messages := s.messages ++ [(none, fds)] } := by
  simp [processMessage]

theorem processMessage_data (s : Channel) {bytes : List WireByte} {fds : List Fd}
    (hne : bytes ≠ []) (h : isPlaceholder bytes fds = false) :
    s.processMessage (some bytes) fds =
      { s with
        received := s.received ++ [bytes]
        messages := s.messages ++ [(some bytes, fds)] } := by
  simp [processMessage, h, hne]

theorem handleReceive_cases (sender : Sender) (s : Channel) {bytes : List WireByte}
    (hne : bytes ≠ []) (fds : List Fd) :
    ((fds ≠ [] ∧ ∃ b, bytes = [b] ∧ b.value = 0) ∧ s.handleReceive sender bytes fds =
      { s with
        messages := s.messages ++ [(none, fds.take MAX_FDS_PER_MESSAGE)]
        dropped := s.dropped ++ bytes }) ∨
    (¬(fds ≠ [] ∧ ∃ b, bytes = [b] ∧ b.value = 0) ∧ s.handleReceive sender bytes fds =
      { s with
        messages := s.messages ++ [(some bytes, fds.take MAX_FDS_PER_MESSAGE)]
        received := s.received ++ [bytes] }) := by
  rw [← isPlaceholder_iff]
  unfold handleReceive
  by_cases hplaceholder : isPlaceholder bytes (fds.take MAX_FDS_PER_MESSAGE) = true
  · refine .inl ⟨hplaceholder, ?_⟩
    simp only [hplaceholder, if_true, receiveTask_eq, processMessage_none]
  · have hdata := processMessage_data s hne (Bool.eq_false_iff.mpr hplaceholder)
    refine .inr ⟨hplaceholder, ?_⟩
    simp only [hplaceholder, Bool.false_eq_true, if_false, receiveTask_eq, hdata]

theorem recvmsg_cases {sender : Sender} {s t : Channel} (hs : s.Whole) {n : Nat}
    (h : s.recvmsg sender n = some t) :
    n ≠ 0 ∧ (take s.stream n).1 ≠ [] ∧
      t = handleReceive sender { s with stream := (take s.stream n).2.2 } (take s.stream n).1
        (take s.stream n).2.1 := by
  unfold recvmsg at h
  split at h
  · cases h
  · rename_i hguard
    obtain ⟨hn, hstream⟩ := not_or.mp hguard
    cases h
    exact ⟨hn, take_ne_nil hs.sound hn hstream, rfl⟩

theorem Whole.recvmsg {sender : Sender} {s t : Channel} (hs : s.Whole) {n : Nat}
    (h : s.recvmsg sender n = some t) : t.Whole := by
  obtain ⟨-, hne, rfl⟩ := recvmsg_cases hs h
  have hsound := take_sound hs.sound n
  have hsplit := congrArg dataOf (take_append s.stream n)
  rw [dataOf_append] at hsplit
  rcases handleReceive_cases sender { s with stream := (take s.stream n).2.2 } hne
    (take s.stream n).2.1 with ⟨-, heq⟩ | ⟨-, heq⟩
  · rw [heq]
    refine ⟨hs.ready, hs.front, hsound, fun hdropped => ?_⟩
    have hold := hs.kept fun b hb => hdropped b (List.mem_append_left _ hb)
    have hnil := dataOf_eq_nil fun b hb => hdropped b (List.mem_append_right _ hb)
    rw [hnil, List.nil_append] at hsplit
    simp only [outgone, waiting, hsplit] at hold ⊢
    exact hold
  · rw [heq]
    refine ⟨hs.ready, hs.front, hsound, fun hdropped => ?_⟩
    have hold := hs.kept hdropped
    have hsame : dataOf (s.received ++ [(take s.stream n).1]).flatten ++
        dataOf ((take s.stream n).2.2.flatMap Segment.bytes) = s.outgone := by
      simp only [List.flatten_append, List.flatten_singleton, dataOf_append, List.append_assoc,
        hsplit, outgone]
    simp only [waiting, outgone] at hold hsame ⊢
    rw [hsame]
    exact hold

theorem whole_step {sender : Sender} {s t : Channel} {a : ChannelAct} (hs : s.Whole)
    (h : step sender s a = some t) : t.Whole := by
  cases a with
  | call c duplicated =>
    simp only [step] at h
    split at h
    · rename_i hopen
      cases h
      exact call_induction hs (hs.enqueue hopen) sender c duplicated
    · cases h
  | front =>
    simp only [step] at h
    split at h
    · rename_i hguard
      exact hs.copyFront (Bool.and_eq_true_iff.mp hguard).1 h
    · cases h
  | sendmsg r =>
    obtain ⟨p, hp, hsend⟩ := Option.bind_eq_some_iff.mp h
    exact hs.sendmsg hp hsend
  | close =>
    simp only [step] at h
    split at h
    · cases h
      exact hs.close
    · cases h
  | recvmsg n => exact hs.recvmsg h

/-- What `OnReceive` was called with is what the sender was given, as far as it has
come; while the connection is open the rest is on its way. -/
structure Transparent (s : Channel) : Prop where
  noPlaceholder : ∀ b ∈ s.received.flatten, b.isPlaceholder = false
  noDataDropped : ∀ b ∈ s.dropped, b.isPlaceholder = true
  inOrder : s.received.flatten.map WireByte.value <+: s.accepted
  complete : s.isOpen = true → s.received.flatten.map WireByte.value ++
    dataOf (s.stream.flatMap Segment.bytes) ++ s.waiting = s.accepted

/-- A read brings no placeholder together with other bytes, and no single zero byte
of data together with descriptors. -/
def Separated (s : Channel) : ChannelAct → Prop
  | .recvmsg n =>
      (∀ b ∈ (take s.stream n).1, b.isPlaceholder = true → (take s.stream n).1 = [b]) ∧
        ((take s.stream n).1 = [⟨0, false⟩] → (take s.stream n).2.1 = [])
  | _ => True

instance (s : Channel) (a : ChannelAct) : Decidable (Separated s a) := by
  cases a <;> unfold Separated <;> infer_instance

def Sorted (s : Channel) : Prop :=
  (∀ b ∈ s.received.flatten, b.isPlaceholder = false) ∧ ∀ b ∈ s.dropped, b.isPlaceholder = true

theorem transparent_iff {s : Channel} (hs : s.Whole) : s.Transparent ↔ s.Sorted := by
  constructor
  · exact fun h => ⟨h.noPlaceholder, h.noDataDropped⟩
  · rintro ⟨hreceived, hdropped⟩
    obtain ⟨hall, hin⟩ := hs.kept hdropped
    have hvalue := dataOf_eq_map hreceived
    simp only [outgone, hvalue] at hall hin
    exact ⟨hreceived, hdropped, (List.prefix_append _ _).trans hin, fun hopen => hall (.inl hopen)⟩

theorem sorted_recvmsg {sender : Sender} {s t : Channel} (hs : s.Whole) {n : Nat}
    (h : s.recvmsg sender n = some t) : t.Sorted ↔ s.Sorted ∧ Separated s (.recvmsg n) := by
  obtain ⟨-, hne, rfl⟩ := recvmsg_cases hs h
  have hplaceholder := fun b => take_placeholder (b := b) (n := n) hs.sound
  simp only [Separated]
  generalize (take s.stream n).1 = bytes at hne hplaceholder ⊢
  generalize (take s.stream n).2.1 = fds at hplaceholder ⊢
  rcases handleReceive_cases sender { s with stream := (take s.stream n).2.2 } hne fds with
    ⟨⟨hfds, b, rfl, hzero⟩, heq⟩ | ⟨hdata, heq⟩
  · have hkind : b.isPlaceholder = true ↔ b ≠ ⟨0, false⟩ := by
      obtain ⟨value, kind⟩ := b
      simp only at hzero
      cases kind <;> simp [hzero]
    rw [heq]
    simp [Sorted, hfds, hkind, or_imp, forall_and, and_assoc]
  · have halone : (∀ b ∈ bytes, b.isPlaceholder = true → bytes = [b]) ↔
        ∀ b ∈ bytes, b.isPlaceholder = false := by
      constructor
      · intro hone b hb
        by_contra hkind
        have htrue := Bool.not_eq_false _ ▸ hkind
        obtain ⟨hvalue, hfds⟩ := hplaceholder b hb htrue
        -- a placeholder on its own would have been kept back
        exact hdata ⟨hfds, b, hone b hb htrue, by rw [hvalue]; rfl⟩
      · intro hpure b hb htrue
        rw [hpure b hb] at htrue
        cases htrue
    have hzero : bytes = [⟨0, false⟩] → fds = [] := by
      intro hbytes
      by_contra hfds
      exact hdata ⟨hfds, ⟨0, false⟩, hbytes, rfl⟩
    rw [heq, halone]
    simp only [Sorted, List.flatten_append, List.flatten_singleton, List.mem_append, or_imp,
      forall_and]
    tauto

theorem receiver_queueSend (s : Channel) (data : Option DataBuffer) (p : PendingSend) :
    ((s.acceptData data).queueSend p).received = s.received ∧
      ((s.acceptData data).queueSend p).dropped = s.dropped := by
  unfold queueSend
  split
  · exact ⟨rfl, rfl⟩
  · exact ⟨rfl, rfl⟩

theorem receiver_sendmsg {s t : Channel} {p : PendingSend} {r : SendmsgResult}
    (h : s.sendmsg p r = some t) : t.received = s.received ∧ t.dropped = s.dropped := by
  cases r with
  | wouldBlock =>
    cases h
    exact ⟨rfl, rfl⟩
  | error =>
    cases h
    exact ⟨rfl, rfl⟩
  | bytes n head =>
    simp only [sendmsg] at h
    split at h
    · split at h
      · cases h
        exact ⟨rfl, rfl⟩
      · split at h
        · cases h
          exact ⟨rfl, rfl⟩
        · cases h
          exact ⟨rfl, rfl⟩
    · cases h

theorem sorted_step {sender : Sender} {s t : Channel} {a : ChannelAct} (hs : s.Whole)
    (h : step sender s a = some t) : t.Sorted ↔ s.Sorted ∧ Separated s a := by
  have hother : t.received = s.received ∧ t.dropped = s.dropped → (t.Sorted ↔ s.Sorted) := by
    rintro ⟨hreceived, hdropped⟩
    simp only [Sorted, hreceived, hdropped]
  cases a with
  | recvmsg n => exact sorted_recvmsg hs h
  | call c duplicated =>
    simp only [step] at h
    split at h
    · cases h
      have hkeep := call_induction (P := fun t => t.received = s.received ∧ t.dropped = s.dropped)
        ⟨rfl, rfl⟩ (fun data fds => receiver_queueSend s data _) sender c duplicated
      simpa [Separated] using hother hkeep
    · cases h
  | front =>
    simp only [step, front] at h
    split at h
    · split at h
      · cases h
      · cases h
        simpa [Separated] using hother ⟨rfl, rfl⟩
    · cases h
  | sendmsg r =>
    obtain ⟨p, -, hsend⟩ := Option.bind_eq_some_iff.mp h
    simpa [Separated] using hother (receiver_sendmsg hsend)
  | close =>
    simp only [step] at h
    split at h
    · cases h
      simpa [Separated] using hother ⟨rfl, rfl⟩
    · cases h

/-- A run delivers what the sender was given, byte for byte, exactly when none of its
reads mixes a placeholder with data or makes data look like one. -/
theorem transparent_iff_separated (sender : Sender) {as : List ChannelAct} {t : Channel}
    (hrun : (machine sender).run connected as = some t) :
    t.Transparent ↔ (machine sender).Every (fun s a _ => Separated s a) connected as := by
  have hwhole : t.Whole :=
    (machine sender).run_invariant (fun _ _ _ hs h => whole_step hs h) whole_connected hrun
  rw [transparent_iff hwhole]
  constructor
  · intro ht
    have hfinal := (machine sender).every_of_final (A := fun _ => True) (I := Whole) (Q := Sorted)
      (C := fun s a _ => Separated s a) (fun _ _ _ _ hs h => whole_step hs h)
      (fun _ _ _ _ hs h => (sorted_step hs h).mp) (fun _ _ => trivial) whole_connected hrun ht
    exact hfinal.2
  · intro hseparated
    have hconnected : connected.Whole ∧ connected.Sorted :=
      ⟨whole_connected, by simp [Sorted, connected]⟩
    have hboth := (machine sender).run_invariant_of_every (I := fun s => s.Whole ∧ s.Sorted)
      (fun _ _ _ hs h hc => ⟨whole_step hs.1 h, (sorted_step hs.1 h).mpr ⟨hs.2, hc⟩⟩)
      hconnected hseparated hrun
    exact hboth.2

def dataThenFds : List ChannelAct :=
  [.call (.sendWithFds (some ⟨1, [0, 98]⟩) [3]) [13], .call (.sendFds [4]) [14], .front,
    .sendmsg (.bytes 2 2), .front, .sendmsg (.bytes 1 1)]

theorem transparent_iff_separated_twoReads :
    ∃ t, (machine .client).run connected (dataThenFds ++ [.recvmsg 4096, .recvmsg 4096]) = some t ∧
      t.received = [[⟨0, false⟩, ⟨98, false⟩]] ∧ t.Transparent := by
  have hrun : (machine .client).run connected
      (dataThenFds ++ [.recvmsg 4096, .recvmsg 4096]) = some _ := rfl
  exact ⟨_, hrun, rfl, (transparent_iff_separated .client hrun).mpr
    ((machine .client).every_of_check (by decide))⟩

/-- `Send` and then `SendFds`, and one read that returns what both sent. -/
def dataBeforeFds : List ChannelAct :=
  [.call (.send (some ⟨1, [97]⟩)) [], .call (.sendFds [3]) [13], .front, .sendmsg (.bytes 1 1),
    .front, .sendmsg (.bytes 1 1), .recvmsg 4096]

theorem dataBeforeFds_receives_placeholder :
    ¬∀ sender as t, (machine sender).run connected as = some t → t.Transparent := by
  intro htransparent
  have hrun : (machine .client).run connected dataBeforeFds = some _ := rfl
  have hplaceholder := (htransparent _ _ _ hrun).noPlaceholder
  exact absurd (hplaceholder .placeholder (by decide)) (by decide)

end Channel

end Lmnet.Epoll
