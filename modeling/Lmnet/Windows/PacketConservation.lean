import Lmnet.Lib.WhileLoop
import Lmnet.Windows.PacketOrderer

set_option autoImplicit false

namespace Lmnet.Windows

def Submission.packet (c : Submission) : Seq × PacketInfo :=
  (c.seq, ⟨c.buffer, c.addr, c.arrivalTime⟩)

namespace PacketOrderer

def deliverRound (s : PacketOrderer) : Option PacketOrderer :=
  (s.pendingPackets.find? s.nextExpectedSeq).map s.deliverNext

def overflowRound (s : PacketOrderer) : Option PacketOrderer :=
  if s.pendingPackets.size > s.maxBufferSize then
    s.pendingPackets.min?.map fun oldest => (s.setExpected oldest.1).deliverConsecutivePackets
  else none

/-- The loops of a call stop by themselves: those of `DeliverConsecutivePackets`, wherever it
is called, and that of `EnforceConstraints`. -/
structure Terminates (s : PacketOrderer) (c : Submission) : Prop where
  delivery : ∀ t : PacketOrderer, WhileLoop deliverRound t t.deliverConsecutivePackets
  overflow : WhileLoop overflowRound ((s.store c).deliverConsecutivePackets.skipTimedOut c.now)
    (s.submitPacket c)

/-- All the packets of the calls, and no others, have been delivered or are pending; at most
`maxBufferSize_` are pending, and the expected one is not. -/
structure Conserves (s : PacketOrderer) (cs : List Submission) : Prop where
  packets : s.hasCallback = true →
    (s.delivered ++ s.pendingPackets.entries).Perm (cs.map Submission.packet)
  bound : s.pendingPackets.size ≤ s.maxBufferSize
  gap : s.nextExpectedSeq ∉ s.pendingPackets.keys

theorem deliverLoop_eq (fuel : Nat) (s : PacketOrderer) :
    deliverLoop fuel s = WhileLoop.iterate deliverRound fuel s := by
  induction fuel generalizing s with
  | zero => rfl
  | succ fuel ih =>
    rw [WhileLoop.iterate_succ, deliverLoop]
    cases hfind : s.pendingPackets.find? s.nextExpectedSeq with
    | none => simp [deliverRound, hfind]
    | some p => simp [deliverRound, hfind, ih]

theorem overflowLoop_eq (fuel : Nat) (s : PacketOrderer) :
    overflowLoop fuel s = WhileLoop.iterate overflowRound fuel s := by
  induction fuel generalizing s with
  | zero => rfl
  | succ fuel ih =>
    rw [WhileLoop.iterate_succ, overflowLoop]
    by_cases hover : s.pendingPackets.size > s.maxBufferSize
    · cases hmin : s.pendingPackets.min? with
      | none => simp [overflowRound, hmin]
      | some oldest => simp [overflowRound, hover, hmin, ih]
    · simp [overflowRound, hover]

theorem deliverRound_some {s s' : PacketOrderer} (h : s.deliverRound = some s') :
    ∃ p, s.pendingPackets.find? s.nextExpectedSeq = some p ∧ s.deliverNext p = s' :=
  Option.map_eq_some_iff.mp h

theorem overflowRound_some {s s' : PacketOrderer} (h : s.overflowRound = some s') :
    ∃ k p, s.pendingPackets.min? = some (k, p) ∧
      (s.setExpected k).deliverConsecutivePackets = s' := by
  unfold overflowRound at h
  split at h
  · obtain ⟨⟨k, p⟩, hmin, hnext⟩ := Option.map_eq_some_iff.mp h
    exact ⟨k, p, hmin, hnext⟩
  · cases h

/-! ### The loops stop -/

theorem size_deliverRound_lt {s s' : PacketOrderer} (h : s.deliverRound = some s') :
    s'.pendingPackets.size < s.pendingPackets.size := by
  obtain ⟨p, hp, rfl⟩ := deliverRound_some h
  exact SortedMap.size_erase_lt (SortedMap.mem_keys_of_find? hp)

/-- `DeliverConsecutivePackets` stops in every state: each round takes a packet out. -/
theorem deliverConsecutivePackets_terminates (s : PacketOrderer) :
    WhileLoop deliverRound s s.deliverConsecutivePackets := by
  rw [deliverConsecutivePackets, deliverLoop_eq]
  exact .of_measure (fun t => t.pendingPackets.size) (fun _ _ => size_deliverRound_lt) le_rfl

theorem deliverConsecutivePackets_gap (s : PacketOrderer) :
    s.deliverConsecutivePackets.nextExpectedSeq ∉
      s.deliverConsecutivePackets.pendingPackets.keys := deliverLoop_gap le_rfl

theorem size_deliverConsecutivePackets_lt {s : PacketOrderer}
    (h : s.nextExpectedSeq ∈ s.pendingPackets.keys) :
    s.deliverConsecutivePackets.pendingPackets.size < s.pendingPackets.size := by
  refine s.deliverConsecutivePackets_terminates.measure_lt (fun t => t.pendingPackets.size)
    (fun _ _ => size_deliverRound_lt) fun hnone => ?_
  rw [deliverRound, Option.map_eq_none_iff] at hnone
  exact SortedMap.find?_eq_none.mp hnone h

theorem size_overflowRound_lt {s s' : PacketOrderer} (h : s.overflowRound = some s') :
    s'.pendingPackets.size < s.pendingPackets.size := by
  obtain ⟨k, p, hmin, rfl⟩ := overflowRound_some h
  exact size_deliverConsecutivePackets_lt (s := s.setExpected k)
    (SortedMap.mem_keys_of_min? hmin)

theorem enforceConstraints_terminates (s : PacketOrderer) (now : Int) :
    WhileLoop overflowRound (s.skipTimedOut now) (s.enforceConstraints now) := by
  rw [enforceConstraints, overflowLoop_eq]
  exact .of_measure (fun t => t.pendingPackets.size) (fun _ _ => size_overflowRound_lt) le_rfl

theorem submitPacket_terminates (s : PacketOrderer) (c : Submission) : s.Terminates c :=
  ⟨deliverConsecutivePackets_terminates, enforceConstraints_terminates _ _⟩

/-! ### The bound and the gap -/

/-- The loop stops only when no packet is too many. -/
theorem size_le_of_overflowRound {s : PacketOrderer} (h : s.overflowRound = none) :
    s.pendingPackets.size ≤ s.maxBufferSize := by
  unfold overflowRound at h
  split at h
  · rw [Option.map_eq_none_iff, SortedMap.min?_eq_none] at h
    omega
  · omega

theorem submitPacket_bound (s : PacketOrderer) (c : Submission) :
    (s.submitPacket c).pendingPackets.size ≤ (s.submitPacket c).maxBufferSize :=
  size_le_of_overflowRound (s.submitPacket_terminates c).overflow.exit

theorem skipTimedOut_gap {s : PacketOrderer} (now : Int)
    (h : s.nextExpectedSeq ∉ s.pendingPackets.keys) :
    (s.skipTimedOut now).nextExpectedSeq ∉ (s.skipTimedOut now).pendingPackets.keys := by
  unfold skipTimedOut
  split
  · exact h
  · split
    · exact deliverConsecutivePackets_gap _
    · exact h

theorem submitPacket_gap (s : PacketOrderer) (c : Submission) :
    (s.submitPacket c).nextExpectedSeq ∉ (s.submitPacket c).pendingPackets.keys := by
  refine (s.submitPacket_terminates c).overflow.keeps
    (P := fun t => t.nextExpectedSeq ∉ t.pendingPackets.keys) (fun t t' _ hround => ?_)
    (skipTimedOut_gap c.now (deliverConsecutivePackets_gap _))
  obtain ⟨k, p, -, rfl⟩ := overflowRound_some hround
  exact deliverConsecutivePackets_gap _

/-! ### The packets -/

def packets (s : PacketOrderer) : List (Seq × PacketInfo) :=
  s.delivered ++ s.pendingPackets.entries

structure SamePackets (s t : PacketOrderer) : Prop where
  hasCallback : t.hasCallback = s.hasCallback
  packets : s.hasCallback = true → t.packets.Perm s.packets

theorem SamePackets.refl (s : PacketOrderer) : SamePackets s s := ⟨rfl, fun _ => .refl _⟩

theorem SamePackets.trans {s t u : PacketOrderer} (h : SamePackets s t) (h' : SamePackets t u) :
    SamePackets s u :=
  ⟨h'.hasCallback.trans h.hasCallback, fun hcallback =>
    (h'.packets (h.hasCallback.trans hcallback)).trans (h.packets hcallback)⟩

theorem samePackets_setExpected (s : PacketOrderer) (k : Seq) :
    SamePackets s (s.setExpected k) := ⟨rfl, fun _ => .refl _⟩

theorem samePackets_deliverNext {s : PacketOrderer} {p : PacketInfo}
    (h : s.pendingPackets.find? s.nextExpectedSeq = some p) : SamePackets s (s.deliverNext p) := by
  refine ⟨rfl, fun hcallback => ?_⟩
  have hentry := (SortedMap.entries_perm_of_find? h).append_left s.delivered
  simp only [packets, deliverNext, hcallback, if_true]
  rw [List.append_assoc]
  exact hentry.symm

theorem samePackets_deliverConsecutivePackets (s : PacketOrderer) :
    SamePackets s s.deliverConsecutivePackets :=
  s.deliverConsecutivePackets_terminates.keeps (P := SamePackets s) (fun _ _ h hround => by
    obtain ⟨p, hp, rfl⟩ := deliverRound_some hround
    exact h.trans (samePackets_deliverNext hp)) (.refl s)

theorem samePackets_skip (s : PacketOrderer) (k : Seq) :
    SamePackets s (s.setExpected k).deliverConsecutivePackets :=
  (samePackets_setExpected s k).trans (samePackets_deliverConsecutivePackets _)

theorem samePackets_skipTimedOut (s : PacketOrderer) (now : Int) :
    SamePackets s (s.skipTimedOut now) := by
  unfold skipTimedOut
  split
  · exact .refl s
  · split
    · exact samePackets_skip s _
    · exact .refl s

/-- All three triggers of a delivery. -/
theorem samePackets_submitPacket (s : PacketOrderer) (c : Submission) :
    SamePackets (s.store c) (s.submitPacket c) := by
  have hloop := (s.submitPacket_terminates c).overflow.keeps
    (P := SamePackets ((s.store c).deliverConsecutivePackets.skipTimedOut c.now))
    (fun t t' h hround => by
      obtain ⟨k, p, -, rfl⟩ := overflowRound_some hround
      exact h.trans (samePackets_skip t k)) (.refl _)
  exact ((samePackets_deliverConsecutivePackets _).trans (samePackets_skipTimedOut _ c.now)).trans
    hloop

theorem packets_store {s : PacketOrderer} {c : Submission}
    (h : c.seq ∉ s.pendingPackets.keys) : (s.store c).packets.Perm (s.packets ++ [c.packet]) := by
  have hentries := (SortedMap.entries_insert_perm ⟨c.buffer, c.addr, c.arrivalTime⟩ h).append_left
    s.delivered
  refine hentries.trans ?_
  rw [packets, List.append_assoc]
  exact (List.perm_append_singleton c.packet s.pendingPackets.entries).symm.append_left s.delivered

theorem conserves_created (hasCallback : Bool) (maxBufferSize : Nat) (gapTimeout : Int) :
    (created hasCallback maxBufferSize gapTimeout).Conserves [] :=
  ⟨fun _ => .refl _, Nat.zero_le _, List.not_mem_nil⟩

theorem Conserves.submitPacket {s : PacketOrderer} {cs : List Submission} {c : Submission}
    (h : s.Conserves cs) (hnew : c.seq ∉ cs.map Submission.seq) :
    (s.submitPacket c).Conserves (cs ++ [c]) := by
  refine ⟨fun hcallback => ?_, s.submitPacket_bound c, s.submitPacket_gap c⟩
  have hsame := samePackets_submitPacket s c
  have hcallback' : s.hasCallback = true := hsame.hasCallback.symm.trans hcallback
  have hkeys : c.seq ∉ s.pendingPackets.keys := by
    intro hmem
    obtain ⟨e, he, hseq⟩ := List.mem_map.mp hmem
    have hsubmitted := (h.packets hcallback').mem_iff.mp (List.mem_append_right s.delivered he)
    obtain ⟨d, hd, rfl⟩ := List.mem_map.mp hsubmitted
    exact hnew (List.mem_map.mpr ⟨d, hd, hseq⟩)
  rw [List.map_append]
  exact ((hsame.packets hcallback').trans (packets_store hkeys)).trans
    ((h.packets hcallback').append_right _)

theorem Conserves.run {s t : PacketOrderer} {before cs : List Submission} (h : s.Conserves before)
    (hnodup : ((before ++ cs).map Submission.seq).Nodup) (hrun : machine.run s cs = some t) :
    t.Conserves (before ++ cs) := by
  induction cs generalizing s before with
  | nil =>
    cases hrun
    rwa [List.append_nil]
  | cons c cs ih =>
    obtain ⟨s', hs, hrest⟩ := machine.run_cons.mp hrun
    cases hs
    rw [List.append_cons] at hnodup ⊢
    refine ih (h.submitPacket ?_) hnodup hrest
    rw [List.map_append, List.map_append] at hnodup
    have hfirst := (List.nodup_append.mp hnodup).1
    rw [List.map_singleton] at hfirst
    exact fun hmem => (List.nodup_append.mp hfirst).2.2 _ hmem _ (List.mem_singleton_self _) rfl

/-- After each of any calls with distinct numbers, every packet is delivered or pending, once
and with its data, within the bound; and no call goes on for ever. -/
theorem conserves_of_distinct (hasCallback : Bool) (maxBufferSize : Nat) (gapTimeout : Int)
    {cs : List Submission} {t : PacketOrderer}
    (hrun : machine.run (created hasCallback maxBufferSize gapTimeout) cs = some t)
    (hdistinct : (cs.map Submission.seq).Nodup) :
    t.Conserves cs ∧ machine.Every (fun s c _ => s.Terminates c)
      (created hasCallback maxBufferSize gapTimeout) cs :=
  ⟨(conserves_created hasCallback maxBufferSize gapTimeout).run hdistinct hrun,
    machine.every_of_mem fun c _ s _ => s.submitPacket_terminates c⟩

/-- A buffer without room, and packets that come the wrong way round. -/
theorem conserves_of_distinct_noRoom :
    ∃ t, machine.run (created true 0 100) latePacket = some t ∧ t.Conserves latePacket := by
  have hrun : machine.run (created true 0 100) latePacket = some _ := rfl
  exact ⟨_, hrun, (conserves_of_distinct true 0 100 hrun (by decide)).1⟩

end PacketOrderer

end Lmnet.Windows
