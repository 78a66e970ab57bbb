import Lmnet.Lib.Stretch
import Lmnet.Windows.PacketConservation

set_option autoImplicit false

namespace Lmnet.Windows

namespace PacketOrderer

def nextSeq (k : Seq) : Seq := k + 1

/-- What is pending, with the packet of the call, when the packets that follow the delivered
ones have gone. -/
def leftBehind (s : PacketOrderer) (c : Submission) : List (Seq × PacketInfo) :=
  leave nextSeq (s.store c).pendingPackets.entries s.nextExpectedSeq

/-- At the time of the check the packet has waited for longer than `gapTimeout_`. -/
def Overdue (s : PacketOrderer) (c : Submission) (p : PacketInfo) : Prop :=
  c.now - p.arrivalTime > s.gapTimeout * 1000000

/-- Each packet that is overdue is among those that are skipped to: in the first stretch of
consecutive numbers, the first packet of which has timed out, or in one with more than
`maxBufferSize_` packets from its beginning on. -/
def Attends (s : PacketOrderer) (c : Submission) : Prop :=
  ∀ e ∈ s.leftBehind c, s.Overdue c e.2 →
    (∃ first ∈ (s.leftBehind c).head?, TimedOut s.gapTimeout c.now first.2.arrivalTime ∧
      Stretch nextSeq ((s.leftBehind c).map Prod.fst) first.1 e.1) ∨
    s.maxBufferSize < (fromStretch nextSeq (s.leftBehind c) e.1).length

/-- After a call at the time `c.now` no packet is pending that came earlier than `gapTimeout_`
before it. -/
def Punctual (s : PacketOrderer) (c : Submission) : Prop :=
  ∀ e ∈ s.pendingPackets.entries, ¬ e.2.arrivalTime < c.now - s.gapTimeout * 1000000

instance decidablePunctual (s : PacketOrderer) (c : Submission) : Decidable (s.Punctual c) :=
  inferInstanceAs (Decidable (∀ _ ∈ _, _))

theorem nextSeq_le (a b : Seq) (h : a < b) : nextSeq a ≤ b := Fin.add_one_le_of_lt h

theorem min?_le {m : SortedMap Seq PacketInfo} {first : Seq × PacketInfo}
    (h : m.min? = some first) : ∀ e ∈ m.entries, first.1 ≤ e.1 :=
  fun _ he => SortedMap.le_of_min? h (List.mem_map_of_mem he)

/-! ### What is left -/

theorem entries_deliverLoop {fuel : Nat} {s : PacketOrderer} (h : s.pendingPackets.size ≤ fuel) :
    (deliverLoop fuel s).pendingPackets.entries =
      leave nextSeq s.pendingPackets.entries s.nextExpectedSeq := by
  induction fuel generalizing s with
  | zero =>
    have hnil : s.pendingPackets.entries = [] := List.length_eq_zero_iff.mp (Nat.le_zero.mp h)
    simp [deliverLoop, leave, hnil]
  | succ fuel ih =>
    rw [deliverLoop]
    cases hfind : s.pendingPackets.find? s.nextExpectedSeq with
    | none => exact (leave_eq_self (SortedMap.find?_eq_none.mp hfind)).symm
    | some p =>
      have hmem := SortedMap.mem_keys_of_find? hfind
      have hlt := SortedMap.size_erase_lt hmem
      have hrest : (s.deliverNext p).pendingPackets.size ≤ fuel := by
        simp only [deliverNext]
        omega
      exact (ih hrest).trans (leave_erase hmem)

/-- `DeliverConsecutivePackets` takes out the stretch that starts at the expected number. -/
theorem entries_deliverConsecutivePackets (s : PacketOrderer) :
    s.deliverConsecutivePackets.pendingPackets.entries =
      leave nextSeq s.pendingPackets.entries s.nextExpectedSeq := entries_deliverLoop le_rfl

theorem entries_store (s : PacketOrderer) (c : Submission) :
    (s.store c).deliverConsecutivePackets.pendingPackets.entries = s.leftBehind c :=
  entries_deliverConsecutivePackets (s.store c)

theorem entries_skip (s : PacketOrderer) (k : Seq) :
    (s.setExpected k).deliverConsecutivePackets.pendingPackets.entries =
      leave nextSeq s.pendingPackets.entries k := entries_deliverConsecutivePackets _

theorem entries_overflowLoop {fuel : Nat} {s : PacketOrderer}
    (h : s.pendingPackets.size ≤ fuel) :
    (overflowLoop fuel s).pendingPackets.entries = s.pendingPackets.entries.filter fun e =>
      decide ((fromStretch nextSeq s.pendingPackets.entries e.1).length ≤ s.maxBufferSize) := by
  have hfits : ∀ t : PacketOrderer, t.pendingPackets.size ≤ t.maxBufferSize →
      t.pendingPackets.entries = t.pendingPackets.entries.filter fun e =>
        decide ((fromStretch nextSeq t.pendingPackets.entries e.1).length ≤ t.maxBufferSize) :=
    fun t ht => (List.filter_eq_self.mpr fun e _ =>
      decide_eq_true ((List.length_filter_le _ _).trans ht)).symm
  induction fuel generalizing s with
  | zero => exact hfits s (by omega)
  | succ fuel ih =>
    rw [overflowLoop]
    by_cases hover : s.pendingPackets.size > s.maxBufferSize
    · rw [if_pos hover]
      cases hmin : s.pendingPackets.min? with
      | none => exact hfits s (by rw [SortedMap.min?_eq_none.mp hmin]; omega)
      | some first =>
        obtain ⟨k, p⟩ := first
        have hfirst := min?_le hmin
        have hround : overflowRound s = some (s.setExpected k).deliverConsecutivePackets := by
          rw [overflowRound, if_pos hover, hmin]
          rfl
        have hlt := size_overflowRound_lt hround
        have hmax := (deliverConsecutivePackets_bounds (s.setExpected k)).1
        refine (ih (by omega)).trans ?_
        rw [entries_skip, hmax, leave, List.filter_filter, ← leave]
        refine List.filter_congr fun e he => ?_
        rw [← Bool.decide_and, decide_eq_decide]
        by_cases hstretch : Stretch nextSeq (s.pendingPackets.entries.map Prod.fst) k e.1
        · rw [fromStretch_of_stretch nextSeq_le hfirst hstretch]
          constructor
          · exact fun hand => absurd hstretch hand.2
          · exact fun hle => absurd hle (not_le.mpr hover)
        · rw [fromStretch_leave nextSeq_le hfirst (List.mem_map_of_mem he) hstretch]
          exact and_iff_left hstretch
    · rw [if_neg hover]
      exact hfits s (not_lt.mp hover)

theorem maxBufferSize_skipTimedOut (s : PacketOrderer) (now : Int) :
    (s.skipTimedOut now).maxBufferSize = s.maxBufferSize := by
  unfold skipTimedOut
  split
  · rfl
  · split
    · exact (deliverConsecutivePackets_bounds _).1
    · rfl

theorem mem_skipTimedOut {s : PacketOrderer} {now : Int} {e : Seq × PacketInfo} :
    e ∈ (s.skipTimedOut now).pendingPackets.entries ↔ e ∈ s.pendingPackets.entries ∧
      ¬ ∃ first ∈ s.pendingPackets.entries.head?, TimedOut s.gapTimeout now first.2.arrivalTime ∧
        Stretch nextSeq (s.pendingPackets.entries.map Prod.fst) first.1 e.1 := by
  unfold skipTimedOut
  split
  · rename_i hnone
    have hhead : s.pendingPackets.entries.head? = none := hnone
    simp [hhead]
  · rename_i k p hmin
    have hhead : s.pendingPackets.entries.head? = some (k, p) := hmin
    split
    · rename_i hold
      rw [entries_skip, mem_leave, hhead]
      simp [hold]
    · rename_i hyoung
      rw [hhead]
      simp [hyoung]

theorem fromStretch_skipTimedOut {s : PacketOrderer} {now : Int} {e : Seq × PacketInfo}
    (he : e ∈ (s.skipTimedOut now).pendingPackets.entries) :
    fromStretch nextSeq (s.skipTimedOut now).pendingPackets.entries e.1 =
      fromStretch nextSeq s.pendingPackets.entries e.1 := by
  unfold skipTimedOut at he ⊢
  split
  · rfl
  · rename_i k p hmin
    rw [hmin] at he
    split
    · rename_i hold
      simp only [hold, if_true, entries_skip, mem_leave] at he
      rw [entries_skip]
      exact fromStretch_leave nextSeq_le (min?_le hmin) (List.mem_map_of_mem he.1) he.2
    · rfl

/-- The packets pending after a call, in terms of those before it. -/
theorem mem_submitPacket {s : PacketOrderer} {c : Submission} {e : Seq × PacketInfo} :
    e ∈ (s.submitPacket c).pendingPackets.entries ↔ e ∈ s.leftBehind c ∧
      (¬ ∃ first ∈ (s.leftBehind c).head?, TimedOut s.gapTimeout c.now first.2.arrivalTime ∧
        Stretch nextSeq ((s.leftBehind c).map Prod.fst) first.1 e.1) ∧
      (fromStretch nextSeq (s.leftBehind c) e.1).length ≤ s.maxBufferSize := by
  obtain ⟨hmax, hgap⟩ := deliverConsecutivePackets_bounds (s.store c)
  have hskip : e ∈ ((s.store c).deliverConsecutivePackets.skipTimedOut
      c.now).pendingPackets.entries ↔ e ∈ s.leftBehind c ∧
        ¬ ∃ first ∈ (s.leftBehind c).head?, TimedOut s.gapTimeout c.now first.2.arrivalTime ∧
          Stretch nextSeq ((s.leftBehind c).map Prod.fst) first.1 e.1 := by
    rw [mem_skipTimedOut, hgap, entries_store]
    rfl
  rw [submitPacket, enforceConstraints, entries_overflowLoop le_rfl, List.mem_filter,
    decide_eq_true_iff, maxBufferSize_skipTimedOut, hmax, ← and_assoc, ← hskip]
  refine and_congr_right fun he => ?_
  rw [fromStretch_skipTimedOut he, entries_store]
  rfl

theorem gapTimeout_submitPacket (s : PacketOrderer) (c : Submission) :
    (s.submitPacket c).gapTimeout = s.gapTimeout := by
  have hskip : ((s.store c).deliverConsecutivePackets.skipTimedOut c.now).gapTimeout =
      s.gapTimeout := by
    unfold skipTimedOut
    split
    · exact (deliverConsecutivePackets_bounds _).2
    · split
      · exact (deliverConsecutivePackets_bounds _).2.trans (deliverConsecutivePackets_bounds _).2
      · exact (deliverConsecutivePackets_bounds _).2
  refine (s.submitPacket_terminates c).overflow.keeps
    (P := fun t => t.gapTimeout = s.gapTimeout) (fun t t' ht hround => ?_) hskip
  obtain ⟨k, p, -, rfl⟩ := overflowRound_some hround
  exact (deliverConsecutivePackets_bounds _).2.trans ht

/-! ### The gap timeout -/

theorem punctual_submitPacket_iff (s : PacketOrderer) (c : Submission) :
    (s.submitPacket c).Punctual c ↔ s.Attends c := by
  have hlate : ∀ e : Seq × PacketInfo,
      e.2.arrivalTime < c.now - (s.submitPacket c).gapTimeout * 1000000 ↔ s.Overdue c e.2 := by
    intro e
    rw [gapTimeout_submitPacket, Overdue]
    omega
  simp only [Punctual, Attends, mem_submitPacket, hlate]
  refine forall_congr' fun e => ⟨fun h he hold => ?_, fun h ⟨he, hfirst, hroom⟩ hold => ?_⟩
  · by_contra hstays
    rw [not_or] at hstays
    exact h ⟨he, hstays.1, not_lt.mp hstays.2⟩ hold
  · obtain hgoes | hover := h he hold
    · exact hfirst hgoes
    · exact absurd hroom (not_le.mpr hover)

/-- In every run the packets pending after a call are all in time exactly when each call so far
met `Attends`. -/
theorem punctual_iff_attends (hasCallback : Bool) (maxBufferSize : Nat) (gapTimeout : Int)
    (cs : List Submission) :
    machine.Every (fun _ c t => t.Punctual c) (created hasCallback maxBufferSize gapTimeout) cs ↔
      machine.Every (fun s c _ => s.Attends c) (created hasCallback maxBufferSize gapTimeout)
        cs := by
  refine machine.every_iff_every (I := fun _ => True) (fun s c t _ hstep hC => ?_)
    (fun s c t _ hstep hP => ?_) trivial
  · cases hstep
    exact ⟨trivial, (punctual_submitPacket_iff s c).mpr hC⟩
  · cases hstep
    exact (punctual_submitPacket_iff s c).mp hP

def olderBehind : List Submission := [packetAt 5 0, packetAt 3 50, packetAt 10 120]

theorem olderBehind_not_punctual :
    ¬ ∀ (hasCallback : Bool) (maxBufferSize : Nat) (gapTimeout : Int) (cs : List Submission),
      (cs.map Submission.seq).Nodup →
      (cs.flatMap fun c => [c.arrivalTime, c.now]).Pairwise (· ≤ ·) →
      machine.Every (fun _ c t => t.Punctual c)
        (created hasCallback maxBufferSize gapTimeout) cs := by
  intro h
  have hall := h true 64 100 olderBehind (by decide) (by decide)
  have hrun : machine.run (created true 64 100) [packetAt 5 0, packetAt 3 50] = some _ := rfl
  have hlast : Punctual _ (packetAt 10 120) := machine.every_at hrun rfl hall
  exact absurd hlast (by decide)

end PacketOrderer

end Lmnet.Windows
