import Mathlib.Algebra.GroupWithZero.Nat
import Mathlib.Order.Fin.Basic
import Lmnet.Common
import Lmnet.Lib.Machine
import Lmnet.Lib.SortedMap

/-! `PacketOrderer` (packet_orderer.h): one call of `SubmitPacket` is one step. -/

set_option autoImplicit false

namespace Lmnet.Windows

/-- Sequence numbers, a `uint64_t` that wraps. -/
abbrev Seq := Fin (2 ^ 64)

instance seqNeZero : NeZero (2 ^ 64) := ⟨by decide⟩

structure SockaddrIn where
  ip : UInt32
  port : UInt16
  deriving DecidableEq, Repr

/-- The count of a `std::chrono` duration, an `int64_t` that wraps. -/
def toInt64 (x : Int) : Int := x.bmod (2 ^ 64)

structure PacketInfo where
  buffer : DataBuffer
  addr : SockaddrIn
  arrivalTime : Int
  deriving DecidableEq, Repr

/-- One `SubmitPacket` call and the two times it reads from the clock: when it
stores the packet, and in `EnforceConstraints`. -/
structure Submission where
  seq : Seq
  buffer : DataBuffer
  addr : SockaddrIn
  arrivalTime : Int
  now : Int
  deriving DecidableEq, Repr

/-- `gapTimeout` is in milliseconds. `delivered` is what the callback got, under its number,
and `expected` every value that `nextExpectedSeq_` has had. -/
structure PacketOrderer where
  hasCallback : Bool
  maxBufferSize : Nat
  gapTimeout : Int
  pendingPackets : SortedMap Seq PacketInfo
  nextExpectedSeq : Seq
  delivered : List (Seq × PacketInfo)
  expected : List Seq

namespace PacketOrderer

def created (hasCallback : Bool) (maxBufferSize : Nat) (gapTimeout : Int) : PacketOrderer where
  hasCallback := hasCallback
  maxBufferSize := maxBufferSize
  gapTimeout := gapTimeout
  pendingPackets := .empty
  nextExpectedSeq := 0
  delivered := []
  expected := [0]

def setExpected (s : PacketOrderer) (n : Seq) : PacketOrderer :=
  { s with nextExpectedSeq := n, expected := s.expected ++ [n] }

/-- The body of the loop of `DeliverConsecutivePackets`, `p` being what `find`
returned. -/
def deliverNext (s : PacketOrderer) (p : PacketInfo) : PacketOrderer :=
  { s with
    delivered := if s.hasCallback then s.delivered ++ [(s.nextExpectedSeq, p)] else s.delivered
    pendingPackets := s.pendingPackets.erase s.nextExpectedSeq
    nextExpectedSeq := s.nextExpectedSeq + 1
    expected := s.expected ++ [s.nextExpectedSeq + 1] }

def deliverLoop : Nat → PacketOrderer → PacketOrderer
  | 0, s => s
  | fuel + 1, s =>
      match s.pendingPackets.find? s.nextExpectedSeq with
      | none => s
      | some p => deliverLoop fuel (s.deliverNext p)

/-- Each round erases a packet, so there are at most as many as packets. -/
def deliverConsecutivePackets (s : PacketOrderer) : PacketOrderer :=
  deliverLoop s.pendingPackets.size s

def overflowLoop : Nat → PacketOrderer → PacketOrderer
  | 0, s => s
  | fuel + 1, s =>
      if s.pendingPackets.size > s.maxBufferSize then
        match s.pendingPackets.min? with
        | none => s
        | some (k, _) => overflowLoop fuel (s.setExpected k).deliverConsecutivePackets
      else s

/-- `age > gapTimeout_`; the comparison converts `gapTimeout_` to nanoseconds. -/
def TimedOut (gapTimeout now arrivalTime : Int) : Prop :=
  toInt64 (now - arrivalTime) > toInt64 (gapTimeout * 1000000)

instance (gapTimeout now arrivalTime : Int) : Decidable (TimedOut gapTimeout now arrivalTime) :=
  inferInstanceAs (Decidable (_ > _))

def skipTimedOut (s : PacketOrderer) (now : Int) : PacketOrderer :=
  match s.pendingPackets.min? with
  | none => s
  | some (k, p) =>
      if TimedOut s.gapTimeout now p.arrivalTime then
        (s.setExpected k).deliverConsecutivePackets
      else s

def enforceConstraints (s : PacketOrderer) (now : Int) : PacketOrderer :=
  overflowLoop (s.skipTimedOut now).pendingPackets.size (s.skipTimedOut now)

def store (s : PacketOrderer) (c : Submission) : PacketOrderer :=
  { s with pendingPackets := s.pendingPackets.insert c.seq ⟨c.buffer, c.addr, c.arrivalTime⟩ }

def submitPacket (s : PacketOrderer) (c : Submission) : PacketOrderer :=
  (s.store c).deliverConsecutivePackets.enforceConstraints c.now

def machine : Machine PacketOrderer Submission where
  init s := ∃ hasCallback maxBufferSize gapTimeout,
    s = created hasCallback maxBufferSize gapTimeout
  step s c := some (s.submitPacket c)

/-- `nextExpectedSeq_` has never decreased and the delivered numbers increase. -/
structure Ordered (s : PacketOrderer) : Prop where
  expected : s.expected.Pairwise (· ≤ ·)
  delivered : (s.delivered.map Prod.fst).Pairwise (· < ·)

/-- What stays of an increasing list of numbers when the run of consecutive ones
that starts at `n` is taken out. -/
def dropRun (n : Seq) : List Seq → List Seq
  | [] => []
  | k :: ks => if k < n then k :: dropRun n ks else if k = n then dropRun (n + 1) ks else k :: ks

/-- The first packet, waiting or just submitted, if it is numbered below the expected one, has
neither timed out nor is one too many when the consecutive packets have gone. -/
def KeepsOrder (s : PacketOrderer) (c : Submission) : Prop :=
  ∀ k p, (s.store c).pendingPackets.min? = some (k, p) → k < s.nextExpectedSeq →
    ¬ TimedOut s.gapTimeout c.now p.arrivalTime ∧
      (dropRun s.nextExpectedSeq (s.store c).pendingPackets.keys).length ≤ s.maxBufferSize

/-! ### Delivery -/

theorem lt_add_one {n : Seq} (h : n ≠ Fin.last _) : n < n + 1 :=
  Fin.lt_add_one_iff.mpr (Fin.lt_last_iff_ne_last.mpr h)

theorem deliverLoop_induct {P : PacketOrderer → Prop}
    (hstep : ∀ s p, s.pendingPackets.find? s.nextExpectedSeq = some p → P s → P (s.deliverNext p))
    (fuel : Nat) {s : PacketOrderer} (hs : P s) : P (deliverLoop fuel s) := by
  induction fuel generalizing s with
  | zero => exact hs
  | succ fuel ih =>
    unfold deliverLoop
    split
    · exact hs
    · rename_i p hp
      exact ih (hstep s p hp hs)

theorem deliverLoop_gap {fuel : Nat} {s : PacketOrderer} (h : s.pendingPackets.size ≤ fuel) :
    (deliverLoop fuel s).nextExpectedSeq ∉ (deliverLoop fuel s).pendingPackets.keys := by
  induction fuel generalizing s with
  | zero =>
    have hnil : s.pendingPackets.entries = [] := List.length_eq_zero_iff.mp (Nat.le_zero.mp h)
    simp [deliverLoop, SortedMap.keys, hnil]
  | succ fuel ih =>
    unfold deliverLoop
    split
    · exact SortedMap.find?_eq_none.mp ‹_›
    · rename_i p hp
      refine ih ?_
      have hlt := SortedMap.size_erase_lt (SortedMap.mem_keys_of_find? hp)
      simp only [deliverNext]
      omega

structure OrderInv (s : PacketOrderer) : Prop extends s.Ordered where
  below : ∀ n ∈ s.expected, n ≤ s.nextExpectedSeq
  passed : ∀ d ∈ s.delivered.map Prod.fst, d < s.nextExpectedSeq
  bounded : Fin.last _ ∉ s.pendingPackets.keys

def NoLate (s : PacketOrderer) : Prop := ∀ k ∈ s.pendingPackets.keys, s.nextExpectedSeq ≤ k

theorem deliverNext_orderInv {s : PacketOrderer} {p : PacketInfo}
    (hp : s.pendingPackets.find? s.nextExpectedSeq = some p) (h : s.OrderInv) :
    (s.deliverNext p).OrderInv := by
  have hmem := SortedMap.mem_keys_of_find? hp
  have hlt : s.nextExpectedSeq < s.nextExpectedSeq + 1 :=
    lt_add_one fun he => h.bounded (he ▸ hmem)
  refine ⟨⟨?_, ?_⟩, fun n hn => ?_, fun d hd => ?_, ?_⟩
  · refine List.pairwise_append.mpr ⟨h.expected, List.pairwise_singleton _ _, fun n hn j hj => ?_⟩
    obtain rfl := List.mem_singleton.mp hj
    exact le_trans (h.below n hn) (le_of_lt hlt)
  · simp only [deliverNext]
    split
    · rw [List.map_append]
      refine List.pairwise_append.mpr
        ⟨h.delivered, List.pairwise_singleton _ _, fun d hd j hj => ?_⟩
      obtain rfl := List.mem_singleton.mp hj
      exact h.passed d hd
    · exact h.delivered
  · rcases List.mem_append.mp hn with hn | hn
    · exact le_trans (h.below n hn) (le_of_lt hlt)
    · exact le_of_eq (List.mem_singleton.mp hn)
  · have hd' : d ∈ s.delivered.map Prod.fst ∨ d = s.nextExpectedSeq := by
      simp only [deliverNext] at hd
      split at hd
      · simpa using hd
      · exact .inl hd
    rcases hd' with hd' | rfl
    · exact lt_trans (h.passed d hd') hlt
    · exact hlt
  · intro hlast
    exact h.bounded (SortedMap.mem_keys_erase.mp hlast).2

theorem deliverConsecutivePackets_orderInv {s : PacketOrderer} (h : s.OrderInv) :
    s.deliverConsecutivePackets.OrderInv :=
  deliverLoop_induct (fun _ _ hp h => deliverNext_orderInv hp h) _ h

theorem deliverNext_noLate {s : PacketOrderer} {p : PacketInfo}
    (h : s.NoLate) : (s.deliverNext p).NoLate := by
  intro k hk
  obtain ⟨hne, hmem⟩ := SortedMap.mem_keys_erase.mp hk
  exact Fin.add_one_le_of_lt (lt_of_le_of_ne (h k hmem) (Ne.symm hne))

theorem deliverConsecutivePackets_noLate {s : PacketOrderer} (h : s.NoLate) :
    s.deliverConsecutivePackets.NoLate :=
  deliverLoop_induct (fun _ _ _ h => deliverNext_noLate h) _ h

theorem setExpected_orderInv {s : PacketOrderer} {k : Seq} (h : s.OrderInv)
    (hk : s.nextExpectedSeq ≤ k) : (s.setExpected k).OrderInv := by
  refine ⟨⟨?_, h.delivered⟩, fun n hn => ?_, fun d hd => ?_, h.bounded⟩
  · refine List.pairwise_append.mpr ⟨h.expected, List.pairwise_singleton _ _, fun n hn j hj => ?_⟩
    obtain rfl := List.mem_singleton.mp hj
    exact le_trans (h.below n hn) hk
  · rcases List.mem_append.mp hn with hn | hn
    · exact le_trans (h.below n hn) hk
    · exact le_of_eq (List.mem_singleton.mp hn)
  · exact lt_of_lt_of_le (h.passed d hd) hk

theorem setExpected_noLate {s : PacketOrderer} {k : Seq} {p : PacketInfo}
    (h : s.pendingPackets.min? = some (k, p)) : (s.setExpected k).NoLate :=
  fun _ hj => SortedMap.le_of_min? h hj

theorem skip_keeps {s : PacketOrderer} {k : Seq} {p : PacketInfo} (h : s.OrderInv)
    (hmin : s.pendingPackets.min? = some (k, p)) (hk : s.nextExpectedSeq ≤ k) :
    (s.setExpected k).deliverConsecutivePackets.OrderInv ∧
      (s.setExpected k).deliverConsecutivePackets.NoLate :=
  ⟨deliverConsecutivePackets_orderInv (setExpected_orderInv h hk),
    deliverConsecutivePackets_noLate (setExpected_noLate hmin)⟩

theorem overflowLoop_orderInv {fuel : Nat} {s : PacketOrderer} (h : s.OrderInv)
    (hlate : s.NoLate ∨ s.pendingPackets.size ≤ s.maxBufferSize) :
    (overflowLoop fuel s).OrderInv := by
  induction fuel generalizing s with
  | zero => exact h
  | succ fuel ih =>
    unfold overflowLoop
    split
    · rename_i hover
      have hno : s.NoLate := hlate.resolve_right (by omega)
      split
      · exact h
      · rename_i k p hmin
        obtain ⟨hinv, hno'⟩ := skip_keeps h hmin (hno k (SortedMap.mem_keys_of_min? hmin))
        exact ih hinv (.inl hno')
    · exact h

theorem skipTimedOut_keeps {s : PacketOrderer} (now : Int) (h : s.OrderInv) (hno : s.NoLate) :
    (s.skipTimedOut now).OrderInv ∧ (s.skipTimedOut now).NoLate := by
  unfold skipTimedOut
  split
  · exact ⟨h, hno⟩
  · rename_i k p hmin
    split
    · exact skip_keeps h hmin (hno k (SortedMap.mem_keys_of_min? hmin))
    · exact ⟨h, hno⟩

/-! ### A late packet -/

theorem dropRun_of_notMem {n : Seq} {ks : List Seq} (hs : ks.Pairwise (· < ·)) (h : n ∉ ks) :
    dropRun n ks = ks := by
  induction ks with
  | nil => rfl
  | cons k ks ih =>
    obtain ⟨hk, hks⟩ := List.pairwise_cons.mp hs
    obtain ⟨hne, hnm⟩ := not_or.mp (mt List.mem_cons.mpr h)
    unfold dropRun
    split
    · rw [ih hks hnm]
    · simp [Ne.symm hne]

theorem dropRun_of_mem {n : Seq} {ks : List Seq} (hs : ks.Pairwise (· < ·)) (h : n ∈ ks)
    (hn : n ≠ Fin.last _) :
    dropRun n ks = dropRun (n + 1) (ks.filter fun k => decide (k ≠ n)) := by
  induction ks with
  | nil => cases h
  | cons k ks ih =>
    obtain ⟨hk, hks⟩ := List.pairwise_cons.mp hs
    by_cases hkn : k = n
    · subst hkn
      have hall : ks.filter (fun j => decide (j ≠ k)) = ks :=
        List.filter_eq_self.mpr fun j hj => by simpa using (hk j hj).ne'
      rw [List.filter_cons_of_neg (by simp), hall]
      simp [dropRun]
    · have hmem : n ∈ ks := (List.mem_cons.mp h).resolve_left (Ne.symm hkn)
      have hlt : k < n := hk n hmem
      simp [dropRun, hkn, hlt, lt_trans hlt (lt_add_one hn), ih hks hmem]

theorem keys_deliverLoop {fuel : Nat} {s : PacketOrderer} (hf : s.pendingPackets.size ≤ fuel)
    (hb : Fin.last _ ∉ s.pendingPackets.keys) :
    (deliverLoop fuel s).pendingPackets.keys =
      dropRun s.nextExpectedSeq s.pendingPackets.keys := by
  induction fuel generalizing s with
  | zero =>
    have hnil : s.pendingPackets.entries = [] := List.length_eq_zero_iff.mp (Nat.le_zero.mp hf)
    simp [deliverLoop, SortedMap.keys, hnil, dropRun]
  | succ fuel ih =>
    unfold deliverLoop
    split
    · rename_i hnone
      exact (dropRun_of_notMem s.pendingPackets.sorted_keys (SortedMap.find?_eq_none.mp hnone)).symm
    · rename_i p hp
      have hmem := SortedMap.mem_keys_of_find? hp
      have hne : s.nextExpectedSeq ≠ Fin.last _ := fun he => hb (he ▸ hmem)
      have hlt := SortedMap.size_erase_lt hmem
      rw [ih (by simp only [deliverNext]; omega)
        (fun hl => hb (SortedMap.mem_keys_erase.mp hl).2),
        dropRun_of_mem s.pendingPackets.sorted_keys hmem hne, ← SortedMap.keys_erase]
      rfl

theorem keys_deliverConsecutivePackets {s : PacketOrderer}
    (hb : Fin.last _ ∉ s.pendingPackets.keys) :
    s.deliverConsecutivePackets.pendingPackets.keys =
      dropRun s.nextExpectedSeq s.pendingPackets.keys :=
  keys_deliverLoop (Nat.le_refl _) hb

/-- Delivery starts at the expected number and so leaves a late packet, with its
place at the front. -/
theorem min?_deliverConsecutivePackets {s : PacketOrderer} {k : Seq} {p : PacketInfo}
    (hb : Fin.last _ ∉ s.pendingPackets.keys) (hmin : s.pendingPackets.min? = some (k, p))
    (hk : k < s.nextExpectedSeq) :
    s.deliverConsecutivePackets.pendingPackets.min? = some (k, p) ∧
      k < s.deliverConsecutivePackets.nextExpectedSeq := by
  have h := deliverLoop_induct (P := fun s => Fin.last _ ∉ s.pendingPackets.keys ∧
      s.pendingPackets.min? = some (k, p) ∧ k < s.nextExpectedSeq)
    (fun s q hq ⟨hb, hmin, hk⟩ => ?_) s.pendingPackets.size ⟨hb, hmin, hk⟩
  · exact h.2
  · have hmem := SortedMap.mem_keys_of_find? hq
    have hne : s.nextExpectedSeq ≠ Fin.last _ := fun he => hb (he ▸ hmem)
    exact ⟨fun hl => hb (SortedMap.mem_keys_erase.mp hl).2, SortedMap.min?_erase hmin hk.ne,
      lt_trans hk (lt_add_one hne)⟩

theorem deliverConsecutivePackets_bounds (s : PacketOrderer) :
    s.deliverConsecutivePackets.maxBufferSize = s.maxBufferSize ∧
      s.deliverConsecutivePackets.gapTimeout = s.gapTimeout :=
  deliverLoop_induct (P := fun t => t.maxBufferSize = s.maxBufferSize ∧ t.gapTimeout = s.gapTimeout)
    (fun _ _ _ h => h) _ ⟨rfl, rfl⟩

theorem store_bounded {s : PacketOrderer} {c : Submission}
    (h : Fin.last _ ∉ s.pendingPackets.keys) (hc : c.seq ≠ Fin.last _) :
    Fin.last _ ∉ (s.store c).pendingPackets.keys := by
  intro hl
  rcases SortedMap.mem_keys_insert.mp hl with hl | hl
  · exact hc hl.symm
  · exact h hl

theorem store_orderInv {s : PacketOrderer} {c : Submission} (h : s.OrderInv)
    (hc : c.seq ≠ Fin.last _) : (s.store c).OrderInv :=
  ⟨⟨h.expected, h.delivered⟩, h.below, h.passed, store_bounded h.bounded hc⟩

theorem exists_min_of_late {s : PacketOrderer} (h : ¬ s.NoLate) :
    ∃ k p, s.pendingPackets.min? = some (k, p) ∧ k < s.nextExpectedSeq := by
  simp only [NoLate, not_forall, not_le] at h
  obtain ⟨j, hj, hlt⟩ := h
  rcases hmin : s.pendingPackets.min? with _ | ⟨k, p⟩
  · have h0 := SortedMap.min?_eq_none.mp hmin
    rw [SortedMap.size_eq_length_keys, List.length_eq_zero_iff] at h0
    rw [h0] at hj
    cases hj
  · exact ⟨k, p, rfl, lt_of_le_of_lt (SortedMap.le_of_min? hmin hj) hlt⟩

theorem submitPacket_orderInv {s : PacketOrderer} {c : Submission} (h : s.OrderInv)
    (hc : c.seq ≠ Fin.last _) (hC : s.KeepsOrder c) : (s.submitPacket c).OrderInv := by
  have hstore := store_orderInv h hc
  have hdeliver := deliverConsecutivePackets_orderInv hstore
  by_cases hno : (s.store c).NoLate
  · obtain ⟨hinv, hno'⟩ := skipTimedOut_keeps c.now hdeliver
      (deliverConsecutivePackets_noLate hno)
    exact overflowLoop_orderInv hinv (.inl hno')
  · obtain ⟨k, p, hmin, hk⟩ := exists_min_of_late hno
    obtain ⟨hage, hlen⟩ := hC k p hmin hk
    obtain ⟨hmin', -⟩ := min?_deliverConsecutivePackets hstore.bounded hmin hk
    obtain ⟨hmax, hgap⟩ := deliverConsecutivePackets_bounds (s.store c)
    have hskip : (s.store c).deliverConsecutivePackets.skipTimedOut c.now =
        (s.store c).deliverConsecutivePackets := by
      simp only [skipTimedOut, hmin', hgap]
      exact if_neg hage
    unfold submitPacket enforceConstraints
    rw [hskip]
    refine overflowLoop_orderInv hdeliver (.inr ?_)
    rw [SortedMap.size_eq_length_keys, keys_deliverConsecutivePackets hstore.bounded, hmax]
    exact hlen

/-! ### What the record of the counter shows -/

structure Extends (s t : PacketOrderer) : Prop where
  expected : s.expected <+: t.expected
  current : s.nextExpectedSeq ∈ s.expected → t.nextExpectedSeq ∈ t.expected
  pending : t.pendingPackets.keys ⊆ s.pendingPackets.keys

theorem Extends.refl (s : PacketOrderer) : Extends s s := ⟨List.prefix_rfl, id, fun _ => id⟩

theorem Extends.trans {s t u : PacketOrderer} (h : Extends s t) (h' : Extends t u) :
    Extends s u :=
  ⟨h.expected.trans h'.expected, h'.current ∘ h.current, List.Subset.trans h'.pending h.pending⟩

theorem extends_setExpected (s : PacketOrderer) (k : Seq) : Extends s (s.setExpected k) :=
  ⟨List.prefix_append _ _, fun _ => List.mem_append_right _ (List.mem_singleton.mpr rfl),
    fun _ => id⟩

theorem extends_deliverNext (s : PacketOrderer) (p : PacketInfo) : Extends s (s.deliverNext p) :=
  ⟨List.prefix_append _ _, fun _ => List.mem_append_right _ (List.mem_singleton.mpr rfl),
    fun _ hk => (SortedMap.mem_keys_erase.mp hk).2⟩

theorem extends_deliverConsecutivePackets (s : PacketOrderer) :
    Extends s s.deliverConsecutivePackets :=
  deliverLoop_induct (P := Extends s) (fun t p _ h => h.trans (extends_deliverNext t p)) _ (.refl s)

theorem extends_overflowLoop (fuel : Nat) (s : PacketOrderer) :
    Extends s (overflowLoop fuel s) := by
  induction fuel generalizing s with
  | zero => exact .refl s
  | succ fuel ih =>
    unfold overflowLoop
    split
    · split
      · exact .refl s
      · exact ((extends_setExpected s _).trans (extends_deliverConsecutivePackets _)).trans (ih _)
    · exact .refl s

theorem extends_skipTimedOut (s : PacketOrderer) (now : Int) :
    Extends s (s.skipTimedOut now) := by
  unfold skipTimedOut
  split
  · exact .refl s
  · split
    · exact (extends_setExpected s _).trans (extends_deliverConsecutivePackets _)
    · exact .refl s

theorem extends_submitPacket (s : PacketOrderer) (c : Submission) :
    Extends (s.store c) (s.submitPacket c) :=
  ((extends_deliverConsecutivePackets _).trans (extends_skipTimedOut _ c.now)).trans
    (extends_overflowLoop _ _)

/-- A skip backwards shows in the record. -/
theorem not_lt_of_setExpected {s t : PacketOrderer} {k : Seq}
    (hcur : s.nextExpectedSeq ∈ s.expected) (h : Extends (s.setExpected k) t)
    (ht : t.expected.Pairwise (· ≤ ·)) : ¬ k < s.nextExpectedSeq := by
  have hpair : (s.expected ++ [k]).Pairwise (· ≤ ·) := ht.sublist h.expected.sublist
  have hle := (List.pairwise_append.mp hpair).2.2 _ hcur k (List.mem_singleton.mpr rfl)
  exact not_lt.mpr hle

theorem keepsOrder_of_expected {s : PacketOrderer} {c : Submission}
    (hcur : s.nextExpectedSeq ∈ s.expected) (hb : Fin.last _ ∉ (s.store c).pendingPackets.keys)
    (h : (s.submitPacket c).expected.Pairwise (· ≤ ·)) : s.KeepsOrder c := by
  intro k p hmin hk
  obtain ⟨hmin', hk'⟩ := min?_deliverConsecutivePackets hb hmin hk
  obtain ⟨hmax, hgap⟩ := deliverConsecutivePackets_bounds (s.store c)
  have hcur' := (extends_deliverConsecutivePackets (s.store c)).current hcur
  have hage : ¬ TimedOut s.gapTimeout c.now p.arrivalTime := by
    intro hold
    have hskip : (s.store c).deliverConsecutivePackets.skipTimedOut c.now =
        ((s.store c).deliverConsecutivePackets.setExpected k).deliverConsecutivePackets := by
      simp only [skipTimedOut, hmin', hgap]
      exact if_pos hold
    refine not_lt_of_setExpected hcur' ?_ h hk'
    unfold submitPacket enforceConstraints
    rw [hskip]
    exact (extends_deliverConsecutivePackets _).trans (extends_overflowLoop _ _)
  refine ⟨hage, ?_⟩
  by_contra hlen
  have hskip : (s.store c).deliverConsecutivePackets.skipTimedOut c.now =
      (s.store c).deliverConsecutivePackets := by
    simp only [skipTimedOut, hmin', hgap]
    exact if_neg hage
  have hsize : (s.store c).deliverConsecutivePackets.maxBufferSize <
      (s.store c).deliverConsecutivePackets.pendingPackets.size := by
    rw [SortedMap.size_eq_length_keys, keys_deliverConsecutivePackets hb, hmax]
    exact not_le.mp hlen
  refine not_lt_of_setExpected hcur' ?_ h hk'
  unfold submitPacket enforceConstraints
  rw [hskip]
  obtain ⟨n, hn⟩ := Nat.exists_eq_succ_of_ne_zero (Nat.ne_zero_of_lt hsize)
  rw [hn]
  simp only [overflowLoop, hmin', gt_iff_lt, hsize, if_true]
  exact (extends_deliverConsecutivePackets _).trans (extends_overflowLoop _ _)

/-! ### Whole runs -/

theorem orderInv_created (hasCallback : Bool) (maxBufferSize : Nat) (gapTimeout : Int) :
    (created hasCallback maxBufferSize gapTimeout).OrderInv := by
  refine ⟨⟨?_, ?_⟩, ?_, ?_, ?_⟩ <;> simp [created, SortedMap.keys, SortedMap.empty]

structure Recorded (s : PacketOrderer) : Prop where
  current : s.nextExpectedSeq ∈ s.expected
  bounded : Fin.last _ ∉ s.pendingPackets.keys

theorem recorded_created (hasCallback : Bool) (maxBufferSize : Nat) (gapTimeout : Int) :
    (created hasCallback maxBufferSize gapTimeout).Recorded :=
  ⟨by simp [created], by simp [created, SortedMap.keys, SortedMap.empty]⟩

theorem submitPacket_recorded {s : PacketOrderer} {c : Submission} (h : s.Recorded)
    (hc : c.seq ≠ Fin.last _) : (s.submitPacket c).Recorded :=
  have hext := extends_submitPacket s c
  ⟨hext.current h.current, fun hl => store_bounded h.bounded hc (hext.pending hl)⟩

/-- Along every run of submissions that stays short of the last 64-bit number,
the counter never decreases and the delivered numbers increase exactly when
each submission meets `KeepsOrder`. -/
theorem ordered_iff_keepsOrder (hasCallback : Bool) (maxBufferSize : Nat) (gapTimeout : Int)
    {cs : List Submission} {t : PacketOrderer}
    (hrun : machine.run (created hasCallback maxBufferSize gapTimeout) cs = some t)
    (hseq : ∀ c ∈ cs, c.seq ≠ Fin.last _) :
    t.Ordered ↔ machine.Every (fun s c _ => s.KeepsOrder c)
      (created hasCallback maxBufferSize gapTimeout) cs := by
  constructor
  · intro h
    refine (machine.every_of_final (I := Recorded) (Q := fun s => s.expected.Pairwise (· ≤ ·))
      (fun s c s' hc hI hs => ?_) (fun s c s' hc hI hs hQ => ?_) hseq
      (recorded_created hasCallback maxBufferSize gapTimeout) hrun h.expected).2
    · cases hs
      exact submitPacket_recorded hI hc
    · cases hs
      exact ⟨hQ.sublist (extends_submitPacket s c).expected.sublist,
        keepsOrder_of_expected hI.current (store_bounded hI.bounded hc) hQ⟩
  · intro hC
    have hinv := machine.run_invariant_of_every (I := OrderInv)
      (fun s c s' h hs hc => by
        cases hs
        exact submitPacket_orderInv h hc.1 hc.2)
      (orderInv_created hasCallback maxBufferSize gapTimeout) (machine.every_and hseq hC) hrun
    exact hinv.toOrdered

def packetAt (seq : Seq) (now : Int) : Submission :=
  ⟨seq, ⟨0, []⟩, ⟨0, 0⟩, now * 1000000, now * 1000000⟩

def swappedPackets : List Submission :=
  [packetAt 1 0, packetAt 0 10, packetAt 3 20, packetAt 4 150]

theorem ordered_iff_keepsOrder_swappedPackets :
    ∃ t, machine.run (created true 64 100) swappedPackets = some t ∧
      (t.Ordered ↔ machine.Every (fun s c _ => s.KeepsOrder c) (created true 64 100)
        swappedPackets) := by
  have hrun : machine.run (created true 64 100) swappedPackets = some _ := rfl
  exact ⟨_, hrun, ordered_iff_keepsOrder true 64 100 hrun (by decide)⟩

/-- Packet 0 arrives after the gap it left was skipped, and the next packet that
has to wait finds it too old. -/
def latePacket : List Submission :=
  [packetAt 1 0, packetAt 2 150, packetAt 0 160, packetAt 5 300]

theorem latePacket_not_ordered :
    ¬ ∀ (hasCallback : Bool) (maxBufferSize : Nat) (gapTimeout : Int) (cs : List Submission)
      (t : PacketOrderer),
      machine.run (created hasCallback maxBufferSize gapTimeout) cs = some t →
      (cs.map Submission.seq).Nodup →
      (cs.flatMap fun c => [c.arrivalTime, c.now]).Pairwise (· ≤ ·) → t.Ordered := by
  intro h
  have ht := h true 64 100 latePacket _ rfl (by decide) (by decide)
  exact absurd ht.delivered (by decide)

end PacketOrderer

end Lmnet.Windows
