import Mathlib.Algebra.Group.Int.Defs
import Lmnet.Windows.PacketTimeout

set_option autoImplicit false

namespace Lmnet.Windows

def Submission.number (c : Submission) : Nat := c.seq.val

namespace PacketOrderer

/-- All the packets up to number `k` have come. -/
def PrefixComplete (cs : List Submission) (k : Nat) : Prop := ∀ j ≤ k, j ∈ cs.map Submission.number

instance decidablePrefixComplete (cs : List Submission) (k : Nat) :
    Decidable (PrefixComplete cs k) := inferInstanceAs (Decidable (∀ j ≤ k, _))

def waiting (cs : List Submission) : List Submission :=
  cs.filter fun p => ¬ PrefixComplete cs p.number

/-- When a call looks at the clock no packet that is left behind a gap has waited longer than
`gapTimeout`, and there are at most `maxBufferSize` of them. -/
structure InWindow (maxBufferSize : Nat) (gapTimeout : Int) (cs : List Submission) : Prop where
  time : ∀ i (h : i < cs.length), ∀ p ∈ waiting (cs.take (i + 1)),
    cs[i].now - p.arrivalTime ≤ gapTimeout * 1000000
  room : ∀ i < cs.length, (waiting (cs.take (i + 1))).length ≤ maxBufferSize

/-- At the time `now` the first packet left behind a gap has not timed out. -/
def FirstInTime (gapTimeout : Int) (cs : List Submission) (now : Int) : Prop :=
  ∀ p ∈ waiting cs, (∀ q ∈ waiting cs, p.number ≤ q.number) →
    ¬ TimedOut gapTimeout now p.arrivalTime

/-- No call finds that the first packet left behind a gap has timed out. -/
def Timely (gapTimeout : Int) (cs : List Submission) : Prop :=
  ∀ i (h : i < cs.length), FirstInTime gapTimeout (cs.take (i + 1)) cs[i].now

def deliveredNumbers (s : PacketOrderer) : List Nat := s.delivered.map fun e => e.1.val

/-- The callback got the packets of all the calls, numbered from 0 up, and each of them in
the call that completed its prefix. -/
structure Restores (s₀ : PacketOrderer) (cs : List Submission) (t : PacketOrderer) : Prop where
  order : t.deliveredNumbers = List.range cs.length
  data : t.delivered.Perm (cs.map Submission.packet)
  moment : ∀ (i : Nat) (c : Submission) (s s' : PacketOrderer), cs[i]? = some c →
    machine.run s₀ (cs.take i) = some s → machine.step s c = some s' →
    ∀ k, (k ∈ s'.deliveredNumbers ∧ k ∉ s.deliveredNumbers ↔
      PrefixComplete (cs.take (i + 1)) k ∧ ¬ PrefixComplete (cs.take i) k)

structure InSequence (s : PacketOrderer) : Prop where
  hasCallback : s.hasCallback = true
  distinct : (s.packets.map fun e => e.1.val).Nodup
  delivered : s.deliveredNumbers = List.range s.delivered.length
  expected : s.nextExpectedSeq.val = s.delivered.length % 2 ^ 64

theorem deliveredNumbers_deliverNext {s : PacketOrderer} (p : PacketInfo)
    (h : s.hasCallback = true) :
    (s.deliverNext p).deliveredNumbers = s.deliveredNumbers ++ [s.nextExpectedSeq.val] := by
  simp [deliveredNumbers, deliverNext, h]

theorem InSequence.le_of_mem_keys {s : PacketOrderer} (h : s.InSequence) {k : Seq}
    (hk : k ∈ s.pendingPackets.keys) : s.delivered.length ≤ k.val := by
  have hdistinct := h.distinct
  rw [packets, List.map_append, List.nodup_append] at hdistinct
  obtain ⟨e, he, rfl⟩ := List.mem_map.mp hk
  by_contra hlt
  have hdelivered : e.1.val ∈ s.deliveredNumbers := by
    rw [h.delivered]
    exact List.mem_range.mpr (not_le.mp hlt)
  exact hdistinct.2.2 _ hdelivered _ (List.mem_map.mpr ⟨e, he, rfl⟩) rfl

theorem InSequence.deliverNext {s : PacketOrderer} (h : s.InSequence) {p : PacketInfo}
    (hp : s.pendingPackets.find? s.nextExpectedSeq = some p) : (s.deliverNext p).InSequence := by
  have hsame := samePackets_deliverNext hp
  have hlen := h.le_of_mem_keys (SortedMap.mem_keys_of_find? hp)
  have hlt := s.nextExpectedSeq.isLt
  have hexpected : s.nextExpectedSeq.val = s.delivered.length := by
    rw [h.expected, Nat.mod_eq_of_lt (by omega)]
  have hlength : (s.deliverNext p).delivered.length = s.delivered.length + 1 := by
    simp [PacketOrderer.deliverNext, h.hasCallback]
  refine ⟨hsame.hasCallback.trans h.hasCallback, ?_, ?_, ?_⟩
  · exact ((hsame.packets h.hasCallback).map _).nodup_iff.mpr h.distinct
  · rw [deliveredNumbers_deliverNext p h.hasCallback, hlength, List.range_succ, h.delivered,
      hexpected]
  · rw [hlength]
    show (s.nextExpectedSeq + 1).val = _
    rw [Fin.val_add, hexpected]
    rfl

theorem InSequence.deliverConsecutivePackets {s : PacketOrderer} (h : s.InSequence) :
    s.deliverConsecutivePackets.InSequence :=
  s.deliverConsecutivePackets_terminates.keeps (fun _ _ h hround => by
    obtain ⟨p, hp, rfl⟩ := deliverRound_some hround
    exact h.deliverNext hp) h

/-- When the first packet has not timed out and none is too many, a call only delivers the
packets that follow. -/
theorem submitPacket_eq {s : PacketOrderer} {c : Submission}
    (htime : ∀ k p, (s.store c).deliverConsecutivePackets.pendingPackets.min? = some (k, p) →
      ¬ TimedOut s.gapTimeout c.now p.arrivalTime)
    (hroom : (s.store c).deliverConsecutivePackets.pendingPackets.size ≤ s.maxBufferSize) :
    s.submitPacket c = (s.store c).deliverConsecutivePackets := by
  obtain ⟨hmax, hgap⟩ := deliverConsecutivePackets_bounds (s.store c)
  have hskip : (s.store c).deliverConsecutivePackets.skipTimedOut c.now =
      (s.store c).deliverConsecutivePackets := by
    unfold skipTimedOut
    split
    · rfl
    · rename_i k p hmin
      rw [hgap]
      exact if_neg (htime k p hmin)
  rw [submitPacket, enforceConstraints, hskip]
  have hstop : overflowRound (s.store c).deliverConsecutivePackets = none := by
    rw [overflowRound, hmax]
    exact if_neg (not_lt.mpr hroom)
  rw [overflowLoop_eq]
  exact ((WhileLoop.done hstop).unique (.of_measure (fun t => t.pendingPackets.size)
    (fun _ _ => size_overflowRound_lt) le_rfl)).symm

/-- After the calls `cs`: they are the packets delivered and pending, and the first number
that has not been delivered has not come. -/
structure UpTo (s : PacketOrderer) (cs : List Submission) : Prop extends s.InSequence where
  packets : s.packets.Perm (cs.map Submission.packet)
  gap : s.delivered.length ∉ cs.map Submission.number

theorem numbers_packet (cs : List Submission) :
    (cs.map Submission.packet).map (fun e => e.1.val) = cs.map Submission.number := by
  rw [List.map_map]
  rfl

theorem UpTo.mem_delivered {s : PacketOrderer} {cs : List Submission} (h : s.UpTo cs) (k : Nat) :
    k ∈ s.deliveredNumbers ↔ PrefixComplete cs k := by
  rw [h.delivered, List.mem_range]
  constructor
  · intro hk j hj
    rw [← numbers_packet]
    refine (h.packets.map _).mem_iff.mp ?_
    rw [PacketOrderer.packets, List.map_append]
    refine List.mem_append_left _ ?_
    have hmem : j ∈ s.deliveredNumbers := by
      rw [h.delivered]
      exact List.mem_range.mpr (by omega)
    exact hmem
  · intro hcomplete
    by_contra hle
    exact h.gap (hcomplete _ (not_lt.mp hle))

theorem UpTo.mem_waiting {s : PacketOrderer} {cs : List Submission} (h : s.UpTo cs)
    {e : Seq × PacketInfo} (he : e ∈ s.pendingPackets.entries) :
    ∃ p ∈ waiting cs, p.packet = e := by
  obtain ⟨p, hp, rfl⟩ := List.mem_map.mp
    (h.packets.mem_iff.mp (List.mem_append_right s.delivered he))
  have hle := h.le_of_mem_keys (List.mem_map.mpr ⟨_, he, rfl⟩)
  refine ⟨p, List.mem_filter.mpr ⟨hp, decide_eq_true fun hcomplete => ?_⟩, rfl⟩
  exact h.gap (hcomplete _ hle)

theorem UpTo.packet_mem {s : PacketOrderer} {cs : List Submission} (h : s.UpTo cs)
    {p : Submission} (hp : p ∈ waiting cs) : p.packet ∈ s.pendingPackets.entries := by
  obtain ⟨hcs, hgap⟩ := List.mem_filter.mp hp
  refine (List.mem_append.mp (h.packets.mem_iff.mpr (List.mem_map_of_mem hcs))).resolve_left
    fun hdelivered => ?_
  have hnumber : p.number ∈ s.deliveredNumbers := List.mem_map.mpr ⟨_, hdelivered, rfl⟩
  exact of_decide_eq_true hgap ((h.mem_delivered _).mp hnumber)

/-- The pending packet with the least number is the first behind a gap. -/
theorem UpTo.of_min? {s : PacketOrderer} {cs : List Submission} (h : s.UpTo cs)
    {e : Seq × PacketInfo} (he : s.pendingPackets.min? = some e) :
    ∃ p ∈ waiting cs, (∀ q ∈ waiting cs, p.number ≤ q.number) ∧ p.packet = e := by
  obtain ⟨p, hp, rfl⟩ := h.mem_waiting (List.mem_of_head? he)
  exact ⟨p, hp, fun q hq => min?_le he _ (h.packet_mem hq), rfl⟩

theorem UpTo.size_le {s : PacketOrderer} {cs : List Submission} (h : s.UpTo cs) :
    s.pendingPackets.size ≤ (waiting cs).length := by
  have hnodup : s.pendingPackets.entries.Nodup :=
    List.Nodup.of_map _ (s.pendingPackets.sorted.imp ne_of_lt)
  have hsub : s.pendingPackets.entries ⊆ (waiting cs).map Submission.packet := fun e he => by
    obtain ⟨p, hp, rfl⟩ := h.mem_waiting he
    exact List.mem_map_of_mem hp
  have hle := (List.subperm_of_subset hnodup hsub).length_le
  rwa [List.length_map] at hle

theorem upTo_created (maxBufferSize : Nat) (gapTimeout : Int) :
    (created true maxBufferSize gapTimeout).UpTo [] := by
  refine ⟨⟨rfl, ?_, rfl, rfl⟩, .refl _, List.not_mem_nil⟩
  exact List.nodup_nil

theorem UpTo.deliver {s : PacketOrderer} {before : List Submission} {c : Submission}
    (h : s.UpTo before) (hdistinct : ((before ++ [c]).map Submission.number).Nodup) :
    (s.store c).deliverConsecutivePackets.UpTo (before ++ [c]) := by
  have hnew : c.seq ∉ s.pendingPackets.keys := by
    intro hmem
    obtain ⟨e, he, hseq⟩ := List.mem_map.mp hmem
    obtain ⟨p, hp, rfl⟩ := h.mem_waiting he
    rw [List.map_append, List.nodup_append] at hdistinct
    refine hdistinct.2.2 _ (List.mem_map_of_mem (List.mem_filter.mp hp).1) _
      (List.mem_singleton_self _) ?_
    exact congrArg Fin.val hseq
  have hstore : (s.store c).packets.Perm ((before ++ [c]).map Submission.packet) := by
    rw [List.map_append]
    exact (packets_store hnew).trans (h.packets.append_right _)
  have hsequence : (s.store c).InSequence := by
    refine ⟨h.hasCallback, ?_, h.delivered, h.expected⟩
    refine (hstore.map _).nodup_iff.mpr ?_
    rw [numbers_packet]
    exact hdistinct
  have hsequence' := hsequence.deliverConsecutivePackets
  have hpackets := ((samePackets_deliverConsecutivePackets (s.store c)).packets
    h.hasCallback).trans hstore
  refine ⟨hsequence', hpackets, fun hmem => ?_⟩
  -- the number after the delivered ones would be the expected one, and that is not pending
  obtain ⟨p, hp, hnumber⟩ := List.mem_map.mp hmem
  have hlt : p.number < 2 ^ 64 := p.seq.isLt
  have hexpected : p.seq = (s.store c).deliverConsecutivePackets.nextExpectedSeq := by
    refine Fin.ext ?_
    rw [hsequence'.expected, ← hnumber, Nat.mod_eq_of_lt hlt]
    rfl
  rcases List.mem_append.mp (hpackets.mem_iff.mpr (List.mem_map_of_mem hp)) with he | he
  · have hdelivered : p.number ∈ (s.store c).deliverConsecutivePackets.deliveredNumbers :=
      List.mem_map.mpr ⟨_, he, rfl⟩
    rw [hsequence'.delivered, List.mem_range] at hdelivered
    omega
  · refine deliverConsecutivePackets_gap (s.store c) (hexpected ▸ ?_)
    exact List.mem_map.mpr ⟨_, he, rfl⟩

/-- A call within the window, with the first packet behind a gap in time. -/
theorem UpTo.submitPacket {s : PacketOrderer} {before : List Submission} {c : Submission}
    (h : s.UpTo before) (hdistinct : ((before ++ [c]).map Submission.number).Nodup)
    (htime : FirstInTime s.gapTimeout (before ++ [c]) c.now)
    (hroom : (waiting (before ++ [c])).length ≤ s.maxBufferSize) :
    (s.submitPacket c).UpTo (before ++ [c]) ∧ (s.submitPacket c).maxBufferSize = s.maxBufferSize ∧
      (s.submitPacket c).gapTimeout = s.gapTimeout := by
  have hdeliver := h.deliver hdistinct
  rw [submitPacket_eq (fun k p hmin => ?_) (hdeliver.size_le.trans hroom)]
  · exact ⟨hdeliver, deliverConsecutivePackets_bounds (s.store c)⟩
  · obtain ⟨q, hq, hfirst, he⟩ := hdeliver.of_min? hmin
    obtain rfl : q.packet.2 = p := congrArg Prod.snd he
    exact htime q hq hfirst

theorem UpTo.mem_of_timedOut {s : PacketOrderer} {before : List Submission} {c p : Submission}
    (h : s.UpTo before) (hdistinct : ((before ++ [c]).map Submission.number).Nodup)
    (hp : p ∈ waiting (before ++ [c]))
    (hfirst : ∀ q ∈ waiting (before ++ [c]), p.number ≤ q.number)
    (hold : TimedOut s.gapTimeout c.now p.arrivalTime) :
    p.number ∈ (s.submitPacket c).deliveredNumbers := by
  have hdeliver := h.deliver hdistinct
  have hpending := hdeliver.packet_mem hp
  have hhead : (s.leftBehind c).head? = some p.packet := by
    rw [← entries_store]
    cases hmin : (s.store c).deliverConsecutivePackets.pendingPackets.min? with
    | none =>
      have hnil : (s.store c).deliverConsecutivePackets.pendingPackets.entries = [] :=
        List.head?_eq_none_iff.mp hmin
      rw [hnil] at hpending
      cases hpending
    | some e =>
      obtain ⟨q, hq, hqfirst, rfl⟩ := hdeliver.of_min? hmin
      have hnumber : p.number = q.number := le_antisymm (hfirst q hq) (hqfirst p hp)
      obtain rfl : p = q := List.inj_on_of_nodup_map hdistinct (List.mem_filter.mp hp).1
        (List.mem_filter.mp hq).1 hnumber
      exact hmin
  have hgone : p.packet ∉ (s.submitPacket c).pendingPackets.entries := by
    intro hmem
    refine (mem_submitPacket.mp hmem).2.1 ⟨p.packet, hhead, hold, .here ?_⟩
    rw [← entries_store]
    exact List.mem_map_of_mem hpending
  have hcame : p.packet ∈ (s.store c).packets :=
    ((samePackets_deliverConsecutivePackets (s.store c)).packets h.hasCallback).mem_iff.mp
      (List.mem_append_right _ hpending)
  have hstays := ((samePackets_submitPacket s c).packets h.hasCallback).mem_iff.mpr hcame
  exact List.mem_map.mpr ⟨_, (List.mem_append.mp hstays).resolve_right hgone, rfl⟩

theorem upTo_run {maxBufferSize : Nat} {gapTimeout : Int} {cs : List Submission}
    (hwindow : InWindow maxBufferSize gapTimeout cs)
    (hdistinct : (cs.map Submission.number).Nodup) {i : Nat} (hi : i ≤ cs.length)
    (htime : ∀ j (h : j < cs.length), j < i → FirstInTime gapTimeout (cs.take (j + 1)) cs[j].now)
    {s : PacketOrderer}
    (hrun : machine.run (created true maxBufferSize gapTimeout) (cs.take i) = some s) :
    s.UpTo (cs.take i) ∧ s.maxBufferSize = maxBufferSize ∧ s.gapTimeout = gapTimeout := by
  induction i generalizing s with
  | zero =>
    cases hrun
    exact ⟨upTo_created maxBufferSize gapTimeout, rfl, rfl⟩
  | succ i ih =>
    have htake : cs.take (i + 1) = cs.take i ++ [cs[i]] := List.take_succ_eq_append_getElem hi
    have hlast := htime i hi (Nat.lt_succ_self i)
    have hroom := hwindow.room i hi
    have hsub : ((cs.take (i + 1)).map Submission.number).Nodup :=
      hdistinct.sublist ((List.take_sublist _ _).map _)
    rw [htake] at hrun hlast hroom hsub ⊢
    obtain ⟨s', hs', hrest⟩ := machine.run_append.mp hrun
    obtain ⟨s'', hstep, hnil⟩ := machine.run_cons.mp hrest
    cases hstep
    cases hnil
    obtain ⟨h, hmax, hgap⟩ := ih (by omega) (fun j hj hji => htime j hj (by omega)) hs'
    subst hmax hgap
    exact h.submitPacket hsub hlast hroom

theorem restores_of_timely {n maxBufferSize : Nat} {gapTimeout : Int} {cs : List Submission}
    {t : PacketOrderer} (hperm : (cs.map Submission.number).Perm (List.range n))
    (hwindow : InWindow maxBufferSize gapTimeout cs) (htime : Timely gapTimeout cs)
    (hrun : machine.run (created true maxBufferSize gapTimeout) cs = some t) :
    Restores (created true maxBufferSize gapTimeout) cs t := by
  have hdistinct : (cs.map Submission.number).Nodup := hperm.nodup_iff.mpr List.nodup_range
  have hn : cs.length = n := by simpa using hperm.length_eq
  have hrun' := hrun
  rw [← cs.take_length] at hrun'
  obtain ⟨h, -⟩ := upTo_run hwindow hdistinct le_rfl (fun j hj _ => htime j hj) hrun'
  rw [cs.take_length] at h
  have hlen := h.packets.length_eq
  rw [packets, List.length_append, List.length_map] at hlen
  have hall : t.delivered.length = cs.length := by
    have hgap := h.gap
    rw [hperm.mem_iff, List.mem_range] at hgap
    omega
  have hnone : t.pendingPackets.entries = [] := List.eq_nil_of_length_eq_zero (by omega)
  refine ⟨?_, ?_, fun i c s s' hc hs hstep k => ?_⟩
  · rw [h.delivered, hall]
  · have hpackets := h.packets
    rwa [packets, hnone, List.append_nil] at hpackets
  · obtain ⟨hi, rfl⟩ := List.getElem?_eq_some_iff.mp hc
    have hnext : machine.run (created true maxBufferSize gapTimeout) (cs.take (i + 1)) =
        some s' := by
      rw [List.take_succ_eq_append_getElem hi]
      exact machine.run_append.mpr ⟨s, hs, machine.run_cons.mpr ⟨s', hstep, rfl⟩⟩
    obtain ⟨h₁, -⟩ := upTo_run hwindow hdistinct hi.le (fun j hj _ => htime j hj) hs
    obtain ⟨h₂, -⟩ := upTo_run hwindow hdistinct hi (fun j hj _ => htime j hj) hnext
    rw [h₂.mem_delivered, h₁.mem_delivered]

/-- The first call that finds a packet timed out delivers it, and its prefix is not complete. -/
theorem timely_of_restores {n maxBufferSize : Nat} {gapTimeout : Int} {cs : List Submission}
    {t : PacketOrderer} (hperm : (cs.map Submission.number).Perm (List.range n))
    (hwindow : InWindow maxBufferSize gapTimeout cs)
    (hrun : machine.run (created true maxBufferSize gapTimeout) cs = some t)
    (h : Restores (created true maxBufferSize gapTimeout) cs t) : Timely gapTimeout cs := by
  have hdistinct : (cs.map Submission.number).Nodup := hperm.nodup_iff.mpr List.nodup_range
  intro i
  induction i using Nat.strong_induction_on with
  | h i ih =>
    intro hi p hp hfirst hold
    obtain ⟨s, hs, -⟩ := machine.run_append.mp ((cs.take_append_drop i).symm ▸ hrun)
    obtain ⟨hup, -, rfl⟩ := upTo_run hwindow hdistinct hi.le (fun j hj hji => ih j hji hj) hs
    have hmoment := h.moment i cs[i] s _ (List.getElem?_eq_getElem hi) hs rfl p.number
    have hgap := of_decide_eq_true (List.mem_filter.mp hp).2
    have hsub : ((cs.take (i + 1)).map Submission.number).Nodup :=
      hdistinct.sublist ((List.take_sublist _ _).map _)
    have hbefore : p.number ∉ s.deliveredNumbers := fun hmem =>
      hgap fun j hj => ((List.take_sublist_take_left (Nat.le_succ i)).map _).subset
        ((hup.mem_delivered _).mp hmem j hj)
    rw [List.take_succ_eq_append_getElem hi] at hp hfirst hsub
    exact hgap (hmoment.mp ⟨hup.mem_of_timedOut hsub hp hfirst hold, hbefore⟩).1

theorem toInt64_of_small {x : Int} (h₁ : -2 ^ 63 ≤ x) (h₂ : x < 2 ^ 63) : toInt64 x = x :=
  Int.bmod_eq_of_le (by omega) (by omega)

/-- Up to this many milliseconds the conversion of `gapTimeout_` does not wrap. -/
theorem timely_of_gapTimeout_le {maxBufferSize : Nat} {gapTimeout : Int} {cs : List Submission}
    (hwindow : InWindow maxBufferSize gapTimeout cs) (hgap : gapTimeout ≤ 9223372036854)
    (hclock : ∀ i (h : i < cs.length), ∀ p ∈ cs.take (i + 1), p.arrivalTime ≤ cs[i].now) :
    Timely gapTimeout cs := by
  intro i hi p hp _ hold
  have hage := hwindow.time i hi p hp
  have hpast := hclock i hi p (List.mem_filter.mp hp).1
  rw [TimedOut, toInt64_of_small (by omega) (by omega), toInt64_of_small (by omega) (by omega)]
    at hold
  omega

/-- Whatever the order in which the packets 0 to `n - 1` come: within the window they are
delivered from 0 up, each in the call that completes its prefix, exactly when no call finds the
first packet behind a gap timed out, which needs a `gapTimeout_` that the conversion wraps. -/
theorem restores_iff_timely (n : Nat) (maxBufferSize : Nat) (gapTimeout : Int)
    {cs : List Submission} {t : PacketOrderer}
    (hperm : (cs.map Submission.number).Perm (List.range n))
    (hwindow : InWindow maxBufferSize gapTimeout cs)
    (hrun : machine.run (created true maxBufferSize gapTimeout) cs = some t) :
    (Restores (created true maxBufferSize gapTimeout) cs t ↔ Timely gapTimeout cs) ∧
      (gapTimeout ≤ 9223372036854 →
        (∀ i (h : i < cs.length), ∀ p ∈ cs.take (i + 1), p.arrivalTime ≤ cs[i].now) →
          Timely gapTimeout cs) :=
  ⟨⟨timely_of_restores hperm hwindow hrun, fun htime =>
    restores_of_timely hperm hwindow htime hrun⟩, timely_of_gapTimeout_le hwindow⟩

def twoBehindGap : List Submission :=
  [packetAt 2 0, packetAt 1 20, packetAt 0 40, packetAt 4 100, packetAt 5 120, packetAt 3 140]

theorem inWindow_twoBehindGap : InWindow 2 40 twoBehindGap := ⟨by decide, by decide⟩

theorem restores_iff_timely_twoBehindGap :
    ∃ t, machine.run (created true 2 40) twoBehindGap = some t ∧
      Restores (created true 2 40) twoBehindGap t := by
  have hrun : machine.run (created true 2 40) twoBehindGap = some _ := rfl
  have hiff := restores_iff_timely 6 2 40 (by decide) inWindow_twoBehindGap hrun
  exact ⟨_, hrun, hiff.1.mpr (hiff.2 (by decide) (by decide))⟩

/-- The timeout is `milliseconds::max()`: the conversion makes -1 ms of it. -/
theorem longestTimeout_not_restores :
    ¬ ∀ (n maxBufferSize : Nat) (gapTimeout : Int) (cs : List Submission) (t : PacketOrderer),
      (cs.map Submission.number).Perm (List.range n) →
      (cs.flatMap fun c => [c.arrivalTime, c.now]).Pairwise (· ≤ ·) →
      InWindow maxBufferSize gapTimeout cs →
      machine.run (created true maxBufferSize gapTimeout) cs = some t →
      Restores (created true maxBufferSize gapTimeout) cs t := by
  intro h
  have ht := h 2 64 (2 ^ 63 - 1) [packetAt 1 0, packetAt 0 1] _ (by decide) (by decide)
    ⟨by decide, by decide⟩ rfl
  exact absurd ht.order (by decide)

end PacketOrderer

end Lmnet.Windows
