import Lmnet.Posix.PortUtils

set_option autoImplicit false

namespace Lmnet.Posix

namespace Allocation

def ports (r : Allocation) : List Nat :=
  if r.port = 0 then [] else if r.pair then [r.port.toNat, r.port.toNat + 1] else [r.port.toNat]

def bound (r : Allocation) : List Nat := r.scans.filterMap fun x => x.bound.map UInt16.toNat

end Allocation

namespace PortUtils

/-- What the calls have returned so far. -/
structure Allocates (s : PortUtils) : Prop where
  increasing : ((s.returned.filter fun r => !r.pair && r.port != 0).map Allocation.port).Pairwise
    (· < ·)
  pairs : ∀ r ∈ s.returned, r.pair = true → r.port ≠ 0 →
    r.port.toNat ∈ r.bound ∧ r.port.toNat + 1 ∈ r.bound
  disjoint : s.returned.Pairwise fun r r' => r.ports.Disjoint r'.ports
  unchanged : ∀ r ∈ s.returned, r.port = 0 → r.scans.length = 1 → r.after = r.before

end PortUtils

structure Allocation.Sound (r : Allocation) : Prop where
  span : r.before.toNat ≤ r.after.toNat
  ports : ∀ p ∈ r.ports, r.before.toNat ≤ p ∧ p < r.after.toNat ∧ p ∈ r.bound
  unchanged : r.port = 0 → r.scans.length = 1 → r.after = r.before

namespace PortUtils

def Knows (s : PortUtils) : Caller → Prop
  | .getIdleUdpPort | .firstOfPair => s.scans = [] ∧ s.before = s.nextPort
  | .secondOfPair firstPort => firstPort ≠ 0 ∧ firstPort.toNat + 1 = s.nextPort.toNat ∧
      s.before.toNat ≤ firstPort.toNat ∧
      firstPort.toNat ∈ s.scans.filterMap fun x => x.bound.map UInt16.toNat

def callStart (s : PortUtils) : Nat :=
  if s.scan = none then s.nextPort.toNat else s.before.toNat

structure Tracked (s : PortUtils) : Prop where
  sound : ∀ r ∈ s.returned, r.Sound
  ordered : s.returned.Pairwise fun r r' => r.after.toNat ≤ r'.before.toNat
  ended : ∀ r ∈ s.returned, r.after.toNat ≤ s.callStart
  knows : ∀ sc ∈ s.scan, s.Knows sc.caller

theorem tracked_started : started.Tracked := by
  refine ⟨?_, ?_, ?_, ?_⟩ <;> simp [started]

theorem Tracked.returns {s : PortUtils} (h : s.Tracked) (hcall : s.scan ≠ none) {pair : Bool}
    {port : UInt16} {scans : List Scanned} {nextPort : UInt16}
    (hr : Allocation.Sound ⟨pair, port, scans, s.before, nextPort⟩) :
    (PortUtils.returns { s with scans := scans, nextPort := nextPort } pair port).Tracked := by
  have hended : ∀ r ∈ s.returned, r.after.toNat ≤ s.before.toNat := fun r hr => by
    have hle := h.ended r hr
    rwa [callStart, if_neg hcall] at hle
  refine ⟨fun r hr' => ?_, ?_, fun r hr' => ?_, nofun⟩
  · rcases List.mem_append.mp hr' with hr' | hr'
    · exact h.sound r hr'
    · obtain rfl := List.mem_singleton.mp hr'
      exact hr
  · refine List.pairwise_append.mpr ⟨h.ordered, List.pairwise_singleton _ _, fun r hr r' hr' => ?_⟩
    obtain rfl := List.mem_singleton.mp hr'
    exact hended r hr
  · show r.after.toNat ≤ nextPort.toNat
    rcases List.mem_append.mp hr' with hr' | hr'
    · exact Nat.le_trans (hended r hr') hr.span
    · obtain rfl := List.mem_singleton.mp hr'
      exact Nat.le_refl _

theorem Tracked.startScan {s : PortUtils} (h : s.Tracked) (hcall : s.scan ≠ none)
    {caller : Caller} {scans : List Scanned} {nextPort : UInt16}
    (hknows : Knows { s with scans := scans, nextPort := nextPort } caller) :
    (PortUtils.startScan { s with scans := scans, nextPort := nextPort } caller).Tracked := by
  refine ⟨h.sound, h.ordered, fun r hr => ?_, fun sc hsc => ?_⟩
  · have hle := h.ended r hr
    rwa [callStart, if_neg hcall] at hle
  · cases hsc
    exact hknows

theorem Tracked.found {s : PortUtils} {sc : Scan} (h : s.Tracked) (hsc : s.scan = some sc)
    (hle : s.nextPort.toNat ≤ sc.i.toNat) (hpos : sc.i ≠ 0) (hlast : sc.i ≠ 65535)
    (binds : Nat) :
    ({ s with nextPort := sc.i + 1 }.unlockedReturns sc.caller
      ⟨sc.i, binds, some sc.i⟩).Tracked := by
  have hcall : s.scan ≠ none := by simp [hsc]
  have hnext := toNat_add_one hlast
  have hknows := h.knows sc hsc
  rw [unlockedReturns]
  cases hcaller : sc.caller with
  | getIdleUdpPort =>
    rw [hcaller] at hknows
    obtain ⟨hscans, hbefore⟩ := hknows
    refine h.returns hcall ⟨?_, fun p hp => ?_, fun hzero => absurd hzero hpos⟩
    · show s.before.toNat ≤ (sc.i + 1).toNat
      rw [hbefore]
      omega
    · have hp' : p = sc.i.toNat := by simpa [Allocation.ports, hpos] using hp
      subst hp'
      refine ⟨?_, ?_, by simp [Allocation.bound]⟩
      · rw [hbefore]
        exact hle
      · rw [hnext]
        exact Nat.lt_succ_self _
  | firstOfPair =>
    rw [hcaller] at hknows
    obtain ⟨hscans, hbefore⟩ := hknows
    simp only [goOn, hpos, if_false]
    refine h.startScan hcall ⟨hpos, hnext.symm, ?_, by simp⟩
    rw [hbefore]
    exact hle
  | secondOfPair firstPort =>
    rw [hcaller] at hknows
    obtain ⟨hfirst, hcursor, hbefore, hbound⟩ := hknows
    simp only [goOn, hpos, if_false]
    split
    · rename_i hpair
      have hcursor' : s.nextPort.toNat = sc.i.toNat := hcursor.symm.trans hpair
      have hspan : s.before.toNat ≤ sc.i.toNat := by omega
      have hfirstLt : firstPort.toNat < (sc.i + 1).toNat := by omega
      refine h.returns hcall ⟨?_, fun p hp => ?_, fun hzero => absurd hzero hfirst⟩
      · show s.before.toNat ≤ (sc.i + 1).toNat
        omega
      · have hp' : p = firstPort.toNat ∨ p = sc.i.toNat := by
          simpa [Allocation.ports, hfirst, hpair] using hp
        rw [Allocation.bound, List.filterMap_append, List.mem_append]
        rcases hp' with rfl | rfl
        · exact ⟨hbefore, hfirstLt, .inl hbound⟩
        · refine ⟨hspan, ?_, .inr (by simp)⟩
          rw [hnext]
          exact Nat.lt_succ_self _
    · refine h.startScan hcall ⟨hpos, hnext.symm, ?_, by simp⟩
      show s.before.toNat ≤ sc.i.toNat
      omega

theorem Tracked.failed {s : PortUtils} {sc : Scan} (h : s.Tracked) (hsc : s.scan = some sc)
    (binds : Nat) : (s.unlockedReturns sc.caller ⟨0, binds, none⟩).Tracked := by
  have hcall : s.scan ≠ none := by simp [hsc]
  have hknows := h.knows sc hsc
  have hnone : ∀ p : Nat, p ∉ ([] : List Nat) := fun _ => List.not_mem_nil
  rw [unlockedReturns]
  cases hcaller : sc.caller with
  | getIdleUdpPort =>
    rw [hcaller] at hknows
    obtain ⟨-, hbefore⟩ := hknows
    exact h.returns hcall ⟨Nat.le_of_eq (by rw [hbefore]), fun p hp => absurd hp (hnone p),
      fun _ _ => hbefore.symm⟩
  | firstOfPair =>
    rw [hcaller] at hknows
    obtain ⟨-, hbefore⟩ := hknows
    exact h.returns hcall ⟨Nat.le_of_eq (by rw [hbefore]), fun p hp => absurd hp (hnone p),
      fun _ _ => hbefore.symm⟩
  | secondOfPair firstPort =>
    rw [hcaller] at hknows
    obtain ⟨-, hcursor, hbefore, hbound⟩ := hknows
    refine h.returns hcall ⟨?_, fun p hp => absurd hp (hnone p), fun _ hlength => ?_⟩
    · show s.before.toNat ≤ s.nextPort.toNat
      omega
    · -- the first port was found by an earlier search
      have hempty : s.scans = [] := by simpa using hlength
      rw [hempty] at hbound
      cases hbound

theorem Tracked.round {s : PortUtils} {sc : Scan} (h : s.Tracked) (hrange : s.InRange)
    (hsc : s.scan = some sc) (hcursor : s.nextPort.toNat ≤ 65435) (a : Attempt) :
    (s.round sc a).Tracked ∧ s.nextPort.toNat ≤ (s.round sc a).nextPort.toNat := by
  obtain ⟨hbinds, hi⟩ := hrange.scan sc hsc
  have hstart := hrange.cursor
  have hten : udpPortStart.toNat = 10000 := rfl
  have hlast : sc.i ≠ 65535 := fun hi' => by
    have hval : sc.i.toNat = 65535 := congrArg UInt16.toNat hi'
    omega
  have hpos : sc.i ≠ 0 := fun hi' => by
    have hval : sc.i.toNat = 0 := congrArg UInt16.toNat hi'
    omega
  have hnext := toNat_add_one hlast
  cases a with
  | noSocket =>
    refine ⟨h.failed hsc _, ?_⟩
    simp [PortUtils.round, unlockedReturns]
  | busy =>
    simp only [PortUtils.round]
    split
    · refine ⟨⟨h.sound, h.ordered, fun r hr => ?_, fun sc' hsc' => ?_⟩, Nat.le_refl _⟩
      · have hle := h.ended r hr
        rwa [callStart, if_neg (by simp [hsc])] at hle
      · cases hsc'
        exact h.knows sc hsc
    · rw [afterLoop, if_pos (by simp only; omega)]
      refine ⟨h.failed hsc _, ?_⟩
      simp [unlockedReturns]
  | bound =>
    rw [round_bound (by omega)]
    refine ⟨h.found hsc (by omega) hpos hlast _, ?_⟩
    simp only [unlockedReturns, goOn_nextPort]
    omega

theorem Tracked.startCall {s : PortUtils} (h : s.Tracked) (hidle : s.scan = none)
    {caller : Caller} (hcaller : caller = .getIdleUdpPort ∨ caller = .firstOfPair) :
    (s.startCall caller).Tracked := by
  refine ⟨h.sound, h.ordered, fun r hr => ?_, fun sc hsc => ?_⟩
  · have hle := h.ended r hr
    rwa [callStart, if_pos hidle] at hle
  · cases hsc
    rcases hcaller with rfl | rfl <;> exact ⟨rfl, rfl⟩

theorem Tracked.step {s t : PortUtils} {act : PortAct} (h : s.Tracked) (hrange : s.InRange)
    (hcursor : s.nextPort.toNat ≤ 65435) (hs : s.step act = some t) :
    t.Tracked ∧ s.nextPort.toNat ≤ t.nextPort.toNat := by
  cases act with
  | getIdleUdpPort =>
    simp only [PortUtils.step] at hs
    split at hs
    · rename_i hidle
      cases hs
      exact ⟨h.startCall hidle (.inl rfl), Nat.le_refl _⟩
    · cases hs
  | getIdleUdpPortPair =>
    simp only [PortUtils.step] at hs
    split at hs
    · rename_i hidle
      cases hs
      exact ⟨h.startCall hidle (.inr rfl), Nat.le_refl _⟩
    · cases hs
  | attempt a =>
    obtain ⟨sc, hsc, rfl⟩ := Option.map_eq_some_iff.mp hs
    exact h.round hrange hsc hcursor a

/-- A cursor far enough from the end keeps the loop away from the last port. -/
theorem InRange.bindsBelowLast_of_le {s : PortUtils} (h : s.InRange)
    (hcursor : s.nextPort.toNat ≤ 65435) (act : PortAct) : s.BindsBelowLast act := by
  intro sc hsc _ hi
  obtain ⟨hbinds, hindex⟩ := h.scan sc hsc
  have hval : sc.i.toNat = 65535 := congrArg UInt16.toNat hi
  omega

theorem Tracked.allocates {s : PortUtils} (h : s.Tracked) : s.Allocates := by
  have hmem : ∀ r : Allocation, r.port ≠ 0 → r.port.toNat ∈ r.ports := fun r hr => by
    by_cases hpair : r.pair = true <;> simp [Allocation.ports, hr, hpair]
  -- a port of an earlier call is below all ports of a later one
  have hbelow : s.returned.Pairwise fun r r' => ∀ p ∈ r.ports, ∀ p' ∈ r'.ports, p < p' := by
    refine h.ordered.imp_of_mem fun {r r'} hr hr' hle p hp p' hp' => ?_
    have hlt := ((h.sound r hr).ports p hp).2.1
    have hge := ((h.sound r' hr').ports p' hp').1
    omega
  refine ⟨?_, fun r hr hpair hport => ?_, ?_, fun r hr => (h.sound r hr).unchanged⟩
  · refine List.pairwise_map.mpr ((hbelow.filter _).imp_of_mem fun {r r'} hr hr' hlt => ?_)
    have hport : r.pair = false ∧ r.port ≠ 0 := by simpa using (List.mem_filter.mp hr).2
    have hport' : r'.pair = false ∧ r'.port ≠ 0 := by simpa using (List.mem_filter.mp hr').2
    exact UInt16.lt_iff_toNat_lt.mpr (hlt _ (hmem r hport.2) _ (hmem r' hport'.2))
  · refine ⟨((h.sound r hr).ports _ (hmem r hport)).2.2, ((h.sound r hr).ports _ ?_).2.2⟩
    simp [Allocation.ports, hport, hpair]
  · exact hbelow.imp fun hlt p hp hp' => Nat.lt_irrefl p (hlt p hp p hp')

/-- Along every sequence of calls, each of whose steps finds the cursor at most 100 below the
end of the port numbers. -/
theorem allocates_of_cursor_le {as : List PortAct} {s : PortUtils}
    (hcursor : machine.Every (fun s _ _ => s.nextPort.toNat ≤ 65435) started as)
    (hrun : machine.run started as = some s) :
    s.Allocates ∧ machine.Every (fun s _ t => s.nextPort ≤ t.nextPort) started as := by
  have hkeep : ∀ s act t, s.InRange ∧ s.Tracked → machine.step s act = some t →
      s.nextPort.toNat ≤ 65435 → (t.InRange ∧ t.Tracked) ∧ s.nextPort ≤ t.nextPort := by
    rintro s act t ⟨hrange, htracked⟩ hs hle
    obtain ⟨htracked', hmono⟩ := htracked.step hrange hle hs
    exact ⟨⟨hrange.step hs (hrange.bindsBelowLast_of_le hle act), htracked'⟩,
      UInt16.le_iff_toNat_le.mpr hmono⟩
  have hstart : started.InRange ∧ started.Tracked := ⟨inRange_started, tracked_started⟩
  have hlast := machine.run_invariant_of_every (fun s act t h hs hle => (hkeep s act t h hs hle).1)
    hstart hcursor hrun
  exact ⟨hlast.2.allocates, machine.every_of_every hkeep hstart hcursor⟩

def mixedCalls : List PortAct :=
  [.getIdleUdpPort, .attempt .bound,
    .getIdleUdpPortPair, .attempt .bound, .attempt .busy, .attempt .bound, .attempt .bound,
    .getIdleUdpPort, .attempt .noSocket]

theorem allocates_of_cursor_le_mixedCalls :
    ∃ s, machine.run started mixedCalls = some s ∧ s.Allocates ∧
      s.returned.map Allocation.ports = [[10000], [10003, 10004], []] :=
  ⟨_, rfl, (allocates_of_cursor_le
    (machine.every_of_check (C := fun s _ => s.nextPort.toNat ≤ 65435) (by decide))
    (rfl : machine.run started mixedCalls = some _)).1, by decide⟩

end PortUtils

end Lmnet.Posix
