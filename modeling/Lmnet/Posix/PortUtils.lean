import Mathlib.Init
import Mathlib.Data.List.Basic
import Lmnet.Lib.Machine

/-!
`PortUtils` (posix): the search for idle UDP ports. A call holds `g_portMutex` from its start
to its end; a step starts a call, or is one round of the loop of `GetIdleUdpPortUnlocked` with
what `socket` and `bind` make of it.
-/

set_option autoImplicit false

namespace Lmnet.Posix

def udpPortStart : UInt16 := 10000

inductive Attempt where
  | noSocket | busy | bound
  deriving DecidableEq, Repr

/-- Who called `GetIdleUdpPortUnlocked`; `GetIdleUdpPortPair` does so for its first port, and
then with a `firstPort`. -/
inductive Caller where
  | getIdleUdpPort
  | firstOfPair
  | secondOfPair (firstPort : UInt16)
  deriving DecidableEq, Repr

structure Scan where
  caller : Caller
  i : UInt16
  binds : Nat
  deriving DecidableEq, Repr

/-- A call of `GetIdleUdpPortUnlocked` that has returned `port`: how often it called `bind`,
and the port for which that succeeded. -/
structure Scanned where
  port : UInt16
  binds : Nat
  bound : Option UInt16
  deriving DecidableEq, Repr

/-- A call of `GetIdleUdpPort` or `GetIdleUdpPortPair` that has returned `port`: its searches,
and `nextPort_` before and after it. -/
structure Allocation where
  pair : Bool
  port : UInt16
  scans : List Scanned
  before : UInt16
  after : UInt16
  deriving DecidableEq, Repr

/-- `scans` and `before` are about the call that is being made. -/
structure PortUtils where
  nextPort : UInt16
  scan : Option Scan
  scans : List Scanned
  before : UInt16
  returned : List Allocation
  deriving DecidableEq, Repr

inductive PortAct where
  | getIdleUdpPort
  | getIdleUdpPortPair
  | attempt (a : Attempt)
  deriving DecidableEq, Repr

/-- The search made at most 100 calls of `bind`, and found nothing, or a port from
`UDP_PORT_START` on that it could bind. -/
structure Scanned.Good (x : Scanned) : Prop where
  binds : x.binds ≤ 100
  port : x.port = 0 ∨ udpPortStart ≤ x.port ∧ x.bound = some x.port

namespace PortUtils

def started : PortUtils := ⟨udpPortStart, none, [], udpPortStart, []⟩

def startScan (s : PortUtils) (caller : Caller) : PortUtils :=
  { s with scan := some ⟨caller, s.nextPort, 0⟩ }

def startCall (s : PortUtils) (caller : Caller) : PortUtils :=
  { s with scans := [], before := s.nextPort }.startScan caller

def returns (s : PortUtils) (pair : Bool) (port : UInt16) : PortUtils :=
  { s with
    scan := none
    returned := s.returned ++ [⟨pair, port, s.scans, s.before, s.nextPort⟩] }

def goOn (s : PortUtils) (caller : Caller) (port : UInt16) : PortUtils :=
  match caller with
  | .getIdleUdpPort => s.returns false port
  | .firstOfPair => if port = 0 then s.returns true 0 else s.startScan (.secondOfPair port)
  | .secondOfPair firstPort =>
      if port = 0 then s.returns true 0
      -- the sum is an `int`
      else if firstPort.toNat + 1 = port.toNat then s.returns true firstPort
      else s.startScan (.secondOfPair port)

def unlockedReturns (s : PortUtils) (caller : Caller) (scanned : Scanned) : PortUtils :=
  { s with scans := s.scans ++ [scanned] }.goOn caller scanned.port

/-- The statements after the loop; `nextPort + 100` is an `int`, `i + 1` is cut to 16 bits. -/
def afterLoop (s : PortUtils) (sc : Scan) (bound : Option UInt16) : PortUtils :=
  if sc.i.toNat = s.nextPort.toNat + 100 then s.unlockedReturns sc.caller ⟨0, sc.binds, bound⟩
  else { s with nextPort := sc.i + 1 }.unlockedReturns sc.caller ⟨sc.i, sc.binds, bound⟩

def round (s : PortUtils) (sc : Scan) : Attempt → PortUtils
  | .noSocket => s.unlockedReturns sc.caller ⟨0, sc.binds, none⟩
  | .busy =>
      let next : Scan := ⟨sc.caller, sc.i + 1, sc.binds + 1⟩
      if next.i.toNat < s.nextPort.toNat + 100 then { s with scan := some next }
      else s.afterLoop next none
  | .bound => s.afterLoop ⟨sc.caller, sc.i, sc.binds + 1⟩ (some sc.i)

def step (s : PortUtils) : PortAct → Option PortUtils
  | .getIdleUdpPort => if s.scan = none then some (s.startCall .getIdleUdpPort) else none
  | .getIdleUdpPortPair => if s.scan = none then some (s.startCall .firstOfPair) else none
  | .attempt a => s.scan.map fun sc => s.round sc a

def machine : Machine PortUtils PortAct where
  init s := s = started
  step := step

/-- What the searches found is in range, and `nextPort_` is not in the reserved range. -/
structure Ground (s : PortUtils) : Prop where
  cursor : udpPortStart.toNat ≤ s.nextPort.toNat
  scans : ∀ x ∈ s.scans, x.Good
  returned : ∀ r ∈ s.returned, ∀ x ∈ r.scans, x.Good

/-- Also the loop that is under way has at most 100 rounds, and its `i` has not wrapped. -/
structure InRange (s : PortUtils) : Prop extends s.Ground where
  scan : ∀ sc ∈ s.scan, sc.binds < 100 ∧ sc.i.toNat = s.nextPort.toNat + sc.binds

/-- `bind` is not called for the last port of all. -/
def BindsBelowLast (s : PortUtils) (act : PortAct) : Prop :=
  ∀ sc ∈ s.scan, act = .attempt .busy ∨ act = .attempt .bound → sc.i ≠ 65535

/-! ### Ports in range -/

@[simp] theorem goOn_nextPort (s : PortUtils) (caller : Caller) (port : UInt16) :
    (s.goOn caller port).nextPort = s.nextPort := by
  unfold goOn
  split
  · rfl
  · split <;> rfl
  · split
    · rfl
    · split <;> rfl

theorem toNat_add_one {i : UInt16} (h : i ≠ 65535) : (i + 1).toNat = i.toNat + 1 := by
  have hne : i.toNat ≠ 65535 := fun hi => h (UInt16.toNat_inj.mp hi)
  have hlt := i.toNat_lt
  rw [UInt16.toNat_add, UInt16.toNat_one]
  omega

theorem round_bound {s : PortUtils} {sc : Scan} (h : sc.i.toNat ≠ s.nextPort.toNat + 100) :
    s.round sc .bound = { s with nextPort := sc.i + 1 }.unlockedReturns sc.caller
      ⟨sc.i, sc.binds + 1, some sc.i⟩ := if_neg h

theorem Ground.startScan {s : PortUtils} (h : s.Ground) (caller : Caller) :
    (s.startScan caller).InRange := by
  refine ⟨⟨h.cursor, h.scans, h.returned⟩, fun sc hsc => ?_⟩
  cases hsc
  exact ⟨Nat.zero_lt_succ _, rfl⟩

theorem Ground.startCall {s : PortUtils} (h : s.Ground) (caller : Caller) :
    (s.startCall caller).InRange := by
  have hnone : ∀ x ∈ ([] : List Scanned), x.Good := by simp
  exact Ground.startScan (s := { s with scans := [], before := s.nextPort })
    ⟨h.cursor, hnone, h.returned⟩ caller

theorem Ground.returns {s : PortUtils} (h : s.Ground) (pair : Bool) (port : UInt16) :
    (s.returns pair port).InRange := by
  refine ⟨⟨h.cursor, h.scans, fun r hr => ?_⟩, fun sc hsc => nomatch hsc⟩
  rcases List.mem_append.mp hr with hr | hr
  · exact h.returned r hr
  · obtain rfl := List.mem_singleton.mp hr
    exact h.scans

theorem Ground.goOn {s : PortUtils} (h : s.Ground) (caller : Caller) (port : UInt16) :
    (s.goOn caller port).InRange := by
  unfold PortUtils.goOn
  split
  · exact h.returns _ _
  · split
    · exact h.returns _ _
    · exact h.startScan _
  · split
    · exact h.returns _ _
    · split
      · exact h.returns _ _
      · exact h.startScan _

theorem Ground.unlockedReturns {s : PortUtils} (h : s.Ground) (caller : Caller) {x : Scanned}
    (hx : x.Good) : (s.unlockedReturns caller x).InRange := by
  refine Ground.goOn (s := { s with scans := s.scans ++ [x] })
    ⟨h.cursor, fun y hy => ?_, h.returned⟩ caller x.port
  rcases List.mem_append.mp hy with hy | hy
  · exact h.scans y hy
  · obtain rfl := List.mem_singleton.mp hy
    exact hx

theorem InRange.round {s : PortUtils} {sc : Scan} (h : s.InRange) (hsc : s.scan = some sc)
    {a : Attempt} (hlast : s.BindsBelowLast (.attempt a)) : (s.round sc a).InRange := by
  obtain ⟨hbinds, hi⟩ := h.scan sc hsc
  have hcursor := h.cursor
  cases a with
  | noSocket => exact h.toGround.unlockedReturns _ ⟨by simp only; omega, .inl rfl⟩
  | busy =>
    have hnext := toNat_add_one (hlast sc hsc (.inl rfl))
    simp only [PortUtils.round]
    split
    · refine ⟨⟨h.cursor, h.scans, h.returned⟩, fun sc' hsc' => ?_⟩
      cases hsc'
      exact ⟨by simp only; omega, by simp only; omega⟩
    · rw [afterLoop, if_pos (by simp only; omega)]
      exact h.toGround.unlockedReturns _ ⟨by simp only; omega, .inl rfl⟩
  | bound =>
    have hnext := toNat_add_one (hlast sc hsc (.inr rfl))
    rw [round_bound (by omega)]
    have hground : Ground { s with nextPort := sc.i + 1 } :=
      ⟨by simp only; omega, h.scans, h.returned⟩
    have hstart : udpPortStart ≤ sc.i := UInt16.le_iff_toNat_le.mpr (by omega)
    exact hground.unlockedReturns _ ⟨by simp only; omega, .inr ⟨hstart, rfl⟩⟩

/-- A `bind` for the last port takes the loop or the cursor to port 0. -/
theorem InRange.bindsBelowLast {s : PortUtils} {sc : Scan} (h : s.InRange)
    (hsc : s.scan = some sc) {a : Attempt} (hround : (s.round sc a).InRange) :
    s.BindsBelowLast (.attempt a) := by
  intro sc' hsc' ha hi
  obtain rfl : sc = sc' := Option.some.inj (hsc.symm.trans hsc')
  obtain ⟨hbinds, hindex⟩ := h.scan sc hsc
  have htop : sc.i.toNat = 65535 := by rw [hi]; rfl
  have hzero : sc.i + 1 = 0 := by rw [hi]; rfl
  have hcursor := h.cursor
  have hstart : udpPortStart.toNat = 10000 := rfl
  rcases ha with ha | ha <;> cases ha
  · simp only [PortUtils.round, hzero, UInt16.toNat_zero] at hround
    rw [if_pos (by omega)] at hround
    have hwrapped := (hround.scan _ rfl).2
    simp only [UInt16.toNat_zero] at hwrapped
    omega
  · rw [round_bound (by omega)] at hround
    have hwrapped := hround.cursor
    simp only [unlockedReturns, goOn_nextPort, hzero, UInt16.toNat_zero] at hwrapped
    omega

theorem inRange_started : started.InRange :=
  ⟨⟨Nat.le_refl _, by simp [started], by simp [started]⟩, by simp [started]⟩

theorem InRange.step {s t : PortUtils} {act : PortAct} (h : s.InRange) (hs : s.step act = some t)
    (hlast : s.BindsBelowLast act) : t.InRange := by
  cases act with
  | getIdleUdpPort =>
    simp only [PortUtils.step] at hs
    split at hs
    · cases hs
      exact h.toGround.startCall _
    · cases hs
  | getIdleUdpPortPair =>
    simp only [PortUtils.step] at hs
    split at hs
    · cases hs
      exact h.toGround.startCall _
    · cases hs
  | attempt a =>
    obtain ⟨sc, hsc, rfl⟩ := Option.map_eq_some_iff.mp hs
    exact h.round hsc hlast

theorem InRange.step_back {s t : PortUtils} {act : PortAct} (h : s.InRange)
    (hs : s.step act = some t) (ht : t.InRange) : s.BindsBelowLast act := by
  cases act with
  | getIdleUdpPort => exact fun _ _ hact => by simp at hact
  | getIdleUdpPortPair => exact fun _ _ hact => by simp at hact
  | attempt a =>
    obtain ⟨sc, hsc, rfl⟩ := Option.map_eq_some_iff.mp hs
    exact h.bindsBelowLast hsc ht

/-- Along every sequence of calls: each search ends after at most 100 rounds without wrapping,
and finds nothing or a port in range that it could bind, exactly as long as no round gets to
`bind` the last port. -/
theorem inRange_iff_bindsBelowLast (as : List PortAct) :
    machine.Every (fun _ _ t => t.InRange) started as ↔
      machine.Every (fun s act _ => s.BindsBelowLast act) started as :=
  machine.every_iff_every (fun _ _ _ h hs hC => ⟨h.step hs hC, h.step hs hC⟩)
    (fun _ _ _ h hs hP => h.step_back hs hP) inRange_started

def boundCalls (n : Nat) : List PortAct :=
  (List.replicate n [.getIdleUdpPort, .attempt .bound]).flatten

theorem run_boundCall {s : PortUtils} (hscan : s.scan = none) :
    ∃ t, machine.run s [.getIdleUdpPort, .attempt .bound] = some t ∧ t.scan = none ∧
      t.nextPort = s.nextPort + 1 := by
  have hstart : machine.step s .getIdleUdpPort = some (s.startCall .getIdleUdpPort) :=
    if_pos hscan
  have hne : s.nextPort.toNat ≠ s.nextPort.toNat + 100 := by omega
  have hround : (s.startCall .getIdleUdpPort).round ⟨.getIdleUdpPort, s.nextPort, 0⟩ .bound = _ :=
    round_bound hne
  exact ⟨_, machine.run_cons.mpr ⟨_, hstart, machine.run_cons.mpr ⟨_, congrArg some hround, rfl⟩⟩,
    rfl, rfl⟩

theorem run_boundCalls {n : Nat} (hn : n ≤ 55535) :
    ∃ s, machine.run started (boundCalls n) = some s ∧ s.scan = none ∧
      s.nextPort.toNat = 10000 + n := by
  induction n with
  | zero => exact ⟨started, rfl, rfl, rfl⟩
  | succ n ih =>
    obtain ⟨s, hrun, hscan, hport⟩ := ih (by omega)
    obtain ⟨t, hcall, hscan', hport'⟩ := run_boundCall hscan
    have hlast : s.nextPort ≠ 65535 := fun h => by
      have hval : s.nextPort.toNat = 65535 := congrArg UInt16.toNat h
      omega
    refine ⟨t, ?_, hscan', ?_⟩
    · rw [boundCalls, List.replicate_succ', List.flatten_append]
      exact machine.run_append.mpr ⟨s, hrun, hcall⟩
    · rw [hport', toNat_add_one hlast]
      omega

/-- When 55535 ports have been handed out, the last port is busy: the loop goes on with
port 0. -/
theorem lastPort_busy :
    ¬ ∀ as : List PortAct, machine.Every (fun _ _ t => t.InRange) started as := by
  intro h
  obtain ⟨s, hrun, hscan, hport⟩ := run_boundCalls (Nat.le_refl 55535)
  have hstart : machine.step s .getIdleUdpPort = some (s.startCall .getIdleUdpPort) :=
    if_pos hscan
  have hrun' : machine.run started (boundCalls 55535 ++ [.getIdleUdpPort]) =
      some (s.startCall .getIdleUdpPort) :=
    machine.run_append.mpr ⟨s, hrun, machine.run_cons.mpr ⟨_, hstart, rfl⟩⟩
  have hbefore : (s.startCall .getIdleUdpPort).InRange :=
    machine.every_at hrun hstart (h (boundCalls 55535 ++ [.getIdleUdpPort]))
  have hafter : ((s.startCall .getIdleUdpPort).round ⟨.getIdleUdpPort, s.nextPort, 0⟩
      .busy).InRange :=
    machine.every_at hrun' rfl (h (boundCalls 55535 ++ [.getIdleUdpPort] ++ [.attempt .busy]))
  have hlast := hbefore.bindsBelowLast rfl hafter _ rfl (.inl rfl)
  exact hlast (UInt16.toNat_inj.mp hport)

end PortUtils

end Lmnet.Posix
