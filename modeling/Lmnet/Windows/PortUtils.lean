import Lmnet.Lib.Lists
import Lmnet.Lib.Machine

/-!
`PortUtils` (windows): the search for idle UDP ports. A call holds `portMutex` from its start to
its end; a step starts a call, or is one attempt of its loop with what `socket` and `bind` make
of it.
-/

set_option autoImplicit false

namespace Lmnet.Windows

def udpPortStart : UInt16 := 10000

/-- What an attempt meets; that of `GetIdleUdpPort` makes the first socket only. -/
structure PortAttempt where
  socket1 : Bool
  socket2 : Bool
  bind1 : Bool
  bind2 : Bool
  deriving DecidableEq, Repr

/-- A call that has returned `port`, and how many attempts all calls had made before its last. -/
structure PortResult where
  pair : Bool
  port : UInt16
  tried : Nat
  deriving DecidableEq, Repr

/-- `call` is whether a call is under way, and for a pair, and its attempts so far. `tried` are
the attempts of all calls, `opened` and `closed` the sockets that they have made and closed. -/
structure PortUtils where
  nextPort : UInt16
  call : Option (Bool × Nat)
  returned : List PortResult
  tried : Nat
  opened : Nat
  closed : Nat
  deriving DecidableEq, Repr

inductive PortAct where
  | getIdleUdpPort
  | getIdleUdpPortPair
  | attempt (a : PortAttempt)
  deriving DecidableEq, Repr

namespace PortAttempt

def opened (a : PortAttempt) (pair : Bool) : Nat :=
  a.socket1.toNat + if pair then a.socket2.toNat else 0

/-- What it closes: on its way to `continue`, before `return`, or at its end. -/
def closed (a : PortAttempt) (pair : Bool) : Nat :=
  if pair then
    if !a.socket1 || !a.socket2 then
      (if a.socket1 then 1 else 0) + (if a.socket2 then 1 else 0)
    else 2
  else if !a.socket1 then 0
  else 1

def succeeds (a : PortAttempt) (pair : Bool) : Bool :=
  if pair then a.socket1 && a.socket2 && a.bind1 && a.bind2 else a.socket1 && a.bind1

end PortAttempt

namespace PortUtils

def started : PortUtils := ⟨udpPortStart, none, [], 0, 0, 0⟩

def advance (nextPort : UInt16) (pair : Bool) : UInt16 :=
  let nextPort := if pair then nextPort + 2 else nextPort + 1
  if nextPort > 65000 then udpPortStart else nextPort

def returns (s : PortUtils) (pair : Bool) (port : UInt16) : PortUtils :=
  { s with call := none, returned := s.returned ++ [⟨pair, port, s.tried⟩] }

/-- One round of the loop; after the last one that fails the call returns 0. -/
def attempt (s : PortUtils) (pair : Bool) (attempts : Nat) (a : PortAttempt) : PortUtils :=
  let port := s.nextPort
  let s := { s with
    nextPort := advance s.nextPort pair
    opened := s.opened + a.opened pair
    closed := s.closed + a.closed pair }
  let s :=
    if a.succeeds pair then s.returns pair port
    else if attempts + 1 < 1000 then { s with call := some (pair, attempts + 1) }
    else s.returns pair 0
  { s with tried := s.tried + 1 }

def step (s : PortUtils) : PortAct → Option PortUtils
  | .getIdleUdpPort => if s.call = none then some { s with call := some (false, 0) } else none
  | .getIdleUdpPortPair => if s.call = none then some { s with call := some (true, 0) } else none
  | .attempt a => s.call.map fun (pair, attempts) => s.attempt pair attempts a

def machine : Machine PortUtils PortAct where
  init s := s = started
  step := step

end PortUtils

def PortResult.ports (r : PortResult) : List Nat :=
  if r.port = 0 then [] else if r.pair then [r.port.toNat, r.port.toNat + 1] else [r.port.toNat]

namespace PortUtils

/-- Where the cursor stands after a call: behind the ports of the call, two for each attempt at
most; or it has been back at the start, and then twice the attempts make up for the way. -/
def Behind (r : PortResult) (nextPort tried : Nat) : Prop :=
  (∀ p ∈ r.ports, p < nextPort ∧ nextPort ≤ r.port.toNat + 2 * (tried - r.tried)) ∨
    ∀ p ∈ r.ports, 65001 + nextPort ≤ r.port.toNat + 10000 + 2 * (tried - r.tried)

structure Inv (s : PortUtils) : Prop where
  nextPort : 10000 ≤ s.nextPort.toNat ∧ s.nextPort.toNat ≤ 65000
  attempts : ∀ pair n, s.call = some (pair, n) → n < 1000
  range : ∀ r ∈ s.returned, r.port = 0 ∨ 10000 ≤ r.port.toNat ∧ r.port.toNat ≤ 65000
  behind : ∀ r ∈ s.returned, Behind r s.nextPort.toNat s.tried
  before : ∀ r ∈ s.returned, r.tried < s.tried
  calls : ∀ i r, s.returned[i]? = some r →
    s.tried + 1000 * i + 1000 ≤
      r.tried + 1 + 1000 * s.returned.length + (s.call.map (·.2)).getD 0
  closed : s.closed = s.opened
  apart : ∀ (i j : Nat) (r r' : PortResult), s.returned[i]? = some r → s.returned[j]? = some r' →
    i < j → j < i + 28 → r.ports.Disjoint r'.ports

theorem started_inv : started.Inv := by
  constructor <;> simp [started, udpPortStart]

theorem advance_toNat {nextPort : UInt16} (h : nextPort.toNat ≤ 65000) (pair : Bool) :
    (advance nextPort pair).toNat =
      if nextPort.toNat + (if pair then 2 else 1) ≤ 65000 then
        nextPort.toNat + (if pair then 2 else 1)
      else 10000 := by
  have hone : (nextPort + 1).toNat = nextPort.toNat + 1 := by
    rw [UInt16.toNat_add, show (1 : UInt16).toNat = 1 from rfl]
    omega
  have htwo : (nextPort + 2).toNat = nextPort.toNat + 2 := by
    rw [UInt16.toNat_add, show (2 : UInt16).toNat = 2 from rfl]
    omega
  have hlast : (65000 : UInt16).toNat = 65000 := rfl
  have hstart : udpPortStart.toNat = 10000 := rfl
  cases pair
  · simp only [advance, Bool.false_eq_true, if_false, gt_iff_lt, UInt16.lt_iff_toNat_lt, hone,
      hlast]
    split <;> split <;> omega
  · simp only [advance, if_true, gt_iff_lt, UInt16.lt_iff_toNat_lt, htwo, hlast]
    split <;> split <;> omega

/-- An attempt moves the cursor by two at most, or back to the start of the range. -/
theorem advance_cases {nextPort : UInt16} (h : nextPort.toNat ≤ 65000) (pair : Bool) :
    (nextPort.toNat < (advance nextPort pair).toNat ∧ (advance nextPort pair).toNat ≤ 65000 ∧
      (advance nextPort pair).toNat ≤ nextPort.toNat + 2 ∧
      (pair = true → (advance nextPort pair).toNat = nextPort.toNat + 2)) ∨
    ((advance nextPort pair).toNat = 10000 ∧ 64999 ≤ nextPort.toNat) := by
  rw [advance_toNat h]
  cases pair <;> simp only [Bool.false_eq_true, if_false, if_true] <;> split <;> simp <;> omega

theorem advance_range {nextPort : UInt16} (hlow : 10000 ≤ nextPort.toNat)
    (hhigh : nextPort.toNat ≤ 65000) (pair : Bool) :
    10000 ≤ (advance nextPort pair).toNat ∧ (advance nextPort pair).toNat ≤ 65000 := by
  rcases advance_cases hhigh pair with ⟨_, _, _, _⟩ | ⟨_, _⟩ <;> omega

theorem closed_eq_opened (a : PortAttempt) (pair : Bool) : a.closed pair = a.opened pair := by
  obtain ⟨_ | _, _ | _, _, _⟩ := a <;> cases pair <;> rfl

theorem mem_ports {r : PortResult} {p : Nat} (h : p ∈ r.ports) :
    r.port ≠ 0 ∧ r.port.toNat ≤ p ∧ p ≤ r.port.toNat + 1 ∧
      (p = r.port.toNat ∨ r.pair = true) := by
  unfold PortResult.ports at h
  split at h
  · cases h
  · split at h <;> simp at h <;> grind

theorem Behind.advance {r : PortResult} {nextPort : UInt16} {tried : Nat}
    (h : Behind r nextPort.toNat tried) (hlow : 10000 ≤ nextPort.toNat)
    (hhigh : nextPort.toNat ≤ 65000) (hr : r.tried < tried) (pair : Bool) :
    Behind r (advance nextPort pair).toNat (tried + 1) := by
  rcases h with h | h
  · rcases advance_cases hhigh pair with ⟨hup, _, htwo, _⟩ | ⟨hback, hend⟩
    · refine .inl fun p hp => ?_
      have := h p hp
      omega
    · refine .inr fun p hp => ?_
      have := h p hp
      omega
  · refine .inr fun p hp => ?_
    have := h p hp
    rcases advance_cases hhigh pair with ⟨_, _, htwo, _⟩ | ⟨hback, _⟩ <;> omega

theorem behind_found {nextPort : UInt16} (hhigh : nextPort.toNat ≤ 65000) (pair : Bool)
    (tried : Nat) :
    Behind ⟨pair, nextPort, tried⟩ (PortUtils.advance nextPort pair).toNat (tried + 1) := by
  rcases advance_cases hhigh pair with ⟨hup, _, htwo, hpair⟩ | ⟨hback, hend⟩
  · refine .inl fun p hp => ?_
    obtain ⟨_, _, hle, hone⟩ := mem_ports hp
    rcases hone with rfl | hone
    · simp only at hup ⊢
      omega
    · have := hpair hone
      simp only at hle ⊢
      omega
  · refine .inr fun p hp => ?_
    have := (mem_ports hp).2.1
    simp only at this ⊢
    omega

/-- What is found at the cursor is new to a call of less than 27500 attempts ago. -/
theorem Behind.disjoint {r : PortResult} {nextPort : UInt16} {tried : Nat}
    (h : Behind r nextPort.toNat tried)
    (hnear : tried < r.tried + 27500) (pair : Bool) :
    r.ports.Disjoint (PortResult.ports ⟨pair, nextPort, tried⟩) := by
  intro p hp hp'
  have hle := (mem_ports hp).2.1
  obtain ⟨_, hge, hle', _⟩ := mem_ports hp'
  simp only at hge hle'
  rcases h with h | h
  · have := h p hp
    omega
  · have := h p hp
    omega

/-- A call in progress makes another attempt, or returns with what it has found or with 0. -/
theorem attempt_cases (s : PortUtils) (pair : Bool) (n : Nat) (a : PortAttempt) :
    (n + 1 < 1000 ∧ (s.attempt pair n a).call = some (pair, n + 1) ∧
      (s.attempt pair n a).returned = s.returned) ∨
    ∃ port, (port = s.nextPort ∨ port = 0) ∧ (s.attempt pair n a).call = none ∧
      (s.attempt pair n a).returned = s.returned ++ [⟨pair, port, s.tried⟩] := by
  simp only [attempt, returns]
  split
  · exact .inr ⟨_, .inl rfl, rfl, rfl⟩
  · split
    · exact .inl ⟨‹_›, rfl, rfl⟩
    · exact .inr ⟨0, .inr rfl, rfl, rfl⟩

@[simp] theorem attempt_tried (s : PortUtils) (pair : Bool) (n : Nat) (a : PortAttempt) :
    (s.attempt pair n a).tried = s.tried + 1 := by
  simp only [attempt, returns]
  split <;> [rfl; split <;> rfl]

@[simp] theorem attempt_nextPort (s : PortUtils) (pair : Bool) (n : Nat) (a : PortAttempt) :
    (s.attempt pair n a).nextPort = advance s.nextPort pair := by
  simp only [attempt, returns]
  split <;> [rfl; split <;> rfl]

@[simp] theorem attempt_opened (s : PortUtils) (pair : Bool) (n : Nat) (a : PortAttempt) :
    (s.attempt pair n a).opened = s.opened + a.opened pair := by
  simp only [attempt, returns]
  split <;> [rfl; split <;> rfl]

@[simp] theorem attempt_closed (s : PortUtils) (pair : Bool) (n : Nat) (a : PortAttempt) :
    (s.attempt pair n a).closed = s.closed + a.closed pair := by
  simp only [attempt, returns]
  split <;> [rfl; split <;> rfl]

theorem Inv.attempt {s : PortUtils} (h : s.Inv) {pair : Bool} {n : Nat}
    (hcall : s.call = some (pair, n)) (a : PortAttempt) : (s.attempt pair n a).Inv := by
  obtain ⟨hlow, hhigh⟩ := h.nextPort
  have hn := h.attempts pair n hcall
  have hold : ∀ r ∈ s.returned, Behind r (advance s.nextPort pair).toNat (s.tried + 1) :=
    fun r hr => (h.behind r hr).advance hlow hhigh (h.before r hr) pair
  have hcalls : ∀ i r, s.returned[i]? = some r →
      s.tried + 1000 * i + 1000 ≤ r.tried + 1 + 1000 * s.returned.length + n := fun i r hi => by
    simpa [hcall] using h.calls i r hi
  have hall : s.closed + a.closed pair = s.opened + a.opened pair := by
    rw [h.closed, closed_eq_opened]
  rcases attempt_cases s pair n a with ⟨hmore, hc, hr⟩ | ⟨port, hport, hc, hr⟩
  · constructor <;> simp only [hr, hc, attempt_nextPort, attempt_tried, attempt_opened,
      attempt_closed]
    · exact advance_range hlow hhigh pair
    · rintro _ _ ⟨⟩
      exact hmore
    · exact h.range
    · exact hold
    · exact fun r hr => Nat.lt_succ_of_lt (h.before r hr)
    · intro i r hi
      have := hcalls i r hi
      simp only [Option.map_some, Option.getD_some]
      omega
    · exact hall
    · exact h.apart
  · have hzero : PortResult.ports ⟨pair, 0, s.tried⟩ = [] := rfl
    constructor <;> simp only [hr, hc, attempt_nextPort, attempt_tried, attempt_opened,
      attempt_closed]
    · exact advance_range hlow hhigh pair
    · rintro _ _ ⟨⟩
    · intro r hr
      rcases List.mem_append.mp hr with hr | hr
      · exact h.range r hr
      · obtain rfl := List.mem_singleton.mp hr
        rcases hport with rfl | rfl
        · exact .inr ⟨hlow, hhigh⟩
        · exact .inl rfl
    · intro r hr
      rcases List.mem_append.mp hr with hr | hr
      · exact hold r hr
      · obtain rfl := List.mem_singleton.mp hr
        rcases hport with rfl | rfl
        · exact behind_found hhigh pair s.tried
        · exact .inl fun p hp => by simp [hzero] at hp
    · intro r hr
      rcases List.mem_append.mp hr with hr | hr
      · exact Nat.lt_succ_of_lt (h.before r hr)
      · obtain rfl := List.mem_singleton.mp hr
        exact Nat.lt_succ_self _
    · intro i r hi
      simp only [List.length_append, List.length_singleton, Option.map_none, Option.getD_none]
      rcases List.getElem?_concat_some hi with hi | ⟨rfl, rfl⟩
      · have := hcalls i r hi
        omega
      · simp only
        omega
    · exact hall
    · intro i j r r' hi hj hij hnear
      have hlen := (List.getElem?_eq_some_iff.mp hj).1
      rw [List.length_append, List.length_singleton] at hlen
      have hi' : s.returned[i]? = some r := by
        rwa [List.getElem?_append_left (by omega)] at hi
      rcases List.getElem?_concat_some hj with hj | ⟨rfl, rfl⟩
      · exact h.apart i j r r' hi' hj hij hnear
      · have hmem := List.mem_of_getElem? hi'
        have htried := hcalls i r hi'
        rcases hport with rfl | rfl
        · exact (h.behind r hmem).disjoint (by omega) pair
        · rw [hzero]
          exact List.disjoint_nil_right _

theorem Inv.step {s s' : PortUtils} {x : PortAct} (h : s.Inv) (hs : s.step x = some s') :
    s'.Inv := by
  -- a call that starts has made no attempt yet
  have hstart : ∀ pair, s.call = none → Inv { s with call := some (pair, 0) } := fun pair hc => by
    refine { h with attempts := ?_, calls := fun i r hi => ?_ }
    · rintro _ _ ⟨⟩
      decide
    · simpa [hc] using h.calls i r hi
  cases x with
  | getIdleUdpPort =>
    obtain ⟨hc, rfl⟩ : s.call = none ∧ _ = s' := by simpa [PortUtils.step] using hs
    exact hstart false hc
  | getIdleUdpPortPair =>
    obtain ⟨hc, rfl⟩ : s.call = none ∧ _ = s' := by simpa [PortUtils.step] using hs
    exact hstart true hc
  | attempt a =>
    obtain ⟨⟨pair, n⟩, hc, rfl⟩ := Option.map_eq_some_iff.mp hs
    exact h.attempt hc a

/-- What 28 calls in a row hand out is apart, and in the range; no call leaves a socket open. -/
theorem idlePorts_apart {s : PortUtils} {xs : List PortAct}
    (hrun : machine.run started xs = some s) :
    (∀ (i j : Nat) (r r' : PortResult), s.returned[i]? = some r → s.returned[j]? = some r' →
      i < j → j < i + 28 → r.ports.Disjoint r'.ports) ∧
    (∀ r ∈ s.returned, ∀ p ∈ r.ports, 10000 ≤ p ∧ p ≤ 65001) ∧
    s.closed = s.opened := by
  have h : s.Inv := machine.run_invariant (fun _ _ _ => Inv.step) started_inv hrun
  refine ⟨h.apart, fun r hr p hp => ?_, h.closed⟩
  obtain ⟨hne, hge, hle, _⟩ := mem_ports hp
  obtain ⟨hlow, hhigh⟩ := (h.range r hr).resolve_left hne
  omega

def allIdle : PortAttempt := ⟨true, true, true, true⟩

/-- A pair, and then a port behind one that is in use. -/
theorem idlePorts_apart_pairThenPort :
    (PortResult.ports ⟨true, 10000, 0⟩).Disjoint (PortResult.ports ⟨false, 10003, 2⟩) :=
  (idlePorts_apart (s := ⟨10004, none, [⟨true, 10000, 0⟩, ⟨false, 10003, 2⟩], 3, 4, 4⟩)
    (rfl : machine.run started [.getIdleUdpPortPair, .attempt allIdle, .getIdleUdpPort,
      .attempt { allIdle with bind1 := false }, .attempt allIdle] = some _)).1
    0 1 _ _ rfl rfl (by decide) (by decide)

end PortUtils

end Lmnet.Windows
