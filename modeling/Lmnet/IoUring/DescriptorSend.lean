import Lmnet.IoUring.SharedRequest
import Lmnet.UnixSocketUtils

/-!
Who closes the duplicates of `SendUnixMessage`: `DuplicateFds` when it fails, every call of
the callback of the `sendmsg`, and the caller that is told false. `IoUringSessionImpl` and
`UnixClientImpl` have the same body but for what a failure does to the stream.
-/

set_option autoImplicit false

namespace Lmnet.IoUring

def AF_UNIX : Nat := 1

/-- What a call of `SendUnixMessage` is given and what it meets on its way: `dup`,
`getsockname` with the family of the socket, and the ring. -/
structure SendCall where
  fds : List Fd
  dup : Nat → Option Nat
  sunFamily : Option Nat
  outcome : RingOutcome

/-- `SubmitSendMsgRequest` returns false without a call of the callback. -/
def wrongFamily (duplicatedFds : List Fd) (sunFamily : Option Nat) : Bool :=
  !duplicatedFds.isEmpty && sunFamily.any (· ≠ AF_UNIX)

namespace SendCall

def submits (c : SendCall) : Bool :=
  let duplicatedFds := (duplicateFds c.dup c.fds).duplicatedFds
  !(!c.fds.isEmpty && duplicatedFds.isEmpty) && !wrongFamily duplicatedFds c.sunFamily

def closedBefore (c : SendCall) : List Fd :=
  let duplicated := duplicateFds c.dup c.fds
  if !c.fds.isEmpty && duplicated.duplicatedFds.isEmpty then duplicated.closed
  else duplicated.closed ++ cleanupFds duplicated.duplicatedFds

/-- The descriptors closed on behalf of a call, once it has returned and its `sendmsg` is over.
It is the `SubmitOperation` call `i` of the manager, which stands before its decision in `s`. -/
inductive Closes (c : SendCall) (s : LifeCycle) (i : Nat) : List Fd → Prop where
  | refused (h : c.submits = false) : Closes c s i c.closedBefore
  | submitted (h : c.submits = true) {as : List LifeAct} {t : LifeCycle} {accepted : Bool}
      (hgoes : s.GoesOn i c.outcome as t) (hsettled : t.Settled i accepted) :
      Closes c s i ((duplicateFds c.dup c.fds).closed ++
        (List.replicate (t.cleanups i)
          (cleanupFds (duplicateFds c.dup c.fds).duplicatedFds)).flatten)

def NoDuplicates (c : SendCall) : Prop :=
  c.fds = [] ∨ ∃ i fd, c.fds[i]? = some fd ∧ (fd < 0 ∨ c.dup i = none)

def WrongFamily (c : SendCall) : Prop := ∃ f, c.sunFamily = some f ∧ f ≠ AF_UNIX

end SendCall

theorem duplicateFds_cases (c : SendCall) :
    (c.NoDuplicates ∧ ∃ produced : List Fd, duplicateFds c.dup c.fds = ⟨produced, produced, []⟩) ∨
    (¬ c.NoDuplicates ∧ ∃ produced : List Fd, duplicateFds c.dup c.fds = ⟨produced, [], produced⟩ ∧
      produced ≠ [] ∧ ∀ fd ∈ produced, 0 ≤ fd) := by
  rcases duplicateFds_all_or_none c.dup c.fds with
    ⟨hall, produced, heq, hlen, hnonneg⟩ | ⟨hfails, hclosed⟩
  · by_cases hnil : c.fds = []
    · refine .inl ⟨.inl hnil, [], ?_⟩
      rw [hnil]
      rfl
    · refine .inr ⟨?_, produced, heq, ?_, hnonneg⟩
      · rintro (h | ⟨i, fd, hfd, hbad⟩)
        · exact hnil h
        · obtain ⟨hpos, hdup⟩ := hall i fd hfd
          rcases hbad with hneg | hnone
          · exact absurd hpos (Int.not_le.mpr hneg)
          · exact hdup hnone
      · rintro rfl
        exact hnil (List.length_eq_zero_iff.mp hlen.symm)
  · exact .inl ⟨.inr hfails, hclosed⟩

theorem wrongFamily_iff {c : SendCall} {duplicatedFds : List Fd} (h : duplicatedFds ≠ []) :
    wrongFamily duplicatedFds c.sunFamily = true ↔ c.WrongFamily := by
  cases hfamily : c.sunFamily <;> simp [wrongFamily, SendCall.WrongFamily, hfamily, h]

theorem flatten_replicate_perm_iff {fds : List Fd} (hne : fds ≠ []) (n : Nat) :
    (List.replicate n fds).flatten.Perm fds ↔ n = 1 := by
  constructor
  · intro hperm
    have hlength := hperm.length_eq
    rw [List.length_flatten, List.map_replicate, List.sum_replicate_nat] at hlength
    exact (Nat.mul_eq_right (Nat.ne_of_gt (List.length_pos_iff.mpr hne))).mp hlength
  · rintro rfl
    simp

namespace SendCall

/-- `SendUnixMessage` closes each of its duplicates once, whatever the other threads, the worker
and the kernel do on the way, if and only if it has none, or the socket is of another family, or
the manager grants it a request that is nowhere else and a place in the ring. -/
theorem duplicates_closed_once_iff (c : SendCall) (entries : Nat) (isRunning : Bool)
    {as : List LifeAct} {s : LifeCycle}
    (h : LifeCycle.machine.run (.begun entries isRunning) as = some s) {i : Nat}
    (hi : s.Decides i) :
    (∀ closed, c.Closes s i closed → closed.Perm (duplicateFds c.dup c.fds).produced) ↔
      c.NoDuplicates ∨ c.WrongFamily ∨ s.Grants i c.outcome := by
  have hmanager := LifeCycle.cleanups_eq_one_iff_grants entries isRunning h hi c.outcome
  rcases duplicateFds_cases c with ⟨hnone, produced, heq⟩ | ⟨hsome, produced, heq, hne, hnonneg⟩
  · refine ⟨fun _ => .inl hnone, fun _ closed hclosed => ?_⟩
    rw [heq]
    cases hclosed with
    | refused h => simp [closedBefore, heq, cleanupFds]
    | submitted h hgoes hsettled => simp [heq, cleanupFds]
  · have hcleanup : cleanupFds produced = produced := cleanupFds_eq hnonneg
    by_cases hwrong : c.WrongFamily
    · refine ⟨fun _ => .inr (.inl hwrong), fun _ closed hclosed => ?_⟩
      rw [← wrongFamily_iff hne] at hwrong
      rw [heq]
      cases hclosed with
      | refused h => simp [closedBefore, heq, hne, hcleanup]
      | submitted h => simp [submits, heq, hwrong] at h
    · have hsubmits : c.submits = true := by
        rw [← wrongFamily_iff hne, Bool.not_eq_true] at hwrong
        simp [submits, heq, hne, hwrong]
      simp only [hsome, hwrong, false_or, ← hmanager]
      constructor
      · intro hall bs t accepted hgoes hsettled
        have hperm := hall _ (.submitted hsubmits hgoes hsettled)
        rw [heq, hcleanup] at hperm
        exact (flatten_replicate_perm_iff hne _).mp hperm
      · intro hone closed hclosed
        rw [heq]
        cases hclosed with
        | refused h => simp [hsubmits] at h
        | submitted h hgoes hsettled =>
          rw [heq, hcleanup, hone _ _ _ hgoes hsettled]
          simp

def oneDescriptor : SendCall := ⟨[3], fun _ => some 5, some AF_UNIX, .submit 1⟩

/-- A call that finds the manager running, or not, and nobody else in it. -/
def alone (isRunning : Bool) : LifeCycle :=
  { LifeCycle.begun 2 isRunning with
    calls := [if isRunning then .checked .sendMsg 4 else .begun .sendMsg 4] }

theorem duplicates_closed_once_iff_alone :
    (alone true).Grants 0 oneDescriptor.outcome ∧
      ∀ closed, oneDescriptor.Closes (alone true) 0 closed → closed.Perm [5] := by
  have hrun : LifeCycle.machine.run (.begun 2 true) [.submitOperation .sendMsg 4, .check 0] =
      some (alone true) := rfl
  have hgrants : (alone true).Grants 0 oneDescriptor.outcome :=
    ⟨⟨.sendMsg, 4, rfl⟩, ⟨1, by decide, by decide⟩, by decide⟩
  exact ⟨hgrants, (duplicates_closed_once_iff oneDescriptor 2 true hrun
    (.inr ⟨.sendMsg, 4, rfl⟩)).mpr (.inr (.inr hgrants))⟩

/-- A manager that does not run calls the callback, and the caller cleans up as well. -/
theorem refused_send_closes_twice :
    LifeCycle.machine.run (.begun 2 false) [.submitOperation .sendMsg 4] = some (alone false) ∧
      oneDescriptor.Closes (alone false) 0 [5, 5] ∧
      ¬ [5, 5].Perm (duplicateFds oneDescriptor.dup oneDescriptor.fds).produced := by
  have hgoes : (alone false).GoesOn 0 oneDescriptor.outcome [.check 0, .reject 0] _ :=
    ⟨.inl rfl, by simp, rfl⟩
  exact ⟨rfl, .submitted rfl hgoes ⟨rfl, nofun⟩, fun h => absurd h.length_eq (by decide)⟩

end SendCall

end Lmnet.IoUring
