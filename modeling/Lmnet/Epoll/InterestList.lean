import Lmnet.Epoll.EventReactor
import Lmnet.Lib.Machine
import Lmnet.Lib.Tables

/-!
The epoll `EventReactor` and the kernel: what any calls of `RegisterHandler`, `RemoveHandler` and
`ModifyHandler` leave in `handlers_` and in the interest list. Each call holds `mutex_` from its
first look at `handlers_` on.
-/

set_option autoImplicit false

namespace Lmnet

inductive ReactorCall (η κ : Type) where
  | registerHandler (handler : Option η) (fd : Fd) (events : Nat) (outcome : κ)
  | removeHandler (fd : Fd) (outcome : κ)
  | modifyHandler (fd : Fd) (events : Nat) (outcome : κ)

namespace Epoll

variable {η : Type}

/-- The reactor while its thread runs; `wakeupFd_` may be invalid. `done` are the calls that
have returned true, the last one first. -/
structure RunningReactor (η : Type) where
  wakeupFd : Option Fd
  reactor : EventReactor η
  done : List (ReactorCall η (Option Int))

/-- The bits of a mask are those of the events asked for, and `EPOLLET`. -/
def Translates (events mask : Nat) : Prop :=
  ∀ i, mask.testBit i = true ↔
    (hasEvent events .read = true ∧ EPOLLIN.testBit i = true) ∨
    (hasEvent events .write = true ∧ EPOLLOUT.testBit i = true) ∨
    (hasEvent events .error = true ∧ EPOLLERR.testBit i = true) ∨
    (hasEvent events .close = true ∧ (EPOLLHUP.testBit i = true ∨ EPOLLRDHUP.testBit i = true)) ∨
    EPOLLET.testBit i = true

def lastEvents (fd : Fd) : List (ReactorCall η (Option Int)) → Option Nat
  | [] => none
  | .registerHandler _ fd' events _ :: cs => if fd' = fd then some events else lastEvents fd cs
  | .modifyHandler fd' events _ :: cs => if fd' = fd then some events else lastEvents fd cs
  | .removeHandler _ _ :: cs => lastEvents fd cs

namespace EventReactor

/-- `RegisterHandler`: the handler is put in before `epoll_ctl`, and taken out if that fails. -/
def emplaceHandler (r : EventReactor η) (handler : Option η) (fd : Fd) (events : Nat)
    (ctl : Option Int) : EventReactor η × Bool :=
  match handler with
  | none => (r, false)
  | some h =>
      if !r.running then (r, false)
      else if fd ∈ r.handlers then (r, false)
      else
        let handlers := r.handlers.insert fd h
        match ctl with
        | some _ => ({ r with handlers := handlers.erase fd }, false)
        | none =>
          ({ r with handlers := handlers,
                    interest := r.interest.insert fd (epollEvents events) }, true)

/-- The answers of `epoll_ctl`. It adds only what is not registered, and modifies and deletes
only what is; with `ENOENT` or `EBADF` on deletion it says that nothing is. -/
def Answers (r : EventReactor η) : ReactorCall η (Option Int) → Prop
  | .registerHandler _ fd _ ctl => ctl = none → fd ∉ r.interest
  | .removeHandler fd ctl =>
      (ctl = none → fd ∈ r.interest) ∧
        (ctl = some ENOENT ∨ ctl = some EBADF → fd ∉ r.interest)
  | .modifyHandler fd _ ctl => ctl = none → fd ∈ r.interest

instance (r : EventReactor η) (c : ReactorCall η (Option Int)) : Decidable (r.Answers c) := by
  cases c <;> unfold Answers <;> infer_instance

def call (r : EventReactor η) : ReactorCall η (Option Int) → EventReactor η × Bool
  | .registerHandler handler fd events ctl => r.emplaceHandler handler fd events ctl
  | .removeHandler fd ctl => r.removeHandler fd ctl
  | .modifyHandler fd events ctl => r.modifyHandler fd events ctl

theorem emplaceHandler_some (r : EventReactor η) (h : η) (fd : Fd) (events : Nat)
    (ctl : Option Int) :
    r.emplaceHandler (some h) fd events ctl = r.registerHandler fd events h ctl := by
  simp only [emplaceHandler, registerHandler]
  split
  · rfl
  · split
    · rfl
    · rename_i hnone
      cases ctl with
      | none => rfl
      | some e => simp only [AList.erase_insert_of_notMem h hnone]

end EventReactor

namespace RunningReactor

def started (η : Type) (wakeupFd : Option Fd) : RunningReactor η :=
  ⟨wakeupFd, ⟨true, ∅, (wakeupFd.elim ∅ fun fd => AList.singleton fd EPOLLIN)⟩, []⟩

def step (s : RunningReactor η) (c : ReactorCall η (Option Int)) : Option (RunningReactor η) :=
  if s.reactor.Answers c then
    some { s with
      reactor := (s.reactor.call c).1
      done := if (s.reactor.call c).2 then c :: s.done else s.done }
  else none

def machine (η : Type) (wakeupFd : Option Fd) :
    Machine (RunningReactor η) (ReactorCall η (Option Int)) where
  init s := s = started η wakeupFd
  step := step

structure Mirrors (s : RunningReactor η) : Prop where
  keys : ∀ fd, fd ∈ s.reactor.handlers ↔ fd ∈ s.reactor.interest ∧ s.wakeupFd ≠ some fd
  masks : ∀ fd ∈ s.reactor.handlers, ∃ events mask, lastEvents fd s.done = some events ∧
    s.reactor.interest.lookup fd = some mask ∧ Translates events mask

structure InStep (s : RunningReactor η) : Prop extends s.Mirrors where
  running : s.reactor.running = true
  wakeup : ∀ fd, s.wakeupFd = some fd → fd ∈ s.reactor.interest

theorem testBit_flag (asked : Bool) (flag i : Nat) :
    (if asked then flag else 0).testBit i = true ↔ asked = true ∧ flag.testBit i = true := by
  cases asked <;> simp

theorem translates_epollEvents (events : Nat) : Translates events (epollEvents events) := by
  intro i
  simp only [epollEvents, Nat.testBit_or, Bool.or_eq_true, testBit_flag, or_assoc]

theorem inStep_started (wakeupFd : Option Fd) : (started η wakeupFd).InStep := by
  refine ⟨⟨fun fd => ?_, fun fd hfd => absurd hfd (AList.notMem_empty fd)⟩, rfl, fun fd hfd => ?_⟩
  · cases wakeupFd with
    | none => simp [started, AList.notMem_empty]
    | some fd' =>
      have hmem : fd ∈ (AList.singleton fd' EPOLLIN : FdMap Nat) ↔ fd = fd' := by
        simp [AList.mem_keys]
      simp [started, AList.notMem_empty, hmem, eq_comm]
  · cases hfd
    exact List.mem_singleton.mpr rfl

theorem Mirrors.masks_insert {s : RunningReactor η} (h : s.Mirrors) {fd : Fd} {events : Nat}
    {done : List (ReactorCall η (Option Int))}
    (hdone : ∀ fd', lastEvents fd' done = if fd = fd' then some events else lastEvents fd' s.done)
    {fd' : Fd} (hfd' : fd' = fd ∨ fd' ∈ s.reactor.handlers) :
    ∃ events' mask, lastEvents fd' done = some events' ∧
      (s.reactor.interest.insert fd (epollEvents events)).lookup fd' = some mask ∧
      Translates events' mask := by
  rw [hdone]
  by_cases heq : fd = fd'
  · subst heq
    exact ⟨events, _, if_pos rfl, AList.lookup_insert _, translates_epollEvents events⟩
  · rw [if_neg heq, AList.lookup_insert_ne (Ne.symm heq)]
    exact h.masks fd' (hfd'.resolve_left (Ne.symm heq))

theorem InStep.registerHandler {s : RunningReactor η} {handler : η} {fd : Fd} {events : Nat}
    {ctl : Option Int} (h : s.InStep) (hnone : fd ∉ s.reactor.interest)
    (hnew : fd ∉ s.reactor.handlers) :
    InStep { s with
      reactor := { s.reactor with
        handlers := s.reactor.handlers.insert fd handler
        interest := s.reactor.interest.insert fd (epollEvents events) }
      done := .registerHandler (some handler) fd events ctl :: s.done } := by
  refine ⟨⟨fun fd' => ?_, fun fd' hfd' => ?_⟩, h.running, fun fd' hfd' => ?_⟩
  · have hwakeup : s.wakeupFd ≠ some fd := fun heq => hnone (h.wakeup fd heq)
    have hkeys := h.keys fd'
    simp only [AList.mem_insert, hkeys]
    constructor
    · rintro (rfl | hmem)
      · exact ⟨.inl rfl, hwakeup⟩
      · exact ⟨.inr hmem.1, hmem.2⟩
    · rintro ⟨heq | hmem, hne⟩
      · exact .inl heq
      · exact .inr ⟨hmem, hne⟩
  · exact h.toMirrors.masks_insert (fun _ => rfl) ((AList.mem_insert _).mp hfd')
  · exact (AList.mem_insert _).mpr (.inr (h.wakeup fd' hfd'))

theorem InStep.modifyHandler {s : RunningReactor η} {fd : Fd} {events : Nat}
    {ctl : Option Int} (h : s.InStep) (hmem : fd ∈ s.reactor.handlers) :
    InStep { s with
      reactor := { s.reactor with
        interest := s.reactor.interest.insert fd (epollEvents events) }
      done := .modifyHandler fd events ctl :: s.done } := by
  have hfd := (h.keys fd).mp hmem
  refine ⟨⟨fun fd' => ?_, fun fd' hfd' => ?_⟩, h.running, fun fd' hfd' => ?_⟩
  · have hsame : fd' ∈ s.reactor.interest.insert fd (epollEvents events) ↔
        fd' ∈ s.reactor.interest := by
      rw [AList.mem_insert]
      exact ⟨fun hor => hor.elim (fun heq => heq ▸ hfd.1) id, .inr⟩
    rw [hsame]
    exact h.keys fd'
  · exact h.toMirrors.masks_insert (fun _ => rfl) (.inr hfd')
  · exact (AList.mem_insert _).mpr (.inr (h.wakeup fd' hfd'))

theorem InStep.removeHandler {s : RunningReactor η} {fd : Fd} {ctl : Option Int} (h : s.InStep)
    (hmem : fd ∈ s.reactor.handlers) :
    InStep { s with
      reactor := { s.reactor with
        handlers := s.reactor.handlers.erase fd
        interest := s.reactor.interest.erase fd }
      done := .removeHandler fd ctl :: s.done } := by
  have hfd := (h.keys fd).mp hmem
  refine ⟨⟨fun fd' => ?_, fun fd' hfd' => ?_⟩, h.running, fun fd' hfd' => ?_⟩
  · have hkeys := h.keys fd'
    simp only [AList.mem_erase, hkeys, and_assoc]
  · obtain ⟨hne, hmem'⟩ := AList.mem_erase.mp hfd'
    rw [AList.lookup_erase_ne hne]
    exact h.masks fd' hmem'
  · refine AList.mem_erase.mpr ⟨?_, h.wakeup fd' hfd'⟩
    rintro rfl
    exact hfd.2 hfd'

/-- A call that returns true keeps table and interest list in step, one that returns false
leaves both as they were. -/
theorem InStep.call {s : RunningReactor η} (h : s.InStep) (c : ReactorCall η (Option Int))
    (hanswers : s.reactor.Answers c) :
    (∃ r, s.reactor.call c = (r, true) ∧ InStep { s with reactor := r, done := c :: s.done }) ∨
      s.reactor.call c = (s.reactor, false) := by
  cases c with
  | registerHandler handler fd events ctl =>
    cases handler with
    | none => exact .inr rfl
    | some handler =>
      simp only [EventReactor.call, EventReactor.emplaceHandler_some,
        EventReactor.registerHandler]
      rw [if_neg (by simp [h.running])]
      split
      · exact .inr rfl
      · rename_i hnew
        cases ctl with
        | some e => exact .inr rfl
        | none => exact .inl ⟨_, rfl, h.registerHandler (hanswers rfl) hnew⟩
  | removeHandler fd ctl =>
    simp only [EventReactor.call, EventReactor.removeHandler]
    split
    · rename_i hmem
      rw [if_pos h.running]
      cases ctl with
      | none => exact .inl ⟨_, rfl, h.removeHandler hmem⟩
      | some e =>
        simp only
        split
        · exact .inr rfl
        · -- what is in the table is registered
          rename_i hrace
          have hcode : some e = some ENOENT ∨ some e = some EBADF := by
            simpa [imp_iff_not_or, not_and_or] using hrace
          exact absurd ((h.keys fd).mp hmem).1 (hanswers.2 hcode)
    · exact .inr rfl
  | modifyHandler fd events ctl =>
    simp only [EventReactor.call, EventReactor.modifyHandler]
    rw [if_neg (by simp [h.running])]
    split
    · rename_i hmem
      cases ctl with
      | some e => exact .inr rfl
      | none => exact .inl ⟨_, rfl, h.modifyHandler hmem⟩
    · exact .inr rfl

theorem InStep.step {s t : RunningReactor η} {c : ReactorCall η (Option Int)} (h : s.InStep)
    (hs : s.step c = some t) :
    t.InStep ∧ ((s.reactor.call c).2 = false → t.reactor = s.reactor) := by
  unfold RunningReactor.step at hs
  split at hs
  · rename_i hanswers
    cases hs
    rcases h.call c hanswers with ⟨r, hcall, hkeep⟩ | hcall <;> rw [hcall]
    · exact ⟨hkeep, nofun⟩
    · exact ⟨h, fun _ => rfl⟩
  · cases hs

/-- Along every sequence of calls, whatever `epoll_ctl` makes of them. -/
theorem mirrors_interestList (wakeupFd : Option Fd) (cs : List (ReactorCall η (Option Int))) :
    (started η wakeupFd).Mirrors ∧
      (machine η wakeupFd).Every
        (fun s c t => t.Mirrors ∧ ((s.reactor.call c).2 = false → t.reactor = s.reactor))
        (started η wakeupFd) cs := by
  refine ⟨(inStep_started wakeupFd).toMirrors, ?_⟩
  refine (machine η wakeupFd).every_of_invariant (I := InStep) (fun s c t h hs => ?_)
    (inStep_started wakeupFd)
  obtain ⟨ht, hfalse⟩ := h.step hs
  exact ⟨ht, ht.toMirrors, hfalse⟩

end RunningReactor

end Epoll

end Lmnet
