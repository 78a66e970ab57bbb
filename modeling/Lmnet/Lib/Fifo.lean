import Lmnet.Lib.Machine

/-!
A first-in first-out stream: what has left it and what it still holds. A queue
that is fed in chunks and drained in arbitrary amounts refines it.
-/

set_option autoImplicit false

structure Fifo (α : Type*) where
  gone : List α
  held : List α
  deriving DecidableEq, Repr

namespace Fifo

variable {α : Type*}

inductive Act (α : Type*) where
  | push : List α → Act α
  | pass : Nat → Act α

def total (s : Fifo α) : List α := s.gone ++ s.held

def step (s : Fifo α) : Act α → Option (Fifo α)
  | .push xs => some { s with held := s.held ++ xs }
  | .pass n =>
      if n ≤ s.held.length then some ⟨s.gone ++ s.held.take n, s.held.drop n⟩ else none

def machine : Machine (Fifo α) (Act α) where
  init s := s = ⟨[], []⟩
  step := step

def pushed : List (Act α) → List α
  | [] => []
  | .push xs :: as => xs ++ pushed as
  | .pass _ :: as => pushed as

/-- Nothing is lost, repeated or reordered: what left followed by what is held
is what was there before followed by what was pushed. -/
theorem run_total {s t : Fifo α} {as : List (Act α)} (h : machine.run s as = some t) :
    t.total = s.total ++ pushed as := by
  induction as generalizing s with
  | nil =>
    cases h
    simp [pushed]
  | cons a as ih =>
    obtain ⟨s', ha, has⟩ := machine.run_cons.mp h
    rw [ih has]
    cases a with
    | push xs =>
      simp only [machine, step, Option.some.injEq] at ha
      subst ha
      simp [total, pushed]
    | pass n =>
      simp only [machine, step] at ha
      split at ha
      · cases ha
        simp [total, pushed]
      · cases ha

theorem run_pass {s : Fifo α} {n : Nat} (h : n ≤ s.held.length) :
    machine.run s [.pass n] = some ⟨s.gone ++ s.held.take n, s.held.drop n⟩ := by
  simp [Machine.run, machine, step, h]

end Fifo
