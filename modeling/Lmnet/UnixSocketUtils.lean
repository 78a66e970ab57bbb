import Lmnet.Common

set_option autoImplicit false

namespace Lmnet

def cleanupFds (fds : List Fd) : List Fd := fds.filter (0 ≤ ·)

/-- What `DuplicateFds` got from `dup`, what it closed again, and what it returns. -/
structure Duplicated where
  produced : List Fd
  closed : List Fd
  duplicatedFds : List Fd
  deriving DecidableEq, Repr

/-- `DuplicateFds` from some point of its loop on; `dup n` is what the `n`-th call of
`dup` returns, `none` for -1. -/
def duplicateFdsFrom (dup : Nat → Option Nat) (duplicatedFds : List Fd) : List Fd → Duplicated
  | [] => ⟨duplicatedFds, [], duplicatedFds⟩
  | fd :: fds =>
      if fd < 0 then ⟨duplicatedFds, cleanupFds duplicatedFds, []⟩
      else
        match dup duplicatedFds.length with
        | none => ⟨duplicatedFds, cleanupFds duplicatedFds, []⟩
        | some dupFd => duplicateFdsFrom dup (duplicatedFds ++ [(dupFd : Fd)]) fds

def duplicateFds (dup : Nat → Option Nat) (fds : List Fd) : Duplicated :=
  duplicateFdsFrom dup [] fds

theorem cleanupFds_eq {fds : List Fd} (h : ∀ fd ∈ fds, 0 ≤ fd) : cleanupFds fds = fds := by
  simpa [cleanupFds] using h

theorem duplicateFdsFrom_cases (dup : Nat → Option Nat) {acc : List Fd} (fds : List Fd)
    (hacc : ∀ fd ∈ acc, 0 ≤ fd) :
    ((∀ i fd, fds[i]? = some fd → 0 ≤ fd ∧ dup (acc.length + i) ≠ none) ∧
      ∃ produced : List Fd, duplicateFdsFrom dup acc fds = ⟨produced, [], produced⟩ ∧
        produced.length = acc.length + fds.length ∧ ∀ fd ∈ produced, 0 ≤ fd) ∨
    ((∃ i fd, fds[i]? = some fd ∧ (fd < 0 ∨ dup (acc.length + i) = none)) ∧
      ∃ produced : List Fd, duplicateFdsFrom dup acc fds = ⟨produced, produced, []⟩) := by
  induction fds generalizing acc with
  | nil => exact .inl ⟨by simp, acc, rfl, rfl, hacc⟩
  | cons fd fds ih =>
    by_cases hfd : fd < 0
    · refine .inr ⟨⟨0, fd, rfl, .inl hfd⟩, acc, ?_⟩
      simp [duplicateFdsFrom, hfd, cleanupFds_eq hacc]
    · cases hdup : dup acc.length with
      | none =>
        refine .inr ⟨⟨0, fd, rfl, .inr hdup⟩, acc, ?_⟩
        simp [duplicateFdsFrom, hfd, hdup, cleanupFds_eq hacc]
      | some dupFd =>
        have hacc' : ∀ fd ∈ acc ++ [(dupFd : Fd)], 0 ≤ fd := by
          simp only [List.mem_append, List.mem_singleton]
          rintro fd (h | rfl)
          · exact hacc fd h
          · exact Int.natCast_nonneg dupFd
        have hlength : (acc ++ [(dupFd : Fd)]).length = acc.length + 1 := by simp
        have hloop : duplicateFdsFrom dup acc (fd :: fds) =
            duplicateFdsFrom dup (acc ++ [(dupFd : Fd)]) fds := by
          simp [duplicateFdsFrom, hfd, hdup]
        have hcases := ih hacc'
        rw [hlength] at hcases
        rw [hloop]
        rcases hcases with ⟨hall, produced, heq, hlen, hnonneg⟩ | ⟨⟨i, x, hx, hfails⟩, hclosed⟩
        · refine .inl ⟨fun i x hx => ?_, produced, heq, ?_, hnonneg⟩
          · cases i with
            | zero =>
              cases hx
              exact ⟨Int.not_lt.mp hfd, by simp [hdup]⟩
            | succ i =>
              have hnext := hall i x hx
              rwa [show acc.length + 1 + i = acc.length + (i + 1) by omega] at hnext
          · simp only [List.length_cons]
            omega
        · refine .inr ⟨⟨i + 1, x, hx, ?_⟩, hclosed⟩
          rwa [show acc.length + (i + 1) = acc.length + 1 + i by omega]

/-- `DuplicateFds` returns a duplicate of every descriptor, or nothing. -/
theorem duplicateFds_all_or_none (dup : Nat → Option Nat) (fds : List Fd) :
    ((∀ i fd, fds[i]? = some fd → 0 ≤ fd ∧ dup i ≠ none) ∧
      ∃ produced : List Fd, duplicateFds dup fds = ⟨produced, [], produced⟩ ∧
        produced.length = fds.length ∧ ∀ fd ∈ produced, 0 ≤ fd) ∨
    ((∃ i fd, fds[i]? = some fd ∧ (fd < 0 ∨ dup i = none)) ∧
      ∃ produced : List Fd, duplicateFds dup fds = ⟨produced, produced, []⟩) := by
  have hnone : ∀ fd ∈ ([] : List Fd), 0 ≤ fd := fun fd h => nomatch h
  simpa [duplicateFds] using duplicateFdsFrom_cases dup fds hnone

end Lmnet
