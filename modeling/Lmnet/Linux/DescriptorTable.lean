import Lmnet.Epoll.DescriptorTransfer

/-!
`DuplicateFds` over the descriptor table of the process: what it returns, and the table it
leaves, whichever calls of `dup` fail and whatever numbers the others return.
-/

set_option autoImplicit false

namespace Lmnet.Linux

open Epoll (File Refers closeAll closeAll_installDuplicates exists_refers installDuplicates
  installDuplicates_cons installDuplicates_spec)

/-- The open numbers, and the open file behind each. -/
abbrev DescriptorTable := FdMap File

namespace DescriptorTable

/-- What the kernel answers the `n`-th `dup` of a call of `DuplicateFds` with, if the number it
is given is open: a number that is not, or `none` for -1. -/
structure Answers (table : DescriptorTable) where
  dupFd : Nat → Option Nat
  new : ∀ n d, dupFd n = some d → (d : Fd) ∉ table
  once : ∀ m n d, dupFd m = some d → dupFd n = some d → m = n

def dup (table : DescriptorTable) (fd : Fd) (answer : Option Nat) :
    Option (Nat × DescriptorTable) :=
  match table.lookup fd, answer with
  | some file, some dupFd => some (dupFd, table.insert dupFd file)
  | _, _ => none

def cleanupFds (table : DescriptorTable) (fds : List Fd) : DescriptorTable :=
  closeAll table (Lmnet.cleanupFds fds)

def duplicateFdsFrom (answer : Nat → Option Nat) (table : DescriptorTable)
    (duplicatedFds : List Fd) : List Fd → List Fd × DescriptorTable
  | [] => (duplicatedFds, table)
  | fd :: fds =>
      if fd < 0 then ([], table.cleanupFds duplicatedFds)
      else
        match table.dup fd (answer duplicatedFds.length) with
        | none => ([], table.cleanupFds duplicatedFds)
        | some (dupFd, installed) =>
            duplicateFdsFrom answer installed (duplicatedFds ++ [(dupFd : Fd)]) fds

def duplicateFds (table : DescriptorTable) (answers : Answers table) (fds : List Fd) :
    List Fd × DescriptorTable :=
  duplicateFdsFrom answers.dupFd table [] fds

namespace Answers

variable {table : DescriptorTable} (answers : Answers table)

/-- The number is open by the time `DuplicateFds` comes to the `n`-th of its list. -/
def OpenAt (n : Nat) (fd : Fd) : Prop :=
  fd ∈ table ∨ ∃ m < n, ∃ d ∈ answers.dupFd m, (d : Fd) = fd

instance decidableOpenAt (n : Nat) (fd : Fd) : Decidable (answers.OpenAt n fd) :=
  inferInstanceAs (Decidable (_ ∨ _))

def returned (fds : List Fd) (n : Nat) : Option Nat :=
  if ∃ fd ∈ fds[n]?, answers.OpenAt n fd then answers.dupFd n else none

/-- The loop does not get past the `n`-th number. -/
def StopsAt (fds : List Fd) (n : Nat) : Prop :=
  ∃ fd ∈ fds[n]?, fd < 0 ∨ answers.dupFd n = none ∨ ¬ answers.OpenAt n fd

/-- Every number is open when `DuplicateFds` is called, or the loop stops at one. -/
def OpenOrStops (fds : List Fd) : Prop :=
  (∀ fd ∈ fds, fd ∈ table) ∨ ∃ n, answers.StopsAt fds n

end Answers

/-- The duplicates are new and distinct, and the `i`-th refers to the file of the `i`-th of
`fds`, all of which are open before and after. -/
structure Duplicates (table : DescriptorTable) (fds dupFds : List Fd)
    (table' : DescriptorTable) : Prop where
  length : dupFds.length = fds.length
  new : ∀ fd ∈ dupFds, fd ∉ table
  distinct : dupFds.Nodup
  sameFile : ∃ files, Refers table fds files ∧ Refers table' fds files ∧
    Refers table' dupFds files

/-- A duplicate of every number, or none and the table as it was. -/
def AllOrNothing (table : DescriptorTable) (fds : List Fd) (out : List Fd × DescriptorTable) :
    Prop :=
  Duplicates table fds out.1 out.2 ∨ out.1 = [] ∧ out.2 = table

/-! ### The table along the loop -/

namespace Answers

variable {table : DescriptorTable} {answers : Answers table}

theorem openAt_zero (fd : Fd) : answers.OpenAt 0 fd ↔ fd ∈ table := by
  simp [OpenAt]

theorem openAt_succ {n : Nat} {fd : Fd} :
    answers.OpenAt (n + 1) fd ↔ (∃ d ∈ answers.dupFd n, (d : Fd) = fd) ∨ answers.OpenAt n fd := by
  constructor
  · rintro (hmem | ⟨m, hm, hd⟩)
    · exact .inr (.inl hmem)
    · rcases Nat.lt_succ_iff_lt_or_eq.mp hm with hlt | rfl
      · exact .inr (.inr ⟨m, hlt, hd⟩)
      · exact .inl hd
  · rintro (hd | hmem | ⟨m, hm, hd⟩)
    · exact .inr ⟨n, Nat.lt_succ_self n, hd⟩
    · exact .inl hmem
    · exact .inr ⟨m, Nat.lt_succ_of_lt hm, hd⟩

theorem not_openAt_dupFd {n d : Nat} (h : answers.dupFd n = some d) : ¬ answers.OpenAt n d := by
  rintro (hmem | ⟨m, hm, d', hd', heq⟩)
  · exact answers.new n d h hmem
  · obtain rfl : d' = d := Int.ofNat_inj.mp heq
    exact Nat.ne_of_lt hm (answers.once m n d' hd' h)

end Answers

def Replays (table : DescriptorTable) (fds duplicatedFds : List Fd) (d : Duplicated)
    (out : List Fd × DescriptorTable) : Prop :=
  ∃ dupFds installed, d.produced = duplicatedFds ++ dupFds ∧ dupFds.length ≤ fds.length ∧
    installDuplicates table fds dupFds = some installed ∧
      out = (d.duplicatedFds, closeAll installed d.closed)

/-- The loop is that of the model in which the returns of `dup` are given. -/
theorem duplicateFdsFrom_replays {table : DescriptorTable} {answers : Answers table}
    {fds : List Fd} (rest : List Fd) {current : DescriptorTable} {duplicatedFds : List Fd}
    (hrest : ∀ i, fds[duplicatedFds.length + i]? = rest[i]?)
    (hopen : ∀ fd, fd ∈ current ↔ answers.OpenAt duplicatedFds.length fd) :
    Replays current rest duplicatedFds
      (Lmnet.duplicateFdsFrom (answers.returned fds) duplicatedFds rest)
      (duplicateFdsFrom answers.dupFd current duplicatedFds rest) := by
  induction rest generalizing current duplicatedFds with
  | nil => exact ⟨[], current, (List.append_nil _).symm, Nat.le_refl _, rfl, rfl⟩
  | cons fd rest ih =>
    have hstop : Replays current (fd :: rest) duplicatedFds
        ⟨duplicatedFds, Lmnet.cleanupFds duplicatedFds, []⟩
        ([], current.cleanupFds duplicatedFds) :=
      ⟨[], current, (List.append_nil _).symm, Nat.zero_le _, rfl, rfl⟩
    have hfd : fds[duplicatedFds.length]? = some fd := hrest 0
    simp only [Lmnet.duplicateFdsFrom, duplicateFdsFrom]
    split
    · exact hstop
    · cases hlookup : current.lookup fd with
      | none =>
        have hclosed : ¬ answers.OpenAt duplicatedFds.length fd := fun h =>
          AList.lookup_eq_none.mp hlookup ((hopen fd).mpr h)
        simpa [dup, hlookup, Answers.returned, hfd, hclosed] using hstop
      | some file =>
        have hisOpen : answers.OpenAt duplicatedFds.length fd :=
          (hopen fd).mp (AList.lookup_isSome.mp (by rw [hlookup]; rfl))
        cases hanswer : answers.dupFd duplicatedFds.length with
        | none => simpa [dup, hlookup, Answers.returned, hfd, hisOpen, hanswer] using hstop
        | some dupFd =>
          have hreturned : answers.returned fds duplicatedFds.length = some dupFd := by
            simp [Answers.returned, hfd, hisOpen, hanswer]
          have hdup : current.dup fd (some dupFd) =
              some (dupFd, current.insert (dupFd : Fd) file) := by
            simp [dup, hlookup]
          have hnew : (dupFd : Fd) ∉ current := fun hmem =>
            Answers.not_openAt_dupFd hanswer ((hopen _).mp hmem)
          have hlength : (duplicatedFds ++ [(dupFd : Fd)]).length = duplicatedFds.length + 1 :=
            List.length_append
          have hrest' : ∀ i, fds[(duplicatedFds ++ [(dupFd : Fd)]).length + i]? = rest[i]? := by
            intro i
            rw [hlength, Nat.add_assoc, Nat.add_comm 1 i, hrest (i + 1), List.getElem?_cons_succ]
          have hopen' : ∀ x, x ∈ current.insert (dupFd : Fd) file ↔
              answers.OpenAt (duplicatedFds ++ [(dupFd : Fd)]).length x := by
            intro x
            rw [hlength, Answers.openAt_succ, AList.mem_insert, hopen]
            simp [hanswer, eq_comm]
          obtain ⟨dupFds, installed, hproduced, hlen, hinstalled, hout⟩ := ih hrest' hopen'
          rw [hreturned, hdup]
          refine ⟨dupFd :: dupFds, installed, ?_, Nat.succ_le_succ hlen, ?_, hout⟩
          · rw [hproduced, List.append_assoc, List.singleton_append]
          · exact installDuplicates_cons.mpr ⟨file, hlookup, hnew, hinstalled⟩

theorem duplicateFds_replays (table : DescriptorTable) (answers : Answers table)
    (fds : List Fd) :
    Replays table fds [] (Lmnet.duplicateFds (answers.returned fds) fds)
      (table.duplicateFds answers fds) :=
  duplicateFdsFrom_replays fds (fun i => by rw [List.length_nil, Nat.zero_add])
    fun fd => (Answers.openAt_zero fd).symm

/-! ### All or nothing -/

variable {table : DescriptorTable} {answers : Answers table} {fds : List Fd}

theorem stops_iff : (∃ i fd, fds[i]? = some fd ∧ (fd < 0 ∨ answers.returned fds i = none)) ↔
    ∃ n, answers.StopsAt fds n := by
  refine exists_congr fun n => exists_congr fun fd => and_congr_right fun hfd => ?_
  simp [Answers.returned, hfd, or_comm, imp_iff_not_or]

theorem duplicateFds_of_stops (h : ∃ n, answers.StopsAt fds n) :
    table.duplicateFds answers fds = ([], table) := by
  obtain ⟨dupFds, installed, hproduced, hlen, hinstalled, hout⟩ :=
    duplicateFds_replays table answers fds
  rcases duplicateFds_all_or_none (answers.returned fds) fds with
    ⟨hall, -⟩ | ⟨-, produced, heq⟩
  · obtain ⟨i, fd, hfd, hnegative | hnone⟩ := stops_iff.mpr h
    · exact absurd (hall i fd hfd).1 (Int.not_le.mpr hnegative)
    · exact absurd hnone (hall i fd hfd).2
  · rw [heq] at hproduced hout
    obtain rfl : produced = dupFds := hproduced
    rw [hout]
    exact congrArg _ (closeAll_installDuplicates hinstalled hlen)

theorem duplicateFds_of_not_stops (h : ¬ ∃ n, answers.StopsAt fds n) :
    (table.duplicateFds answers fds).1.length = fds.length ∧
      (∀ fd ∈ (table.duplicateFds answers fds).1, 0 ≤ fd) ∧
      installDuplicates table fds (table.duplicateFds answers fds).1 =
        some (table.duplicateFds answers fds).2 := by
  obtain ⟨dupFds, installed, hproduced, -, hinstalled, hout⟩ :=
    duplicateFds_replays table answers fds
  rcases duplicateFds_all_or_none (answers.returned fds) fds with
    ⟨-, produced, heq, hlen, hnonneg⟩ | ⟨hstops, -⟩
  · rw [heq] at hproduced hout
    obtain rfl : produced = dupFds := hproduced
    rw [hout]
    exact ⟨hlen, hnonneg, hinstalled⟩
  · exact absurd (stops_iff.mp hstops) h

/-- `CleanupFds` of what `DuplicateFds` returns takes the table back. -/
theorem cleanupFds_duplicateFds (table : DescriptorTable) (answers : Answers table)
    (fds : List Fd) :
    (table.duplicateFds answers fds).2.cleanupFds (table.duplicateFds answers fds).1 = table := by
  by_cases h : ∃ n, answers.StopsAt fds n
  · rw [duplicateFds_of_stops h]
    rfl
  · obtain ⟨hlen, hnonneg, hinstalled⟩ := duplicateFds_of_not_stops h
    rw [cleanupFds, cleanupFds_eq hnonneg]
    exact closeAll_installDuplicates hinstalled (Nat.le_of_eq hlen)

theorem duplicates_of_open (hopen : ∀ fd ∈ fds, fd ∈ table) (h : ¬ ∃ n, answers.StopsAt fds n) :
    Duplicates table fds (table.duplicateFds answers fds).1
      (table.duplicateFds answers fds).2 := by
  obtain ⟨hlen, -, hinstalled⟩ := duplicateFds_of_not_stops h
  obtain ⟨files, hfiles⟩ := exists_refers hopen
  obtain ⟨hkept, hnodup, hnew, hsame⟩ := installDuplicates_spec hinstalled hlen hfiles
  exact ⟨hlen, fun fd hfd => AList.lookup_eq_none.mp (hnew fd hfd), hnodup, files, hfiles,
    hfiles.congr fun fd hfd => hkept fd (hfiles.isSome hfd), hsame⟩

/-- All or nothing, exactly when no number that is not open passes as open because a `dup` of
the same call has returned it. -/
theorem allOrNothing_iff_openOrStops (table : DescriptorTable) (answers : Answers table)
    (fds : List Fd) :
    AllOrNothing table fds (table.duplicateFds answers fds) ↔ answers.OpenOrStops fds := by
  by_cases h : ∃ n, answers.StopsAt fds n
  · exact iff_of_true (.inr (by rw [duplicateFds_of_stops h]; exact ⟨rfl, rfl⟩)) (.inr h)
  · constructor
    · rintro (hall | ⟨hnone, -⟩)
      · obtain ⟨files, hfiles, -⟩ := hall.sameFile
        exact .inl (hfiles.mem)
      · have hlen := (duplicateFds_of_not_stops h).1
        rw [hnone] at hlen
        obtain rfl := List.length_eq_zero_iff.mp hlen.symm
        exact .inl fun fd hfd => absurd hfd List.not_mem_nil
    · rintro (hopen | hstops)
      · exact .inl (duplicates_of_open hopen h)
      · exact absurd hstops h

def fourOpen : DescriptorTable :=
  (((AList.singleton 0 0 : DescriptorTable).insert 1 1).insert 2 2).insert 3 7

def lowestFree : Answers fourOpen where
  dupFd n := some (n + 4)
  new n d h hmem := by
    cases h
    have hkeys : ((n + 4 : Nat) : Int) ∈ [3, 2, 1, 0] := hmem
    simp only [List.mem_cons, List.not_mem_nil, or_false] at hkeys
    omega
  once m n d h h' := by
    cases h
    cases h'
    rfl

/-- Number 4 is not open, but it is what the `dup` of 3 returns. -/
theorem closedNumber_passes :
    (fourOpen.duplicateFds lowestFree [3, 4]).1 = [4, 5] ∧
      ¬ AllOrNothing fourOpen [3, 4] (fourOpen.duplicateFds lowestFree [3, 4]) := by
  refine ⟨by decide, ?_⟩
  rintro (hall | ⟨hnone, -⟩)
  · obtain ⟨files, hfiles, -⟩ := hall.sameFile
    have hmem := hfiles.mem 4 (by decide)
    revert hmem
    decide
  · revert hnone
    decide

/-! ### The calls of the epoll backend -/

def Answers.dups (answers : Answers table) (fds : List Fd) : List (Option Nat) :=
  (List.range fds.length).map (answers.returned fds)

theorem Answers.dups_join (answers : Answers table) (fds : List Fd) :
    (fun n => ((answers.dups fds)[n]?).join) = answers.returned fds := by
  funext n
  by_cases hn : n < fds.length
  · simp [dups, hn]
  · simp [dups, returned, hn]

theorem installDuplicates_duplicateFds (table : DescriptorTable) (answers : Answers table)
    (fds : List Fd) :
    installDuplicates table fds (table.duplicateFds answers fds).1 =
      some (table.duplicateFds answers fds).2 := by
  by_cases h : ∃ n, answers.StopsAt fds n
  · rw [duplicateFds_of_stops h]
    cases fds <;> rfl
  · exact (duplicateFds_of_not_stops h).2.2

theorem duplicatedFds_returned (table : DescriptorTable) (answers : Answers table)
    (fds : List Fd) :
    (Lmnet.duplicateFds (answers.returned fds) fds).duplicatedFds =
      (table.duplicateFds answers fds).1 := by
  obtain ⟨dupFds, installed, -, -, -, hout⟩ := duplicateFds_replays table answers fds
  rw [hout]

/-- A call on the channel with numbers that are open leaves the table that `DuplicateFds`
leaves. -/
theorem transfer_call_table (sender : Epoll.Sender) (s : Epoll.Transfer) (c : Epoll.SendCall)
    (answers : Answers s.table) (hopen : ∀ fd ∈ c.fds, fd ∈ s.table) :
    ∃ t, s.call sender c (answers.dups c.fds) = some t ∧
      t.table = (duplicateFds s.table answers c.fds).2 := by
  obtain ⟨files, hfiles⟩ := exists_refers hopen
  simp only [Epoll.Transfer.call, Answers.dups_join, duplicatedFds_returned,
    Epoll.openFiles_of_refers hfiles, installDuplicates_duplicateFds]
  cases hresult :
      (Epoll.sendOutcome sender c (duplicateFds s.table answers c.fds).1).result with
  | true => exact ⟨_, rfl, rfl⟩
  | false =>
    refine ⟨s, rfl, ?_⟩
    have hback := cleanupFds_duplicateFds s.table answers c.fds
    rcases Epoll.sendOutcome_refused hresult with hnil | hnil
    · rw [hnil]
      rfl
    · rw [hnil] at hback
      exact hback.symm

end DescriptorTable

end Lmnet.Linux
