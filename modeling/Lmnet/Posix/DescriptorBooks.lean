import Lmnet.Epoll.DescriptorReceive

/-!
The descriptor table of the process with an account of what has come with messages: each
operation moves descriptors from one column to another.
-/

set_option autoImplicit false

namespace Lmnet.Posix

open Epoll (File HeldFds closeAll closeAll_lookup exists_filesOf filesOf filesOf_append
  filesOf_congr lookup_of_closeAll)

/-- Descriptors have numbers of their own, of which `opened` have been given out. Those of
`installed` came with a message, those of `handed` went to a listener, and those of `closed`
the library has closed. -/
structure DescriptorBooks where
  table : FdMap File
  opened : Nat
  installed : List File
  handed : List File
  closed : List File

namespace DescriptorBooks

def empty : DescriptorBooks := ⟨∅, 0, [], [], []⟩

/-- The kernel opens a descriptor under a number that is free. -/
def openFd (b : DescriptorBooks) (fd : Fd) : Option DescriptorBooks :=
  if 0 ≤ fd ∧ fd ∉ b.table then
    some { b with table := b.table.insert fd b.opened, opened := b.opened + 1 }
  else none

def closeFd (b : DescriptorBooks) (fd : Fd) : DescriptorBooks :=
  { b with table := b.table.erase fd }

def install (b : DescriptorBooks) : List Fd → Option DescriptorBooks
  | [] => some b
  | fd :: fds =>
      (b.openFd fd).bind fun c => install { c with installed := b.installed ++ [b.opened] } fds

def cleanup (b : DescriptorBooks) (fds : List Fd) : DescriptorBooks :=
  { b with
    table := closeAll b.table (cleanupFds fds)
    closed := b.closed ++ filesOf b.table (cleanupFds fds) }

def handOver (b : DescriptorBooks) (fds : List Fd) : DescriptorBooks :=
  { b with handed := b.handed ++ filesOf b.table fds }

structure Balanced (b : DescriptorBooks) (held : List Fd) : Prop where
  fds : HeldFds held b.table b.opened b.installed
  total : ∀ file, (filesOf b.table held).count file + b.handed.count file +
    b.closed.count file = b.installed.count file

theorem empty_balanced : empty.Balanced [] where
  fds := by constructor <;> simp [empty]
  total := by simp [empty, filesOf]

variable {b c : DescriptorBooks} {held held' fds : List Fd} {fd : Fd}

theorem count_filesOf_perm {table : FdMap File} (h : held.Perm held') (file : File) :
    (filesOf table held).count file = (filesOf table held').count file :=
  (h.filterMap table.lookup).count_eq file

theorem Balanced.perm (h : b.Balanced held) (hperm : held.Perm held') : b.Balanced held' where
  fds := h.fds.perm hperm
  total file := by
    rw [← count_filesOf_perm hperm]
    exact h.total file

theorem Balanced.ne_of_new (h : b.Balanced held) (hnew : fd ∉ b.table) {x : Fd}
    (hx : x ∈ held) : x ≠ fd := by
  intro he
  have hopen := h.fds.isOpen x hx
  rw [he, AList.lookup_eq_none.mpr hnew] at hopen
  cases hopen

theorem Balanced.lookup_openFd (h : b.Balanced held) (hopen : b.openFd fd = some c) {x : Fd}
    (hx : x ∈ held) : c.table.lookup x = b.table.lookup x := by
  unfold openFd at hopen
  split at hopen
  · rename_i hnew
    cases hopen
    exact AList.lookup_insert_ne (h.ne_of_new hnew.2 hx)
  · cases hopen

theorem Balanced.openFd (h : b.Balanced held) (hopen : b.openFd fd = some c) :
    c.Balanced held := by
  have hkeep := filesOf_congr fun x hx => h.lookup_openFd hopen (x := x) hx
  unfold DescriptorBooks.openFd at hopen
  split at hopen
  · cases hopen
    refine ⟨h.fds.openFd fd, fun file => ?_⟩
    rw [hkeep]
    exact h.total file
  · cases hopen

theorem lookup_closeFd {x : Fd} (hx : x ≠ fd) :
    (b.closeFd fd).table.lookup x = b.table.lookup x :=
  AList.lookup_erase_ne hx

theorem Balanced.closeFd (h : b.Balanced held) (hfd : fd ∉ held) :
    (b.closeFd fd).Balanced held := by
  have hkeep : ∀ x ∈ held, (b.closeFd fd).table.lookup x = b.table.lookup x := fun x hx =>
    lookup_closeFd fun he => hfd (he ▸ hx)
  refine ⟨h.fds.shrink h.fds.nodup (fun _ hx => hx) hkeep fun x file hx => ?_, fun file => ?_⟩
  · have hclosed : (closeAll b.table [fd]).lookup x = some file := hx
    exact lookup_of_closeAll hclosed
  · rw [filesOf_congr hkeep]
    exact h.total file

theorem Balanced.install (h : b.Balanced held) (hinstall : b.install fds = some c) :
    c.Balanced (fds ++ held) ∧ ∀ x ∈ held, c.table.lookup x = b.table.lookup x := by
  induction fds generalizing b held with
  | nil =>
    cases hinstall
    exact ⟨h, fun _ _ => rfl⟩
  | cons fd fds ih =>
    obtain ⟨d, hopen, hrest⟩ := Option.bind_eq_some_iff.mp hinstall
    have hkeep := fun x hx => h.lookup_openFd hopen (x := x) hx
    unfold DescriptorBooks.openFd at hopen
    split at hopen
    · rename_i hnew
      cases hopen
      have hfirst : ({ b with
          table := b.table.insert fd b.opened
          opened := b.opened + 1
          installed := b.installed ++ [b.opened] } : DescriptorBooks).Balanced (fd :: held) := by
        refine ⟨h.fds.receive hnew.1 hnew.2, fun file => ?_⟩
        have hfiles : filesOf (b.table.insert fd b.opened) (fd :: held) =
            b.opened :: filesOf b.table held := by
          rw [← filesOf_congr hkeep]
          simp [filesOf, AList.lookup_insert]
        have htotal := h.total file
        simp only [hfiles, List.count_append, List.count_cons, List.count_nil]
        omega
      obtain ⟨hbalanced, hlookup⟩ := ih hfirst hrest
      refine ⟨hbalanced.perm List.perm_middle, fun x hx => ?_⟩
      exact (hlookup x (List.mem_cons_of_mem fd hx)).trans (hkeep x hx)
    · cases hopen

theorem Balanced.cleanup (h : b.Balanced (fds ++ held)) : (b.cleanup fds).Balanced held := by
  have hnodup := List.nodup_append'.mp h.fds.nodup
  have hclean : cleanupFds fds = fds :=
    cleanupFds_eq fun fd hfd => h.fds.nonneg fd (List.mem_append_left held hfd)
  have hkeep : ∀ fd ∈ held, (b.cleanup fds).table.lookup fd = b.table.lookup fd := by
    intro fd hfd
    simp only [DescriptorBooks.cleanup, hclean]
    exact closeAll_lookup fun hclosed => hnodup.2.2 hclosed hfd
  refine ⟨h.fds.shrink hnodup.2.1 (List.subset_append_right fds held) hkeep
    fun _ _ => lookup_of_closeAll, fun file => ?_⟩
  have htotal := h.total file
  have hfiles := filesOf_congr hkeep
  rw [filesOf_append, List.count_append] at htotal
  rw [hfiles]
  simp only [DescriptorBooks.cleanup, hclean, List.count_append]
  omega

theorem Balanced.handOver (h : b.Balanced (fds ++ held)) : (b.handOver fds).Balanced held := by
  have hnodup := List.nodup_append'.mp h.fds.nodup
  refine ⟨h.fds.shrink hnodup.2.1 (List.subset_append_right fds held) (fun _ _ => rfl)
    fun _ _ hx => hx, fun file => ?_⟩
  have htotal := h.total file
  rw [filesOf_append, List.count_append] at htotal
  simp only [DescriptorBooks.handOver, List.count_append]
  omega

/-- What is in one column is in no other. -/
theorem Balanced.once (h : b.Balanced held) {file : File} (hfile : file ∈ b.installed) :
    (filesOf b.table held).count file + b.handed.count file + b.closed.count file = 1 := by
  rw [h.total, List.count_eq_one_of_mem h.fds.once hfile]

theorem Balanced.of_held (h : b.Balanced held) {file : File}
    (hfile : file ∈ filesOf b.table held) :
    file ∈ b.installed ∧ file ∉ b.handed ∧ file ∉ b.closed := by
  have hpos := List.count_pos_iff.mpr hfile
  have htotal := h.total file
  have hinstalled : file ∈ b.installed := List.count_pos_iff.mp (by omega)
  have honce := h.once hinstalled
  exact ⟨hinstalled, List.count_eq_zero.mp (by omega), List.count_eq_zero.mp (by omega)⟩

end DescriptorBooks

end Lmnet.Posix
