import Lmnet.Epoll.DescriptorTransfer

/-!
What becomes of the descriptors that arrive at one end of the epoll backend: the rounds of
`HandleReceive`, the tasks they queue, and the descriptor table of the process. Other
threads set and destroy listeners, make and remove sessions, and open and close files
between any two steps.
-/

set_option autoImplicit false

namespace Lmnet.Epoll

inductive UnixEnd where
  | server | client
  deriving DecidableEq, Repr

structure ControlMessage where
  isRights : Bool
  fds : List Fd
  deriving DecidableEq, Repr

/-- The loop over the control messages. The kernel has opened just these descriptors. -/
def receivedFds (control : List ControlMessage) : List Fd :=
  control.flatMap fun cmsg => if cmsg.isRights then cmsg.fds else []

/-- How far a round of `HandleReceive` has got: it has read something; it has found a
listener; it has a session. -/
inductive ReceiveRound where
  | idle
  | read (fd : Fd) (bytes : List UInt8) (control : List ControlMessage)
  | extracted (fd : Fd) (dataBuffer : Option (List UInt8)) (fds : List Fd)
  | found (fd : Fd) (dataBuffer : Option (List UInt8)) (fds : List Fd)
  deriving DecidableEq, Repr

def ReceiveRound.fds : ReceiveRound → List Fd
  | .idle => []
  | .read _ _ control => receivedFds control
  | .extracted _ _ fds | .found _ _ fds => fds

structure ReceiveTask where
  listenerWeak : Option Nat
  fd : Fd
  dataBuffer : Option (List UInt8)
  fds : List Fd
  deriving DecidableEq, Repr

inductive ReceiveCall where
  | onReceive (fd : Fd) (buffer : List UInt8)
  | onReceiveUnixMessage (fd : Fd) (data : Option (List UInt8)) (fds : List Fd)
  deriving DecidableEq, Repr

def ReceiveCall.fds : ReceiveCall → List Fd
  | .onReceive _ _ => []
  | .onReceiveUnixMessage _ _ fds => fds

/-- The common body of `ProcessServerMessage` and `ProcessClientMessage` for a listener
that is there: its calls, and the descriptors given to `CleanupFds`. -/
def processMessage (fd : Fd) (buffer : Option (List UInt8)) (fds : List Fd) :
    List ReceiveCall × List Fd :=
  let isPlaceholder := !fds.isEmpty && buffer == some [0]
  let data :=
    match buffer with
    | none => []
    | some bytes => if !isPlaceholder && !bytes.isEmpty then [.onReceive fd bytes] else []
  if !isPlaceholder || !fds.isEmpty then
    (data ++ [.onReceiveUnixMessage fd (if isPlaceholder then none else buffer) fds], [])
  else (data, fds)

/-- `table` are the open descriptors of the process, each with a number of its own, of which
`opened` have been given out. `installed` are those that came with a message, `handed` those
that went to `OnReceiveUnixMessage`, and `closed` those the library has closed. -/
structure DescriptorReceiver where
  listeners : List Bool
  listener : Option Nat
  sessions : List Fd
  round : ReceiveRound
  tasks : List ReceiveTask
  calls : List ReceiveCall
  table : FdMap File
  opened : Nat
  installed : List File
  handed : List File
  closed : List File

inductive ReceiveAct where
  | newListener
  | setListener (listener : Option Nat)
  | destroyListener (listener : Nat)
  | addSession (fd : Fd)
  | removeSession (fd : Fd)
  | openFile (fd : Fd)
  | closeFile (fd : Fd)
  | recvmsg (fd : Fd) (bytes : List UInt8) (control : List ControlMessage)
  | checkListener
  | findSession
  | enqueueTask (accepted : Bool)
  | runTask
  deriving DecidableEq, Repr

def filesOf (table : FdMap File) (fds : List Fd) : List File := fds.filterMap table.lookup

namespace DescriptorReceiver

def created : DescriptorReceiver := ⟨[], none, [], .idle, [], [], ∅, 0, [], [], []⟩

def expired (s : DescriptorReceiver) : Option Nat → Bool
  | none => true
  | some listener => s.listeners[listener]? != some true

def waitingFds (s : DescriptorReceiver) : List Fd := s.round.fds ++ s.tasks.flatMap ReceiveTask.fds

def waiting (s : DescriptorReceiver) : List File := filesOf s.table s.waitingFds

/-- The kernel opens a descriptor under a number that is free. -/
def openFd (s : DescriptorReceiver) (fd : Fd) : Option DescriptorReceiver :=
  if 0 ≤ fd ∧ fd ∉ s.table then
    some { s with table := s.table.insert fd s.opened, opened := s.opened + 1 }
  else none

def install (s : DescriptorReceiver) : List Fd → Option DescriptorReceiver
  | [] => some s
  | fd :: fds =>
      (s.openFd fd).bind fun t => install { t with installed := s.installed ++ [s.opened] } fds

def recvmsg (s : DescriptorReceiver) (fd : Fd) (bytes : List UInt8)
    (control : List ControlMessage) : Option DescriptorReceiver :=
  if s.round = .idle ∧ bytes ≠ [] then
    (s.install (receivedFds control)).map fun t => { t with round := .read fd bytes control }
  else none

def checkListener (s : DescriptorReceiver) : Option DescriptorReceiver :=
  match s.round with
  | .read fd bytes control =>
      if s.expired s.listener then some { s with round := .idle }
      else
        let fds := receivedFds control
        let isPlaceholder := !fds.isEmpty && bytes == [0]
        some { s with round := .extracted fd (if isPlaceholder then none else some bytes) fds }
  | _ => none

def findSession (unixEnd : UnixEnd) (s : DescriptorReceiver) : Option DescriptorReceiver :=
  match s.round with
  | .extracted fd dataBuffer fds =>
      if unixEnd = .client ∨ fd ∈ s.sessions then some { s with round := .found fd dataBuffer fds }
      else some { s with round := .idle }
  | _ => none

/-- Without a queue, or one that does not accept the task, the task is destroyed. -/
def enqueueTask (s : DescriptorReceiver) (accepted : Bool) : Option DescriptorReceiver :=
  match s.round with
  | .found fd dataBuffer fds =>
      some { s with
        round := .idle
        tasks := s.tasks ++ if accepted then [⟨s.listener, fd, dataBuffer, fds⟩] else [] }
  | _ => none

def cleanup (s : DescriptorReceiver) (fds : List Fd) : DescriptorReceiver :=
  { s with
    table := closeAll s.table (cleanupFds fds)
    closed := s.closed ++ filesOf s.table (cleanupFds fds) }

def process (s : DescriptorReceiver) (task : ReceiveTask) : DescriptorReceiver :=
  if s.expired task.listenerWeak then s.cleanup task.fds
  else
    let (calls, fds) := processMessage task.fd task.dataBuffer task.fds
    { s.cleanup fds with
      calls := s.calls ++ calls
      handed := s.handed ++ filesOf s.table (calls.flatMap ReceiveCall.fds) }

def runTask (s : DescriptorReceiver) : Option DescriptorReceiver :=
  match s.tasks with
  | [] => none
  | task :: rest => some ({ s with tasks := rest }.process task)

/-- Other code closes no descriptor that a round or a task holds, which it has not heard of. -/
def step (unixEnd : UnixEnd) (s : DescriptorReceiver) : ReceiveAct → Option DescriptorReceiver
  | .newListener => some { s with listeners := s.listeners ++ [true] }
  | .setListener listener =>
      if listener.isNone || !s.expired listener then some { s with listener := listener } else none
  | .destroyListener listener => some { s with listeners := s.listeners.set listener false }
  | .addSession fd => some { s with sessions := fd :: s.sessions }
  | .removeSession fd => some { s with sessions := s.sessions.filter (· ≠ fd) }
  | .openFile fd => s.openFd fd
  | .closeFile fd =>
      if fd ∈ s.waitingFds then none else some { s with table := s.table.erase fd }
  | .recvmsg fd bytes control => s.recvmsg fd bytes control
  | .checkListener => s.checkListener
  | .findSession => s.findSession unixEnd
  | .enqueueTask accepted => s.enqueueTask accepted
  | .runTask => s.runTask

def machine (unixEnd : UnixEnd) : Machine DescriptorReceiver ReceiveAct where
  init s := s = created
  step := step unixEnd

/-- Every descriptor that came with a message is still held by a round or a task, or was
handed to one `OnReceiveUnixMessage`, or was closed once. -/
def NoneLost (s : DescriptorReceiver) : Prop :=
  ∀ file ∈ s.installed, s.waiting.count file + s.handed.count file + s.closed.count file = 1

/-- Where a round that has got descriptors looks for its listener it finds one, where it
looks for the session it finds that, and its task is accepted. -/
def GoesOn (unixEnd : UnixEnd) (s : DescriptorReceiver) : ReceiveAct → Prop
  | .checkListener => ∀ fd bytes control, s.round = .read fd bytes control →
      receivedFds control ≠ [] → s.expired s.listener = false
  | .findSession => ∀ fd dataBuffer fds, s.round = .extracted fd dataBuffer fds → fds ≠ [] →
      unixEnd = .client ∨ fd ∈ s.sessions
  | .enqueueTask accepted => ∀ fd dataBuffer fds, s.round = .found fd dataBuffer fds →
      fds ≠ [] → accepted = true
  | _ => True

end DescriptorReceiver

/-- Whatever the data is, all descriptors go to the one `OnReceiveUnixMessage`. -/
theorem processMessage_fds (fd : Fd) (buffer : Option (List UInt8)) (fds : List Fd) :
    (processMessage fd buffer fds).1.flatMap ReceiveCall.fds = fds ∧
      (processMessage fd buffer fds).2 = [] := by
  unfold processMessage
  cases hempty : fds.isEmpty with
  | true =>
    rw [List.isEmpty_iff] at hempty
    subst hempty
    cases buffer with
    | none => simp [ReceiveCall.fds]
    | some bytes => cases bytes <;> simp [ReceiveCall.fds]
  | false =>
    cases buffer with
    | none => simp [ReceiveCall.fds]
    | some bytes =>
      dsimp only
      generalize (!false && some bytes == some [0]) = isPlaceholder
      cases isPlaceholder <;> cases bytes <;> simp [ReceiveCall.fds]

section Files

variable {table table' : FdMap File} {fds fds' : List Fd}

theorem filesOf_append : filesOf table (fds ++ fds') = filesOf table fds ++ filesOf table fds' :=
  List.filterMap_append

theorem filesOf_congr (h : ∀ fd ∈ fds, table'.lookup fd = table.lookup fd) :
    filesOf table' fds = filesOf table fds :=
  List.filterMap_congr h

theorem exists_filesOf {fd : Fd} (hfd : fd ∈ fds) (h : (table.lookup fd).isSome) :
    ∃ file, file ∈ filesOf table fds := by
  obtain ⟨file, hfile⟩ := Option.isSome_iff_exists.mp h
  exact ⟨file, List.mem_filterMap.mpr ⟨fd, hfd, hfile⟩⟩

end Files

structure HeldFds (fds : List Fd) (table : FdMap File) (opened : Nat) (installed : List File) :
    Prop where
  nonneg : ∀ fd ∈ fds, 0 ≤ fd
  nodup : fds.Nodup
  isOpen : ∀ fd ∈ fds, (table.lookup fd).isSome
  fresh : ∀ fd file, table.lookup fd = some file → file < opened
  installed_lt : ∀ file ∈ installed, file < opened
  once : installed.Nodup

namespace HeldFds

variable {fds fds' : List Fd} {table table' : FdMap File} {opened : Nat} {installed : List File}

theorem shrink (h : HeldFds fds table opened installed) (hnodup : fds'.Nodup) (hsub : fds' ⊆ fds)
    (hkeep : ∀ fd ∈ fds', table'.lookup fd = table.lookup fd)
    (hless : ∀ fd file, table'.lookup fd = some file → table.lookup fd = some file) :
    HeldFds fds' table' opened installed where
  nonneg fd hfd := h.nonneg fd (hsub hfd)
  nodup := hnodup
  isOpen fd hfd := by
    rw [hkeep fd hfd]
    exact h.isOpen fd (hsub hfd)
  fresh fd file hfile := h.fresh fd file (hless fd file hfile)
  installed_lt := h.installed_lt
  once := h.once

theorem perm (h : HeldFds fds table opened installed) (hperm : fds.Perm fds') :
    HeldFds fds' table opened installed :=
  h.shrink (hperm.nodup_iff.mp h.nodup) hperm.symm.subset (fun _ _ => rfl) fun _ _ h => h

theorem openFd (h : HeldFds fds table opened installed) (fd : Fd) :
    HeldFds fds (table.insert fd opened) (opened + 1) installed where
  nonneg := h.nonneg
  nodup := h.nodup
  isOpen x hx := by
    by_cases he : x = fd
    · rw [he, AList.lookup_insert]
      rfl
    · rw [AList.lookup_insert_ne he]
      exact h.isOpen x hx
  fresh x file hfile := by
    rcases AList.lookup_insert_cases hfile with ⟨-, rfl⟩ | ⟨-, hfile⟩
    · exact Nat.lt_succ_self _
    · exact Nat.lt_succ_of_lt (h.fresh x file hfile)
  installed_lt file hfile := Nat.lt_succ_of_lt (h.installed_lt file hfile)
  once := h.once

theorem receive (h : HeldFds fds table opened installed) {fd : Fd} (hpos : 0 ≤ fd)
    (hnew : fd ∉ table) :
    HeldFds (fd :: fds) (table.insert fd opened) (opened + 1) (installed ++ [opened]) := by
  have hopened := h.openFd fd
  have hnone : table.lookup fd = none := AList.lookup_eq_none.mpr hnew
  refine ⟨?_, ?_, ?_, hopened.fresh, ?_, ?_⟩
  · exact List.forall_mem_cons.mpr ⟨hpos, h.nonneg⟩
  · refine List.nodup_cons.mpr ⟨fun hfd => ?_, h.nodup⟩
    have hsome := h.isOpen fd hfd
    rw [hnone] at hsome
    cases hsome
  · refine List.forall_mem_cons.mpr ⟨?_, hopened.isOpen⟩
    rw [AList.lookup_insert]
    rfl
  · intro file hfile
    obtain hfile | hfile := List.mem_append.mp hfile
    · exact hopened.installed_lt file hfile
    · rw [List.mem_singleton.mp hfile]
      exact Nat.lt_succ_self _
  · refine List.nodup_append'.mpr ⟨h.once, List.nodup_singleton _, fun file hfile hlast => ?_⟩
    have hlt := h.installed_lt file hfile
    rw [List.mem_singleton.mp hlast] at hlt
    exact Nat.lt_irrefl _ hlt

end HeldFds

theorem lookup_of_closeAll {table : FdMap File} {fds : List Fd} {fd : Fd} {file : File}
    (h : (closeAll table fds).lookup fd = some file) : table.lookup fd = some file := by
  induction fds generalizing table with
  | nil => exact h
  | cons x fds ih =>
    have herased : (table.erase x).lookup fd = some file := ih h
    exact (AList.lookup_of_lookup_erase herased).2

namespace DescriptorReceiver

def total (s : DescriptorReceiver) (file : File) : Nat :=
  s.waiting.count file + s.handed.count file + s.closed.count file

def lost (unixEnd : UnixEnd) (s : DescriptorReceiver) : ReceiveAct → List Fd
  | .checkListener => if s.expired s.listener then s.round.fds else []
  | .findSession =>
      match s.round with
      | .extracted fd _ fds => if unixEnd = .client ∨ fd ∈ s.sessions then [] else fds
      | _ => []
  | .enqueueTask accepted => if accepted then [] else s.round.fds
  | _ => []

structure Sound (s : DescriptorReceiver) : Prop where
  held : HeldFds s.waitingFds s.table s.opened s.installed
  total_le : ∀ file, s.total file ≤ s.installed.count file

structure Accounts (s s' : DescriptorReceiver) (lost : List Fd) (new : List File) : Prop where
  held : HeldFds s'.waitingFds s'.table s'.opened s'.installed
  installed : s'.installed = s.installed ++ new
  total : ∀ file, s'.total file + (filesOf s.table lost).count file =
    s.total file + new.count file

theorem accounts_of_perm {s s' : DescriptorReceiver} {lost : List Fd}
    (h : HeldFds s.waitingFds s.table s.opened s.installed)
    (hperm : (s'.waitingFds ++ lost).Perm s.waitingFds)
    (hkeep : ∀ fd ∈ s'.waitingFds, s'.table.lookup fd = s.table.lookup fd)
    (hless : ∀ fd file, s'.table.lookup fd = some file → s.table.lookup fd = some file)
    (hopened : s'.opened = s.opened) (hinstalled : s'.installed = s.installed)
    (hhanded : s'.handed = s.handed) (hclosed : s'.closed = s.closed) :
    Accounts s s' lost [] := by
  have hnodup := hperm.nodup_iff.mpr h.nodup
  refine ⟨?_, by rw [hinstalled, List.append_nil], fun file => ?_⟩
  · rw [hopened, hinstalled]
    exact h.shrink (List.nodup_append'.mp hnodup).1
      (fun fd hfd => hperm.subset (List.mem_append_left lost hfd)) hkeep hless
  · have hfiles := (hperm.filterMap s.table.lookup).count_eq file
    rw [List.filterMap_append, List.count_append] at hfiles
    have hsame := filesOf_congr hkeep
    simp only [total, waiting, hsame, hhanded, hclosed, List.count_nil]
    simp only [filesOf] at hfiles ⊢
    omega

theorem install_spec {s t : DescriptorReceiver} {fds held : List Fd} (h : s.install fds = some t)
    (hheld : HeldFds held s.table s.opened s.installed) :
    t.tasks = s.tasks ∧ t.handed = s.handed ∧ t.closed = s.closed ∧
      (∀ fd ∈ held, t.table.lookup fd = s.table.lookup fd) ∧
      t.installed = s.installed ++ filesOf t.table fds ∧
      HeldFds (fds ++ held) t.table t.opened t.installed := by
  induction fds generalizing s held with
  | nil =>
    cases h
    exact ⟨rfl, rfl, rfl, fun _ _ => rfl, (List.append_nil _).symm, hheld⟩
  | cons fd fds ih =>
    obtain ⟨u, hopen, hrest⟩ := Option.bind_eq_some_iff.mp h
    unfold openFd at hopen
    split at hopen
    · rename_i hnew
      cases hopen
      obtain ⟨htasks, hhanded, hclosed, hkeep, hinstalled, hheld'⟩ :=
        ih hrest (hheld.receive hnew.1 hnew.2)
      have hfirst := hkeep fd List.mem_cons_self
      rw [AList.lookup_insert] at hfirst
      refine ⟨htasks, hhanded, hclosed, fun x hx => ?_, ?_, ?_⟩
      · rw [hkeep x (List.mem_cons_of_mem fd hx)]
        refine AList.lookup_insert_ne fun he => ?_
        have hsome := hheld.isOpen x hx
        rw [he, AList.lookup_eq_none.mpr hnew.2] at hsome
        cases hsome
      · have hcons : filesOf t.table (fd :: fds) = s.opened :: filesOf t.table fds := by
          simp [filesOf, hfirst]
        rw [hinstalled, hcons, List.append_assoc]
        rfl
      · exact hheld'.perm List.perm_middle
    · cases hopen

variable {unixEnd : UnixEnd} {s s' : DescriptorReceiver}

theorem openFd_accounts (h : HeldFds s.waitingFds s.table s.opened s.installed) {fd : Fd}
    (hs : s.openFd fd = some s') : Accounts s s' [] [] := by
  unfold openFd at hs
  split at hs
  · rename_i hnew
    cases hs
    refine ⟨h.openFd fd, (List.append_nil _).symm, fun file => ?_⟩
    have hsame : filesOf (s.table.insert fd s.opened) s.waitingFds = s.waiting := by
      refine filesOf_congr fun x hx => AList.lookup_insert_ne fun he => ?_
      have hsome := h.isOpen x hx
      rw [he, AList.lookup_eq_none.mpr hnew.2] at hsome
      cases hsome
    show (filesOf (s.table.insert fd s.opened) s.waitingFds).count file + _ + _ + _ = _
    rw [hsame]
    rfl
  · cases hs

theorem recvmsg_accounts (h : HeldFds s.waitingFds s.table s.opened s.installed) {fd : Fd}
    {bytes : List UInt8} {control : List ControlMessage}
    (hs : s.recvmsg fd bytes control = some s') : ∃ new, Accounts s s' [] new := by
  unfold recvmsg at hs
  split at hs
  · rename_i hidle
    obtain ⟨t, hinstall, rfl⟩ := Option.map_eq_some_iff.mp hs
    have hwaiting : s.waitingFds = s.tasks.flatMap ReceiveTask.fds := by
      simp [waitingFds, hidle.1, ReceiveRound.fds]
    obtain ⟨htasks, hhanded, hclosed, hkeep, hinstalled, hheld⟩ := install_spec hinstall h
    have hwaiting' : ({ t with round := .read fd bytes control } :
        DescriptorReceiver).waitingFds = receivedFds control ++ s.waitingFds := by
      rw [hwaiting, ← htasks]
      rfl
    refine ⟨filesOf t.table (receivedFds control), ?_, hinstalled, fun file => ?_⟩
    · rw [hwaiting']
      exact hheld
    · have hfiles : ({ t with round := .read fd bytes control } : DescriptorReceiver).waiting =
          filesOf t.table (receivedFds control) ++ s.waiting := by
        rw [waiting, hwaiting']
        exact filesOf_append.trans (congrArg (_ ++ ·) (filesOf_congr hkeep))
      rw [total, hfiles, List.count_append, total]
      simp only [hhanded, hclosed, filesOf, List.filterMap_nil, List.count_nil]
      omega
  · cases hs

theorem checkListener_accounts (h : HeldFds s.waitingFds s.table s.opened s.installed)
    (hs : s.checkListener = some s') :
    Accounts s s' (lost unixEnd s .checkListener) [] := by
  unfold checkListener at hs
  split at hs
  · rename_i fd bytes control hround
    split at hs
    · rename_i hexpired
      cases hs
      refine accounts_of_perm h ?_ (fun _ _ => rfl) (fun _ _ h => h) rfl rfl rfl rfl
      simpa [lost, hexpired, waitingFds, ReceiveRound.fds] using List.perm_append_comm
    · rename_i hlistening
      cases hs
      refine accounts_of_perm h ?_ (fun _ _ => rfl) (fun _ _ h => h) rfl rfl rfl rfl
      simp [lost, hlistening, waitingFds, hround, ReceiveRound.fds]
  · cases hs

theorem findSession_accounts (h : HeldFds s.waitingFds s.table s.opened s.installed)
    (hs : s.findSession unixEnd = some s') :
    Accounts s s' (lost unixEnd s .findSession) [] := by
  unfold findSession at hs
  split at hs
  · rename_i fd dataBuffer fds hround
    split at hs
    · rename_i hfound
      cases hs
      refine accounts_of_perm h ?_ (fun _ _ => rfl) (fun _ _ h => h) rfl rfl rfl rfl
      simp [lost, hround, hfound, waitingFds, ReceiveRound.fds]
    · rename_i hgone
      cases hs
      refine accounts_of_perm h ?_ (fun _ _ => rfl) (fun _ _ h => h) rfl rfl rfl rfl
      simpa [lost, hround, hgone, waitingFds, ReceiveRound.fds] using List.perm_append_comm
  · cases hs

theorem enqueueTask_accounts (h : HeldFds s.waitingFds s.table s.opened s.installed)
    {accepted : Bool} (hs : s.enqueueTask accepted = some s') :
    Accounts s s' (lost unixEnd s (.enqueueTask accepted)) [] := by
  unfold enqueueTask at hs
  split at hs
  · rename_i fd dataBuffer fds hround
    cases hs
    refine accounts_of_perm h ?_ (fun _ _ => rfl) (fun _ _ h => h) rfl rfl rfl rfl
    cases accepted <;>
      simpa [lost, hround, waitingFds, ReceiveRound.fds] using List.perm_append_comm
  · cases hs

theorem runTask_accounts (h : HeldFds s.waitingFds s.table s.opened s.installed)
    (hs : s.runTask = some s') : Accounts s s' [] [] := by
  unfold runTask at hs
  split at hs
  · cases hs
  · rename_i task rest htasks
    cases hs
    have hperm : s.waitingFds.Perm (task.fds ++ (s.round.fds ++ rest.flatMap ReceiveTask.fds)) := by
      rw [waitingFds, htasks, List.flatMap_cons]
      exact List.perm_append_comm_assoc _ _ _
    have hnodup := List.nodup_append'.mp (hperm.nodup_iff.mp h.nodup)
    have hcount : ∀ file, s.waiting.count file = (filesOf s.table task.fds).count file +
        (filesOf s.table (s.round.fds ++ rest.flatMap ReceiveTask.fds)).count file := by
      intro file
      rw [waiting, filesOf, (hperm.filterMap s.table.lookup).count_eq, List.filterMap_append,
        List.count_append]
      rfl
    have hsub : s.round.fds ++ rest.flatMap ReceiveTask.fds ⊆ s.waitingFds := fun fd hfd =>
      hperm.symm.subset (List.mem_append_right _ hfd)
    cases hexpired : s.expired task.listenerWeak with
    | true =>
      have hclean : cleanupFds task.fds = task.fds :=
        cleanupFds_eq fun fd hfd => h.nonneg fd (hperm.symm.subset (List.mem_append_left _ hfd))
      have hkeep : ∀ fd ∈ s.round.fds ++ rest.flatMap ReceiveTask.fds,
          (closeAll s.table task.fds).lookup fd = s.table.lookup fd := fun fd hfd =>
        closeAll_lookup fun hclosed => hnodup.2.2 hclosed hfd
      have hprocess : ({ s with tasks := rest } : DescriptorReceiver).process task =
          ({ s with tasks := rest } : DescriptorReceiver).cleanup task.fds := by
        have hsame : ({ s with tasks := rest } : DescriptorReceiver).expired task.listenerWeak =
            true := hexpired
        rw [process, if_pos hsame]
      rw [hprocess]
      refine ⟨?_, (List.append_nil _).symm, fun file => ?_⟩
      · simp only [cleanup, hclean]
        exact h.shrink hnodup.2.1 hsub hkeep fun _ _ => lookup_of_closeAll
      · have hfile := hcount file
        have hsame := filesOf_congr hkeep
        simp only [total, waiting, cleanup, hclean, waitingFds, hsame, List.count_append]
        simp only [waiting, waitingFds] at hfile
        simp only [filesOf, List.filterMap_nil, List.count_nil] at hfile ⊢
        omega
    | false =>
      obtain ⟨hcalls, hnone⟩ := processMessage_fds task.fd task.dataBuffer task.fds
      have hprocess : ({ s with tasks := rest } : DescriptorReceiver).process task =
          { s with
            tasks := rest
            calls := s.calls ++ (processMessage task.fd task.dataBuffer task.fds).1
            handed := s.handed ++ filesOf s.table task.fds } := by
        have hsame : ({ s with tasks := rest } : DescriptorReceiver).expired task.listenerWeak =
            false := hexpired
        rw [process, if_neg (by simp [hsame])]
        simp [hcalls, hnone, cleanup, cleanupFds, closeAll, filesOf]
      rw [hprocess]
      refine ⟨?_, (List.append_nil _).symm, fun file => ?_⟩
      · exact h.shrink hnodup.2.1 hsub (fun _ _ => rfl) fun _ _ h => h
      · have hfile := hcount file
        simp only [total, waiting, waitingFds, List.count_append] at hfile ⊢
        simp only [filesOf, List.filterMap_nil, List.count_nil] at hfile ⊢
        omega

theorem step_accounts (h : HeldFds s.waitingFds s.table s.opened s.installed) {a : ReceiveAct}
    (hs : s.step unixEnd a = some s') : ∃ new, Accounts s s' (lost unixEnd s a) new := by
  cases a with
  | newListener | destroyListener | addSession | removeSession =>
    cases hs
    exact ⟨[], accounts_of_perm h (by simp [lost, waitingFds]) (fun _ _ => rfl) (fun _ _ h => h)
      rfl rfl rfl rfl⟩
  | setListener listener =>
    simp only [step] at hs
    split at hs
    · cases hs
      exact ⟨[], accounts_of_perm h (by simp [lost, waitingFds]) (fun _ _ => rfl) (fun _ _ h => h)
        rfl rfl rfl rfl⟩
    · cases hs
  | openFile fd => exact ⟨[], openFd_accounts h hs⟩
  | closeFile fd =>
    simp only [step] at hs
    split at hs
    · cases hs
    · rename_i hfree
      cases hs
      refine ⟨[], accounts_of_perm h (by simp [lost, waitingFds]) (fun x hx => ?_)
        (fun x file hx => ?_) rfl rfl rfl rfl⟩
      · exact AList.lookup_erase_ne fun he => hfree (he ▸ hx)
      · have hclosed : (closeAll s.table [fd]).lookup x = some file := hx
        exact lookup_of_closeAll hclosed
  | recvmsg fd bytes control => exact recvmsg_accounts h hs
  | checkListener => exact ⟨[], checkListener_accounts h hs⟩
  | findSession => exact ⟨[], findSession_accounts h hs⟩
  | enqueueTask accepted => exact ⟨[], enqueueTask_accounts h hs⟩
  | runTask => exact ⟨[], runTask_accounts h hs⟩

theorem lost_subset {a : ReceiveAct} : lost unixEnd s a ⊆ s.waitingFds := by
  intro fd hfd
  refine List.mem_append_left _ ?_
  cases a with
  | checkListener =>
    simp only [lost] at hfd
    split at hfd
    · exact hfd
    · cases hfd
  | findSession =>
    simp only [lost] at hfd
    split at hfd
    · rename_i hround
      rw [hround]
      split at hfd
      · cases hfd
      · exact hfd
    · cases hfd
  | enqueueTask accepted =>
    simp only [lost] at hfd
    split at hfd
    · cases hfd
    · exact hfd
  | _ => cases hfd

theorem goesOn_iff_lost {a : ReceiveAct} (hs : s.step unixEnd a = some s') :
    GoesOn unixEnd s a ↔ lost unixEnd s a = [] := by
  cases a with
  | checkListener =>
    simp only [step, checkListener] at hs
    split at hs
    · rename_i fd bytes control hround
      simp only [GoesOn, lost, hround, ReceiveRound.fds]
      cases hexpired : s.expired s.listener <;> simp
    · cases hs
  | findSession =>
    simp only [step, findSession] at hs
    split at hs
    · rename_i fd dataBuffer fds hround
      simp only [GoesOn, lost, hround]
      by_cases hfound : unixEnd = .client ∨ fd ∈ s.sessions <;> simp [hfound]
    · cases hs
  | enqueueTask accepted =>
    simp only [step, enqueueTask] at hs
    split at hs
    · rename_i fd dataBuffer fds hround
      simp only [GoesOn, lost, hround, ReceiveRound.fds]
      cases accepted <;> simp
    · cases hs
  | _ => simp [GoesOn, lost]

theorem created_sound : created.Sound where
  held := by constructor <;> simp [created, waitingFds, ReceiveRound.fds]
  total_le := by simp [total, waiting, filesOf, waitingFds, created, ReceiveRound.fds]

theorem Sound.step (h : s.Sound) {a : ReceiveAct} (hs : s.step unixEnd a = some s') :
    s'.Sound := by
  obtain ⟨new, haccounts⟩ := step_accounts h.held hs
  refine ⟨haccounts.held, fun file => ?_⟩
  have htotal := haccounts.total file
  have hle := h.total_le file
  rw [haccounts.installed, List.count_append]
  omega

theorem Sound.noneLost_iff (h : s.Sound) :
    s.NoneLost ↔ ∀ file, s.total file = s.installed.count file := by
  constructor
  · intro hnone file
    by_cases hfile : file ∈ s.installed
    · rw [List.count_eq_one_of_mem h.held.once hfile]
      exact hnone file hfile
    · have hle := h.total_le file
      rw [List.count_eq_zero.mpr hfile] at hle ⊢
      omega
  · intro hall file hfile
    rw [← List.count_eq_one_of_mem h.held.once hfile]
    exact hall file

/-- A step that goes on loses nothing, and what is lost before it or in it stays lost. -/
theorem Sound.noneLost_step (h : s.Sound) {a : ReceiveAct} (hs : s.step unixEnd a = some s') :
    s'.NoneLost ↔ s.NoneLost ∧ GoesOn unixEnd s a := by
  rw [(h.step hs).noneLost_iff, h.noneLost_iff, goesOn_iff_lost hs]
  obtain ⟨new, haccounts⟩ := step_accounts h.held hs
  have hcount : ∀ file, s'.installed.count file = s.installed.count file + new.count file :=
    fun file => by rw [haccounts.installed, List.count_append]
  constructor
  · intro hall
    have hnone : ∀ file, s.total file = s.installed.count file ∧
        (filesOf s.table (lost unixEnd s a)).count file = 0 := by
      intro file
      have htotal := haccounts.total file
      have hle := h.total_le file
      have hfile := hall file
      rw [hcount file] at hfile
      omega
    refine ⟨fun file => (hnone file).1, ?_⟩
    by_contra hlost
    obtain ⟨fd, hfd⟩ := List.exists_mem_of_ne_nil _ hlost
    have hopen := h.held.isOpen fd (lost_subset hfd)
    obtain ⟨file, hfile⟩ := exists_filesOf hfd hopen
    exact absurd (hnone file).2 (Nat.ne_of_gt (List.count_pos_iff.mpr hfile))
  · rintro ⟨hall, hlost⟩ file
    have htotal := haccounts.total file
    rw [hlost] at htotal
    simp only [filesOf, List.filterMap_nil, List.count_nil] at htotal
    have hfile := hall file
    rw [hcount file]
    omega

theorem noneLost_iff_goesOn {t : DescriptorReceiver} {as : List ReceiveAct}
    (h : (machine unixEnd).run created as = some t) :
    t.NoneLost ↔ (machine unixEnd).Every (fun s a _ => GoesOn unixEnd s a) created as := by
  have hiff := (machine unixEnd).final_iff_every (I := Sound) (Q := NoneLost)
    (C := fun s a _ => GoesOn unixEnd s a) (fun _ _ _ hs hstep => hs.step hstep)
    (fun _ _ _ hs hstep => hs.noneLost_step hstep) created_sound h
  have hcreated : created.NoneLost := fun file hfile => nomatch hfile
  rw [hiff, and_iff_right hcreated]

def listenerGoes : List ReceiveAct :=
  [.newListener, .setListener (some 0), .addSession 4, .recvmsg 4 [97] [⟨true, [5, 6]⟩],
    .checkListener, .findSession, .enqueueTask true, .destroyListener 0, .runTask]

theorem noneLost_iff_goesOn_listenerGoes :
    ∃ t, (machine .server).run created listenerGoes = some t ∧ t.closed = [0, 1] ∧
      (t.NoneLost ↔
        (machine .server).Every (fun s a _ => GoesOn .server s a) created listenerGoes) := by
  have hrun : (machine .server).run created listenerGoes = some _ := rfl
  exact ⟨_, hrun, rfl, noneLost_iff_goesOn hrun⟩

/-- A descriptor arrives after the listener has gone. -/
def listenerGone : List ReceiveAct :=
  [.newListener, .setListener (some 0), .addSession 4, .destroyListener 0,
    .recvmsg 4 [97] [⟨true, [5]⟩], .checkListener]

theorem listenerGone_leaks :
    (¬ ∀ t as, (machine .server).run created as = some t → t.NoneLost) ∧
      ¬ ∀ t as, (machine .client).run created as = some t → t.NoneLost := by
  constructor
  · intro hnone
    have hrun : (machine .server).run created listenerGone = some _ := rfl
    exact absurd (hnone _ _ hrun 0 (by decide)) (by decide)
  · intro hnone
    have hrun : (machine .client).run created listenerGone = some _ := rfl
    exact absurd (hnone _ _ hrun 0 (by decide)) (by decide)

end DescriptorReceiver

end Lmnet.Epoll
