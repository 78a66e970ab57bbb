import Lmnet.Epoll.DescriptorClosing

/-!
Descriptors on their way over a Unix connection of the epoll backend that stays up: the
sender's descriptor table, its send queue, the open files that travel in the stream, and
the lists that `OnReceiveUnixMessage` is called with at the other end.
-/

set_option autoImplicit false

namespace Lmnet.Epoll

/-- An open file of the kernel, which descriptors of several processes may refer to. -/
abbrev File := Nat

/-- A segment of the stream with what its control message carries: the kernel has looked
up the open files. -/
structure Packet (δ : Type) where
  bytes : List WireByte
  rights : List δ
  deriving DecidableEq, Repr

section Receive

variable {δ : Type}

def packets (bytes : List WireByte) (rights : List δ) (head : Nat) : List (Packet δ) :=
  ⟨bytes.take head, rights⟩ :: if head < bytes.length then [⟨bytes.drop head, []⟩] else []

/-- What `recvmsg` returns: it ends with the first segment that carries descriptors. -/
def Packet.take : List (Packet δ) → Nat → List WireByte × List δ × List (Packet δ)
  | [], _ => ([], [], [])
  | p :: rest, n =>
      if n = 0 then ([], [], p :: rest)
      else if n < p.bytes.length then (p.bytes.take n, p.rights, ⟨p.bytes.drop n, []⟩ :: rest)
      else if p.rights.isEmpty then
        (p.bytes ++ (take rest (n - p.bytes.length)).1,
          (take rest (n - p.bytes.length)).2.1, (take rest (n - p.bytes.length)).2.2)
      else (p.bytes, p.rights, rest)

/-- The lists that `OnReceiveUnixMessage` is called with after a read: `HandleReceive`
with what fits its control buffer, and the task it queues. -/
def deliveredLists (bytes : List WireByte) (rights : List δ) : List (List δ) :=
  let receivedFds := rights.take Channel.MAX_FDS_PER_MESSAGE
  let dataBuffer :=
    if !receivedFds.isEmpty && bytes.map WireByte.value == [0] then none else some bytes
  let placeholder := (dataBuffer.map fun b =>
    !receivedFds.isEmpty && b.map WireByte.value == [0]).getD false
  if !placeholder || !receivedFds.isEmpty then [receivedFds] else []

end Receive

def sendOutcome (sender : Sender) (c : SendCall) (duplicatedFds : List Fd) : SendOutcome :=
  match sender, c with
  | .client, .send data =>
      if noData data then ⟨none, [], false⟩ else clientSendWithFds true data [] []
  | .client, .sendFds fds =>
      if fds.isEmpty then ⟨none, [], false⟩ else clientSendWithFds true none fds duplicatedFds
  | .client, .sendWithFds data fds => clientSendWithFds true data fds duplicatedFds
  | .session, .send data =>
      if data.isNone then ⟨none, [], false⟩ else serverSendWithFds true true data [] []
  | .session, .sendFds fds => serverSendWithFds true true none fds duplicatedFds
  | .session, .sendWithFds data fds => serverSendWithFds true true data fds duplicatedFds

def SendCall.fds : SendCall → List Fd
  | .send _ => []
  | .sendFds fds | .sendWithFds _ fds => fds

def installDuplicates (table : FdMap File) : List Fd → List Fd → Option (FdMap File)
  | fd :: fds, dupFd :: dupFds =>
      match table.lookup fd with
      | none => none
      | some file =>
          if dupFd ∈ table then none
          else installDuplicates (table.insert dupFd file) fds dupFds
  | _, _ => some table

def openFiles (table : FdMap File) : List Fd → Option (List File)
  | [] => some []
  | fd :: fds =>
      match table.lookup fd, openFiles table fds with
      | some file, some files => some (file :: files)
      | _, _ => none

def closeAll (table : FdMap File) (fds : List Fd) : FdMap File :=
  fds.foldl (fun t fd => t.erase fd) table

def UnixSendHandler.toSend (s : UnixSendHandler) : List (List Fd) :=
  match s.round with
  | .sent _ _ => s.sendQueue.tail.map PendingSend.control
  | _ => s.sendQueue.map PendingSend.control

inductive TransferAct where
  | openFile (fd : Fd) (file : File)
  | closeFile (fd : Fd)
  | call (c : SendCall) (dups : List (Option Nat))
  | front
  | sendmsg (r : SendmsgReturn) (head : Nat)
  | update
  | recvmsg (n : Nat)
  deriving DecidableEq, Repr

/-- `table` is the sender's. `sent` are the open files behind the lists of the calls that
returned true, and `received` those behind the lists the receiver's listener was given. -/
structure Transfer where
  table : FdMap File
  handler : UnixSendHandler
  stream : List (Packet File)
  sent : List (List File)
  received : List (List File)

namespace Transfer

def connected (table : FdMap File) : Transfer := ⟨table, .created, [], [], []⟩

/-- A call; the duplicates of one that returns false are closed again. -/
def call (sender : Sender) (s : Transfer) (c : SendCall) (dups : List (Option Nat)) :
    Option Transfer :=
  let duplicatedFds := (duplicateFds (fun n => (dups[n]?).join) c.fds).duplicatedFds
  let o := sendOutcome sender c duplicatedFds
  if !o.result then some s
  else
    match openFiles s.table c.fds, installDuplicates s.table c.fds duplicatedFds with
    | some files, some table =>
        some { s with
          table := table, handler := s.handler.sendWithFds o, sent := s.sent ++ [files] }
    | _, _ => none

/-- The kernel looks the descriptors up and keeps the files; the sender closes its own.
The connection stays up: `sendmsg` does not fail, and takes something if it can. -/
def sendmsg (s : Transfer) (r : SendmsgReturn) (head : Nat) : Option Transfer :=
  match s.handler.round, r with
  | .copied p, .wouldBlock =>
      (s.handler.sendmsg p .wouldBlock).map fun handler => { s with handler := handler }
  | .copied p, .bytes n =>
      match s.handler.sendmsg p (.bytes n), openFiles s.table p.control with
      | some handler, some files =>
          if 1 ≤ head ∧ head ≤ n then
            some { s with
              handler := handler
              table := closeAll s.table (cleanupFds p.fds)
              stream := s.stream ++ packets (p.iov.take n) files head }
          else none
      | _, _ => none
  | _, _ => none

/-- The sender's other code closes none of the descriptors that the queue owns. -/
def step (sender : Sender) (s : Transfer) : TransferAct → Option Transfer
  | .openFile fd file =>
      if 0 ≤ fd ∧ fd ∉ s.table then some { s with table := s.table.insert fd file } else none
  | .closeFile fd =>
      if fd ∈ s.handler.toSend.flatten then none else some { s with table := s.table.erase fd }
  | .call c dups => s.call sender c dups
  | .front => s.handler.front.map fun handler => { s with handler := handler }
  | .sendmsg r head => s.sendmsg r head
  | .update => s.handler.update.map fun handler => { s with handler := handler }
  | .recvmsg n =>
      if n = 0 ∨ s.stream = [] then none
      else some { s with
        stream := (Packet.take s.stream n).2.2
        received := s.received ++
          deliveredLists (Packet.take s.stream n).1 (Packet.take s.stream n).2.1 }

def machine (sender : Sender) : Machine Transfer TransferAct where
  init s := ∃ table, s = connected table
  step := step sender

def Drained (s : Transfer) : Prop := s.handler.sendQueue = [] ∧ s.stream = []

end Transfer

section Receive

variable {δ : Type}

theorem deliveredLists_eq (bytes : List WireByte) (rights : List δ) :
    deliveredLists bytes rights = [rights.take Channel.MAX_FDS_PER_MESSAGE] := by
  unfold deliveredLists
  generalize rights.take Channel.MAX_FDS_PER_MESSAGE = receivedFds
  cases receivedFds with
  | nil => rfl
  | cons fd fds => cases hzero : bytes.map WireByte.value == [0] <;> simp [hzero]

theorem handleReceive_lists (sender : Sender) (s : Channel) (bytes : List WireByte)
    (fds : List Fd) :
    (s.handleReceive sender bytes fds).messages.map Prod.snd =
      s.messages.map Prod.snd ++ deliveredLists bytes fds := by
  rw [deliveredLists_eq]
  simp only [Channel.handleReceive]
  generalize fds.take Channel.MAX_FDS_PER_MESSAGE = receivedFds
  cases hplaceholder : Channel.isPlaceholder bytes receivedFds <;> cases sender <;>
    cases bytes <;>
    simp [hplaceholder, Channel.receiveTask, Channel.processServerMessage,
      Channel.processClientMessage, Channel.processMessage]

/-- A read of the channel's stream takes what a read of its packets takes. -/
theorem take_segments (stream : List Segment) (n : Nat) :
    Packet.take (stream.map fun seg => (⟨seg.bytes, seg.fds⟩ : Packet Fd)) n =
      ((Channel.take stream n).1, (Channel.take stream n).2.1,
        (Channel.take stream n).2.2.map fun seg => ⟨seg.bytes, seg.fds⟩) := by
  induction stream generalizing n with
  | nil => rfl
  | cons seg rest ih =>
    simp only [List.map_cons, Packet.take, Channel.take, ih]
    split
    · rfl
    · split
      · rfl
      · split <;> rfl

def fitting (stream : List (Packet δ)) : List δ :=
  stream.flatMap fun p => p.rights.take Channel.MAX_FDS_PER_MESSAGE

theorem fitting_packets (bytes : List WireByte) (rights : List δ) (head : Nat) :
    fitting (packets bytes rights head) = rights.take Channel.MAX_FDS_PER_MESSAGE := by
  unfold packets fitting
  split <;> simp

theorem fitting_take (stream : List (Packet δ)) (n : Nat) :
    fitting stream = (Packet.take stream n).2.1.take Channel.MAX_FDS_PER_MESSAGE ++
      fitting (Packet.take stream n).2.2 := by
  induction stream generalizing n with
  | nil => simp [Packet.take, fitting]
  | cons p rest ih =>
    have hcons : fitting (p :: rest) =
        p.rights.take Channel.MAX_FDS_PER_MESSAGE ++ fitting rest := rfl
    rw [hcons]
    unfold Packet.take
    split
    · rfl
    · split
      · simp [fitting]
      · split
        · rename_i hnone
          rw [List.isEmpty_iff.mp hnone, ih (n - p.bytes.length)]
          rfl
        · rfl

end Receive

def Refers (table : FdMap File) (fds : List Fd) (files : List File) : Prop :=
  fds.map table.lookup = files.map some

theorem refers_cons {table : FdMap File} {fd : Fd} {fds : List Fd} {file : File}
    {files : List File} : Refers table (fd :: fds) (file :: files) ↔
      table.lookup fd = some file ∧ Refers table fds files := by
  simp [Refers]

theorem Refers.unique {table : FdMap File} {fds : List Fd} {files files' : List File}
    (h : Refers table fds files) (h' : Refers table fds files') : files = files' :=
  List.map_injective_iff.mpr (fun _ _ he => Option.some.inj he) (h.symm.trans h')

theorem Refers.congr {table table' : FdMap File} {fds : List Fd} {files : List File}
    (h : Refers table fds files) (hsame : ∀ fd ∈ fds, table'.lookup fd = table.lookup fd) :
    Refers table' fds files :=
  (List.map_congr_left hsame).trans h

theorem Refers.isSome {table : FdMap File} {fds : List Fd} {files : List File}
    (h : Refers table fds files) {fd : Fd} (hfd : fd ∈ fds) : (table.lookup fd).isSome := by
  have hmem : table.lookup fd ∈ files.map some := h ▸ List.mem_map_of_mem hfd
  obtain ⟨file, -, hfile⟩ := List.mem_map.mp hmem
  simp [← hfile]

theorem refers_of_openFiles {table : FdMap File} {fds : List Fd} {files : List File}
    (h : openFiles table fds = some files) : Refers table fds files := by
  induction fds generalizing files with
  | nil =>
    cases h
    rfl
  | cons fd fds ih =>
    simp only [openFiles] at h
    split at h
    · rename_i file rest hfile hrest
      cases h
      exact refers_cons.mpr ⟨hfile, ih hrest⟩
    · cases h

theorem openFiles_of_refers {table : FdMap File} {fds : List Fd} {files : List File}
    (h : Refers table fds files) : openFiles table fds = some files := by
  induction fds generalizing files with
  | nil =>
    cases files with
    | nil => rfl
    | cons file files => simp [Refers] at h
  | cons fd fds ih =>
    cases files with
    | nil => simp [Refers] at h
    | cons file files =>
      obtain ⟨hfile, hrest⟩ := refers_cons.mp h
      simp only [openFiles, hfile, ih hrest]

theorem Refers.mem {table : FdMap File} {fds : List Fd} {files : List File}
    (h : Refers table fds files) : ∀ fd ∈ fds, fd ∈ table :=
  fun _ hfd => AList.lookup_isSome.mp (h.isSome hfd)

theorem exists_refers {table : FdMap File} {fds : List Fd} (h : ∀ fd ∈ fds, fd ∈ table) :
    ∃ files, Refers table fds files := by
  induction fds with
  | nil => exact ⟨[], rfl⟩
  | cons fd fds ih =>
    obtain ⟨file, hfile⟩ :=
      Option.isSome_iff_exists.mp (AList.lookup_isSome.mpr (h fd List.mem_cons_self))
    obtain ⟨files, hfiles⟩ := ih fun x hx => h x (List.mem_cons_of_mem fd hx)
    exact ⟨file :: files, refers_cons.mpr ⟨hfile, hfiles⟩⟩

theorem installDuplicates_cons {table table' : FdMap File} {fd dupFd : Fd}
    {fds dupFds : List Fd} :
    installDuplicates table (fd :: fds) (dupFd :: dupFds) = some table' ↔
      ∃ file, table.lookup fd = some file ∧ dupFd ∉ table ∧
        installDuplicates (table.insert dupFd file) fds dupFds = some table' := by
  simp only [installDuplicates]
  cases table.lookup fd with
  | none => simp
  | some file =>
    by_cases hmem : dupFd ∈ table
    · simp [hmem]
    · simp [hmem]

theorem installDuplicates_keeps {table table' : FdMap File} {fds dupFds : List Fd}
    (h : installDuplicates table fds dupFds = some table') {fd : Fd}
    (hfd : (table.lookup fd).isSome) : table'.lookup fd = table.lookup fd := by
  induction fds generalizing table dupFds with
  | nil =>
    cases h
    rfl
  | cons x fds ih =>
    cases dupFds with
    | nil =>
      cases h
      rfl
    | cons dupFd dupFds =>
      obtain ⟨file, -, hnew, hrest⟩ := installDuplicates_cons.mp h
      have hne : fd ≠ dupFd := by
        rintro rfl
        exact hnew (AList.lookup_isSome.mp hfd)
      have hkept : (table.insert dupFd file).lookup fd = table.lookup fd :=
        AList.lookup_insert_ne hne
      rw [ih hrest (by rw [hkept]; exact hfd), hkept]

theorem installDuplicates_same {table table' : FdMap File} {fds dupFds : List Fd}
    (h : installDuplicates table fds dupFds = some table') (hlen : dupFds.length = fds.length) :
    dupFds.map table'.lookup = fds.map table'.lookup := by
  induction fds generalizing table dupFds with
  | nil =>
    obtain rfl := List.length_eq_zero_iff.mp hlen
    rfl
  | cons fd fds ih =>
    cases dupFds with
    | nil => simp at hlen
    | cons dupFd dupFds =>
      obtain ⟨file, hfile, -, hrest⟩ := installDuplicates_cons.mp h
      have hdup : (table.insert dupFd file).lookup dupFd = some file := AList.lookup_insert _
      have hfd : (table.insert dupFd file).lookup fd = some file := by
        rw [AList.lookup_insert_eq_ite, hfile, ite_self]
      have hdup' : table'.lookup dupFd = some file :=
        (installDuplicates_keeps hrest (by rw [hdup]; rfl)).trans hdup
      have hfd' : table'.lookup fd = some file :=
        (installDuplicates_keeps hrest (by rw [hfd]; rfl)).trans hfd
      rw [List.map_cons, List.map_cons, ih hrest (Nat.succ_inj.mp hlen), hdup', hfd']

theorem installDuplicates_new {table table' : FdMap File} {fds dupFds : List Fd}
    (h : installDuplicates table fds dupFds = some table') (hlen : dupFds.length = fds.length) :
    dupFds.Nodup ∧ ∀ fd ∈ dupFds, table.lookup fd = none := by
  induction fds generalizing table dupFds with
  | nil =>
    obtain rfl := List.length_eq_zero_iff.mp hlen
    exact ⟨.nil, by simp⟩
  | cons fd fds ih =>
    cases dupFds with
    | nil => simp at hlen
    | cons dupFd dupFds =>
      obtain ⟨file, -, hnew, hrest⟩ := installDuplicates_cons.mp h
      obtain ⟨hnodup, hfresh⟩ := ih hrest (Nat.succ_inj.mp hlen)
      simp only [AList.lookup_insert_eq_none] at hfresh
      refine ⟨hnodup.cons fun hmem => (hfresh dupFd hmem).1 rfl, ?_⟩
      refine List.forall_mem_cons.mpr ⟨AList.lookup_eq_none.mpr hnew, ?_⟩
      exact fun x hx => (hfresh x hx).2

theorem installDuplicates_spec {table table' : FdMap File} {fds dupFds : List Fd}
    {files : List File} (h : installDuplicates table fds dupFds = some table')
    (hlen : dupFds.length = fds.length) (hfiles : Refers table fds files) :
    (∀ fd, (table.lookup fd).isSome → table'.lookup fd = table.lookup fd) ∧
      dupFds.Nodup ∧ (∀ fd ∈ dupFds, table.lookup fd = none) ∧ Refers table' dupFds files := by
  obtain ⟨hnodup, hnew⟩ := installDuplicates_new h hlen
  have hkept : Refers table' fds files :=
    hfiles.congr fun fd hfd => installDuplicates_keeps h (hfiles.isSome hfd)
  exact ⟨fun fd => installDuplicates_keeps h, hnodup, hnew,
    (installDuplicates_same h hlen).trans hkept⟩

theorem closeAll_lookup {table : FdMap File} {fds : List Fd} {fd : Fd} (h : fd ∉ fds) :
    (closeAll table fds).lookup fd = table.lookup fd := by
  induction fds generalizing table with
  | nil => rfl
  | cons x fds ih =>
    obtain ⟨hne, hrest⟩ := not_or.mp (fun hmem => h (List.mem_cons.mpr hmem))
    have hrec : closeAll table (x :: fds) = closeAll (table.erase x) fds := rfl
    rw [hrec, ih hrest, AList.lookup_erase_ne hne]

theorem closeAll_erase (table : FdMap File) (fd : Fd) (fds : List Fd) :
    closeAll (table.erase fd) fds = (closeAll table fds).erase fd := by
  induction fds generalizing table with
  | nil => rfl
  | cons x fds ih =>
    show closeAll ((table.erase fd).erase x) fds = (closeAll (table.erase x) fds).erase fd
    rw [AList.erase_erase, ih]

/-- Closing the duplicates again leaves the table as it was. -/
theorem closeAll_installDuplicates {table table' : FdMap File} {fds dupFds : List Fd}
    (h : installDuplicates table fds dupFds = some table') (hlen : dupFds.length ≤ fds.length) :
    closeAll table' dupFds = table := by
  induction fds generalizing table dupFds with
  | nil =>
    obtain rfl := List.length_eq_zero_iff.mp (Nat.le_zero.mp hlen)
    cases h
    rfl
  | cons fd fds ih =>
    cases dupFds with
    | nil =>
      cases h
      rfl
    | cons dupFd dupFds =>
      obtain ⟨file, -, hnew, hrest⟩ := installDuplicates_cons.mp h
      have hinserted := ih hrest (Nat.le_of_succ_le_succ hlen)
      show closeAll (table'.erase dupFd) dupFds = table
      rw [closeAll_erase, hinserted, AList.erase_insert_of_notMem _ hnew]

/-- What an accepted `SendWithFds` queues: nothing for an empty message, else an entry
with the duplicates of its list. -/
def Queues (fds duplicatedFds : List Fd) (o : SendOutcome) : Prop :=
  o.result = true → (o.pending = none ∧ fds = []) ∨
    ∃ p, o.pending = some p ∧ p.Fresh ∧
      ((fds = [] ∧ p.fds = []) ∨ (fds ≠ [] ∧ duplicatedFds ≠ [] ∧ p.fds = duplicatedFds))

theorem queues_entry {data : Option DataBuffer} {fds duplicatedFds : List Fd}
    (hsome : (noData data && fds.isEmpty) = false)
    (hduplicated : (!fds.isEmpty && (if fds.isEmpty then [] else duplicatedFds).isEmpty) = false) :
    Queues fds duplicatedFds
      ⟨some ⟨data, 0, if fds.isEmpty then [] else duplicatedFds, false⟩, [], true⟩ := by
  refine fun _ => .inr ⟨_, rfl, ⟨rfl, rfl, fun hdata => ?_⟩, ?_⟩
  · cases fds with
    | nil => simp [hdata] at hsome
    | cons fd fds => simpa using hduplicated
  · cases fds with
    | nil => exact .inl ⟨rfl, rfl⟩
    | cons fd fds => exact .inr ⟨by simp, by simpa using hduplicated, rfl⟩

theorem clientSendWithFds_queues (data : Option DataBuffer) (fds duplicatedFds : List Fd) :
    Queues fds duplicatedFds (clientSendWithFds true data fds duplicatedFds) := by
  simp only [clientSendWithFds, Bool.not_true, Bool.false_eq_true, if_false]
  cases hsome : noData data && fds.isEmpty with
  | true => exact fun _ => .inl ⟨rfl, List.isEmpty_iff.mp (Bool.and_eq_true_iff.mp hsome).2⟩
  | false =>
    cases hduplicated : !fds.isEmpty && (if fds.isEmpty then [] else duplicatedFds).isEmpty with
    | true => exact fun h => Bool.noConfusion h
    | false => exact queues_entry hsome hduplicated

theorem serverSendWithFds_queues (buffer : Option DataBuffer) (fds duplicatedFds : List Fd) :
    Queues fds duplicatedFds (serverSendWithFds true true buffer fds duplicatedFds) := by
  simp only [serverSendWithFds, Bool.not_true, Bool.false_eq_true, if_false, if_true]
  cases hsome : noData buffer && fds.isEmpty with
  | true => exact fun h => Bool.noConfusion h
  | false =>
    cases hduplicated : !fds.isEmpty && (if fds.isEmpty then [] else duplicatedFds).isEmpty with
    | true => exact fun h => Bool.noConfusion h
    | false => exact queues_entry hsome hduplicated

theorem sendOutcome_queues (sender : Sender) (c : SendCall) (duplicatedFds : List Fd) :
    Queues c.fds duplicatedFds (sendOutcome sender c duplicatedFds) := by
  cases sender with
  | client =>
    cases c with
    | send data =>
      simp only [sendOutcome]
      split
      · exact fun h => Bool.noConfusion h
      · exact clientSendWithFds_queues data [] duplicatedFds
    | sendFds fds =>
      simp only [sendOutcome]
      split
      · exact fun h => Bool.noConfusion h
      · exact clientSendWithFds_queues none fds duplicatedFds
    | sendWithFds data fds => exact clientSendWithFds_queues data fds duplicatedFds
  | session =>
    cases c with
    | send data =>
      simp only [sendOutcome]
      split
      · exact fun h => Bool.noConfusion h
      · exact serverSendWithFds_queues data [] duplicatedFds
    | sendFds fds => exact serverSendWithFds_queues none fds duplicatedFds
    | sendWithFds data fds => exact serverSendWithFds_queues data fds duplicatedFds

theorem clientSendWithFds_refused {data : Option DataBuffer} {fds duplicatedFds : List Fd}
    (h : (clientSendWithFds true data fds duplicatedFds).result = false) :
    duplicatedFds = [] := by
  by_contra hne
  cases fds with
  | nil => cases hdata : noData data <;> simp [clientSendWithFds, hdata] at h
  | cons fd fds => simp [clientSendWithFds, hne] at h

theorem serverSendWithFds_refused {data : Option DataBuffer} {fds duplicatedFds : List Fd}
    (h : (serverSendWithFds true true data fds duplicatedFds).result = false) :
    fds = [] ∨ duplicatedFds = [] := by
  cases fds with
  | nil => exact .inl rfl
  | cons fd fds =>
    refine .inr ?_
    by_contra hne
    simp [serverSendWithFds, hne] at h

theorem sendOutcome_refused {sender : Sender} {c : SendCall}
    {duplicatedFds : List Fd} (h : (sendOutcome sender c duplicatedFds).result = false) :
    c.fds = [] ∨ duplicatedFds = [] := by
  cases c with
  | send data => exact .inl rfl
  | sendFds fds =>
    cases sender with
    | client =>
      simp only [sendOutcome] at h
      split at h
      · rename_i hnil
        exact .inl (List.isEmpty_iff.mp hnil)
      · exact .inr (clientSendWithFds_refused h)
    | session => exact serverSendWithFds_refused h
  | sendWithFds data fds =>
    cases sender with
    | client => exact .inr (clientSendWithFds_refused h)
    | session => exact serverSendWithFds_refused h

theorem duplicateFds_length (dup : Nat → Option Nat) (fds : List Fd)
    (h : (duplicateFds dup fds).duplicatedFds ≠ []) :
    (duplicateFds dup fds).duplicatedFds.length = fds.length := by
  rcases duplicateFds_all_or_none dup fds with
    ⟨-, produced, heq, hlen, -⟩ | ⟨-, produced, heq⟩
  · simpa [heq] using hlen
  · simp [heq] at h

theorem refers_congr {table table' : FdMap File} {lists : List (List Fd)}
    {waiting : List (List File)} (h : List.Forall₂ (Refers table) lists waiting)
    (hsame : ∀ fd ∈ lists.flatten, table'.lookup fd = table.lookup fd) :
    List.Forall₂ (Refers table') lists waiting := by
  induction h with
  | nil => exact .nil
  | cons hfds _ ih =>
    simp only [List.flatten_cons, List.mem_append] at hsame
    exact .cons (hfds.congr fun fd hfd => hsame fd (.inl hfd))
      (ih fun fd hfd => hsame fd (.inr hfd))

theorem isSome_of_refers {table : FdMap File} {lists : List (List Fd)}
    {waiting : List (List File)} (h : List.Forall₂ (Refers table) lists waiting) {fd : Fd}
    (hfd : fd ∈ lists.flatten) : (table.lookup fd).isSome := by
  induction h with
  | nil => simp at hfd
  | cons hfds _ ih =>
    rcases List.mem_append.mp (List.flatten_cons ▸ hfd) with hfirst | hrest
    · exact hfds.isSome hfirst
    · exact ih hrest

namespace UnixSendHandler

theorem toSend_of_not_sent {s : UnixSendHandler} (h : ∀ p n, s.round ≠ .sent p n) :
    s.toSend = s.sendQueue.map PendingSend.control := by
  unfold toSend
  split
  · rename_i p n hround
    exact absurd hround (h p n)
  · rfl

theorem toSend_queued {s : UnixSendHandler} (h : s.Window) (p : PendingSend) :
    ({ s with sendQueue := s.sendQueue ++ [p], queued := s.queued ++ [p] } :
      UnixSendHandler).toSend = s.toSend ++ [p.control] := by
  have hround := h.round
  unfold toSend
  cases hr : s.round with
  | sent q n =>
    rw [hr] at hround
    obtain ⟨rest, hqueue⟩ := List.head?_eq_some_iff.mp hround.2
    simp [hqueue]
  | _ => simp

end UnixSendHandler

namespace Transfer

/-- The descriptors the queue owns are open, each is there once, and of every list that
fits a receiver the files are with the listener, in the stream or still to be sent. -/
structure Carried (s : Transfer) : Prop where
  window : s.handler.Window
  up : s.handler.round ≠ .refused
  owned : s.handler.toSend.flatten.Nodup
  files : ∃ waiting, List.Forall₂ (Refers s.table) s.handler.toSend waiting ∧
    s.sent.flatMap (List.take Channel.MAX_FDS_PER_MESSAGE) =
      s.received.flatten ++ fitting s.stream ++
        waiting.flatMap (List.take Channel.MAX_FDS_PER_MESSAGE)

theorem connected_carried (table : FdMap File) : (connected table).Carried :=
  ⟨UnixSendHandler.created_accounted.window, by simp [connected, UnixSendHandler.created],
    by simp [connected, UnixSendHandler.toSend, UnixSendHandler.created], [], .nil, rfl⟩

theorem Carried.retable {s : Transfer} (h : s.Carried) (table : FdMap File)
    (hsame : ∀ fd ∈ s.handler.toSend.flatten, table.lookup fd = s.table.lookup fd) :
    Carried { s with table := table } := by
  obtain ⟨waiting, hrefers, hfiles⟩ := h.files
  exact ⟨h.window, h.up, h.owned, waiting, refers_congr hrefers hsame, hfiles⟩

theorem Carried.rehandle {s : Transfer} (h : s.Carried) {handler : UnixSendHandler}
    (hwindow : handler.Window) (hup : handler.round ≠ .refused)
    (hsame : handler.toSend = s.handler.toSend) : Carried { s with handler := handler } := by
  obtain ⟨waiting, hrefers, hfiles⟩ := h.files
  refine ⟨hwindow, hup, ?_, waiting, ?_, hfiles⟩
  · rw [hsame]
    exact h.owned
  · rwa [hsame]

theorem Carried.openFile {s : Transfer} (h : s.Carried) {fd : Fd} (hnew : fd ∉ s.table)
    (file : File) : Carried { s with table := s.table.insert fd file } := by
  refine h.retable _ fun x hx => AList.lookup_insert_ne fun he => ?_
  obtain ⟨waiting, hrefers, -⟩ := h.files
  have hsome := isSome_of_refers hrefers hx
  rw [he, AList.lookup_eq_none.mpr hnew] at hsome
  cases hsome

theorem Carried.queued {s : Transfer} (h : s.Carried) {table : FdMap File} {p : PendingSend}
    {files : List File} (hp : p.Fresh)
    (hkeep : ∀ fd, (s.table.lookup fd).isSome → table.lookup fd = s.table.lookup fd)
    (hnodup : p.fds.Nodup) (hnew : ∀ fd ∈ p.fds, s.table.lookup fd = none)
    (hrefers : Refers table p.fds files) :
    Carried { s with
      table := table
      handler := { s.handler with
        sendQueue := s.handler.sendQueue ++ [p], queued := s.handler.queued ++ [p] }
      sent := s.sent ++ [files] } := by
  obtain ⟨waiting, hwaiting, hfiles⟩ := h.files
  have hsend := UnixSendHandler.toSend_queued h.window p
  rw [hp.control] at hsend
  refine ⟨h.window.move (.queued p hp), h.up, ?_, waiting ++ [files], ?_, ?_⟩
  · rw [hsend, List.flatten_append, List.nodup_append']
    refine ⟨h.owned, by simpa using hnodup, fun fd hfd hdup => ?_⟩
    have hsome := isSome_of_refers hwaiting hfd
    rw [hnew fd (by simpa using hdup)] at hsome
    cases hsome
  · rw [hsend]
    refine List.rel_append (refers_congr hwaiting fun fd hfd => ?_) (.cons hrefers .nil)
    exact hkeep fd (isSome_of_refers hwaiting hfd)
  · simp only [List.flatMap_append, hfiles, List.append_assoc]

theorem Carried.call {sender : Sender} {s s' : Transfer} (h : s.Carried) {c : SendCall}
    {dups : List (Option Nat)} (hcall : s.call sender c dups = some s') : s'.Carried := by
  simp only [Transfer.call] at hcall
  generalize (fun n : Nat => (dups[n]?).join) = dup at hcall
  have hqueues := sendOutcome_queues sender c (duplicateFds dup c.fds).duplicatedFds
  have hlength := duplicateFds_length dup c.fds
  generalize (duplicateFds dup c.fds).duplicatedFds = duplicatedFds at hcall hqueues hlength
  generalize sendOutcome sender c duplicatedFds = o at hcall hqueues
  cases hresult : o.result with
  | false =>
    simp only [hresult, Bool.not_false, if_true] at hcall
    cases hcall
    exact h
  | true =>
    simp only [hresult, Bool.not_true, Bool.false_eq_true, if_false] at hcall
    split at hcall
    · rename_i files table hfiles htable
      have hrefers := refers_of_openFiles hfiles
      cases hcall
      rcases hqueues hresult with ⟨hnone, hnil⟩ | ⟨p, hpending, hp, hfds⟩
      · -- an empty message: nothing is queued, and there is nothing to duplicate
        rw [hnil] at hfiles htable
        cases hfiles
        cases htable
        obtain ⟨waiting, hwaiting, hall⟩ := h.files
        refine ⟨?_, ?_, ?_, waiting, ?_, ?_⟩
        · simpa [UnixSendHandler.sendWithFds, hnone] using h.window
        · simpa [UnixSendHandler.sendWithFds, hnone] using h.up
        · simpa [UnixSendHandler.sendWithFds, hnone] using h.owned
        · simpa [UnixSendHandler.sendWithFds, hnone] using hwaiting
        · simpa using hall
      · have hsomething : (noData p.data && p.fds.isEmpty) = false := by
          cases hdata : noData p.data with
          | false => rfl
          | true => simpa using hp.something hdata
        have hsend : s.handler.sendWithFds o = { s.handler with
            sendQueue := s.handler.sendQueue ++ [p], queued := s.handler.queued ++ [p] } := by
          simp [UnixSendHandler.sendWithFds, hpending, UnixSendHandler.queueSend, hsomething]
        rw [hsend]
        rcases hfds with ⟨hnil, hpfds⟩ | ⟨-, hne, hpfds⟩
        · rw [hnil] at hfiles htable
          cases hfiles
          cases htable
          exact h.queued hp (fun _ _ => rfl) (by simp [hpfds]) (by simp [hpfds])
            (by simp [hpfds, Refers])
        · obtain ⟨hkeep, hnodup, hnew, hdup⟩ :=
            installDuplicates_spec htable (hlength hne) hrefers
          rw [← hpfds] at hnodup hnew hdup
          exact h.queued hp hkeep hnodup hnew hdup
    · cases hcall

theorem Carried.copied {s : Transfer} (h : s.Carried) {p : PendingSend}
    (hround : s.handler.round = .copied p) :
    ∃ rest, s.handler.sendQueue = p :: rest ∧
      s.handler.toSend = p.control :: rest.map PendingSend.control ∧
      ∀ fd ∈ p.fds, fd ∈ p.control := by
  have hholds := h.window.round
  rw [hround] at hholds
  obtain ⟨rest, hqueue⟩ := List.head?_eq_some_iff.mp hholds
  refine ⟨rest, hqueue, ?_, ?_⟩
  · rw [UnixSendHandler.toSend_of_not_sent (by simp [hround]), hqueue, List.map_cons]
  · obtain ⟨e, hdrop, hfront, -⟩ := h.window.front hqueue
    rcases hfront with rfl | hbegun
    · have hmem : p ∈ s.handler.queued :=
        List.mem_of_mem_drop (by rw [hdrop]; exact List.mem_cons_self)
      rw [(h.window.fresh p hmem).control]
      exact fun _ hfd => hfd
    · simp [hbegun.fds]

theorem Carried.sent {s : Transfer} (h : s.Carried) {p : PendingSend} {n : Nat}
    {files : List File} (hround : s.handler.round = .copied p)
    (hopen : openFiles s.table p.control = some files) (hpos : 1 ≤ n) (head : Nat) :
    Carried { s with
      handler := { s.handler with
        round := .sent p n
        sent := s.handler.sent ++ [⟨s.handler.popped, p.iov.take n, p.control⟩]
        closed := s.handler.closed ++ closeDescriptors s.handler.popped p.fds }
      table := closeAll s.table (cleanupFds p.fds)
      stream := s.stream ++ packets (p.iov.take n) files head } := by
  obtain ⟨rest, hqueue, htoSend, hfds⟩ := h.copied hround
  obtain ⟨waiting, hwaiting, hfiles⟩ := h.files
  have howned := h.owned
  rw [htoSend, List.flatten_cons, List.nodup_append'] at howned
  obtain ⟨-, hrest, hapart⟩ := howned
  have hleft : ({ s.handler with
      round := .sent p n
      sent := s.handler.sent ++ [⟨s.handler.popped, p.iov.take n, p.control⟩]
      closed := s.handler.closed ++ closeDescriptors s.handler.popped p.fds } :
        UnixSendHandler).toSend = rest.map PendingSend.control := by
    simp [UnixSendHandler.toSend, hqueue]
  rw [htoSend] at hwaiting
  cases hwaiting with
  | @cons _ first _ waiting hfirst hwaiting =>
    obtain rfl := (refers_of_openFiles hopen).unique hfirst
    refine ⟨h.window.move (.sent p n rest hround hqueue hpos), by simp, ?_, waiting, ?_, ?_⟩
    · dsimp only
      rwa [hleft]
    · dsimp only
      rw [hleft]
      refine refers_congr hwaiting fun fd hfd => closeAll_lookup fun hclosed => ?_
      exact hapart (hfds fd (List.mem_of_mem_filter hclosed)) hfd
    · have hstream : fitting (s.stream ++ packets (p.iov.take n) files head) =
          fitting s.stream ++ files.take Channel.MAX_FDS_PER_MESSAGE := by
        rw [← fitting_packets (p.iov.take n) files head]
        exact List.flatMap_append
      simp only [hfiles, hstream, List.flatMap_cons, List.append_assoc]

theorem Carried.sendmsg {s s' : Transfer} (h : s.Carried) {r : SendmsgReturn} {head : Nat}
    (hsend : s.sendmsg r head = some s') : s'.Carried := by
  unfold Transfer.sendmsg at hsend
  split at hsend
  · -- it would block: the copy goes
    rename_i p hround
    cases hsend
    obtain ⟨rest, hqueue, htoSend, -⟩ := h.copied hround
    refine h.rehandle (h.window.move (.blocked p hround)) (by simp) ?_
    rw [UnixSendHandler.toSend_of_not_sent (by simp), htoSend, hqueue, List.map_cons]
  · rename_i p n hround
    split at hsend
    · rename_i handler files hhandler hopen
      split at hsend
      · rename_i hhead
        cases hsend
        have hpos : ¬ n = 0 := by omega
        simp only [UnixSendHandler.sendmsg, hpos, if_false] at hhandler
        split at hhandler
        · cases hhandler
          exact h.sent hround hopen (by omega) head
        · cases hhandler
      · cases hsend
    · cases hsend
  · cases hsend

/-- What the critical section after a `sendmsg` does to the queue is no matter: the
rest of an entry has no control message. -/
theorem Carried.update {s : Transfer} (h : s.Carried) {handler : UnixSendHandler}
    (hupdate : s.handler.update = some handler) : Carried { s with handler := handler } := by
  have hholds := h.window.round
  unfold UnixSendHandler.update at hupdate
  split at hupdate
  · rename_i p n hround
    rw [hround] at hholds
    obtain ⟨hpos, hhead⟩ := hholds
    obtain ⟨rest, hqueue⟩ := List.head?_eq_some_iff.mp hhead
    have htoSend : s.handler.toSend = rest.map PendingSend.control := by
      simp [UnixSendHandler.toSend, hround, hqueue]
    simp only [hqueue, PendingSend.same_self, if_true] at hupdate
    split at hupdate
    · rename_i hdata
      cases hupdate
      obtain ⟨waiting, hwaiting, hfiles⟩ := h.files
      have howned := h.owned
      rw [htoSend] at hwaiting howned
      have hcontrol := (PendingSend.begun_updated hdata).control
      have hleft : ({ s.handler with
          round := .idle, sendQueue := p.updated n :: rest } : UnixSendHandler).toSend =
            [] :: rest.map PendingSend.control := by
        rw [UnixSendHandler.toSend_of_not_sent (by simp), List.map_cons, hcontrol]
      refine ⟨h.window.move (.kept p n rest hround hqueue hpos hdata), by simp, ?_,
        [] :: waiting, ?_, ?_⟩
      · dsimp only
        rwa [hleft, List.flatten_cons, List.nil_append]
      · dsimp only
        rw [hleft]
        exact .cons rfl hwaiting
      · simpa using hfiles
    · rename_i hdata
      cases hupdate
      refine h.rehandle (h.window.move (.done p n rest hround hqueue hpos (by simpa using hdata)))
        (by simp) ?_
      rw [UnixSendHandler.toSend_of_not_sent (by simp), htoSend]
  · rename_i hround
    exact absurd hround h.up
  · cases hupdate

theorem Carried.front {s : Transfer} (h : s.Carried) {handler : UnixSendHandler}
    (hfront : s.handler.front = some handler) : Carried { s with handler := handler } := by
  unfold UnixSendHandler.front at hfront
  split at hfront
  · rename_i p rest hround hqueue
    cases hfront
    refine h.rehandle (h.window.move (.copied p rest hround hqueue)) (by simp) ?_
    rw [UnixSendHandler.toSend_of_not_sent (by simp),
      UnixSendHandler.toSend_of_not_sent (by simp [hround])]
  · cases hfront

theorem Carried.recvmsg {s : Transfer} (h : s.Carried) (n : Nat) :
    Carried { s with
      stream := (Packet.take s.stream n).2.2
      received := s.received ++
        deliveredLists (Packet.take s.stream n).1 (Packet.take s.stream n).2.1 } := by
  obtain ⟨waiting, hwaiting, hfiles⟩ := h.files
  refine ⟨h.window, h.up, h.owned, waiting, hwaiting, ?_⟩
  rw [hfiles, deliveredLists_eq, fitting_take s.stream n]
  simp

theorem Carried.step {sender : Sender} {s s' : Transfer} {a : TransferAct} (h : s.Carried)
    (hstep : s.step sender a = some s') : s'.Carried := by
  cases a with
  | openFile fd file =>
    simp only [Transfer.step] at hstep
    split at hstep
    · rename_i hnew
      cases hstep
      exact h.openFile hnew.2 file
    · cases hstep
  | closeFile fd =>
    simp only [Transfer.step] at hstep
    split at hstep
    · cases hstep
    · rename_i hfree
      cases hstep
      refine h.retable _ fun x hx => AList.lookup_erase_ne fun he => ?_
      exact hfree (he ▸ hx)
  | call c dups => exact h.call hstep
  | front =>
    obtain ⟨handler, hfront, rfl⟩ := Option.map_eq_some_iff.mp hstep
    exact h.front hfront
  | sendmsg r head => exact h.sendmsg hstep
  | update =>
    obtain ⟨handler, hupdate, rfl⟩ := Option.map_eq_some_iff.mp hstep
    exact h.update hupdate
  | recvmsg n =>
    simp only [Transfer.step] at hstep
    split at hstep
    · cases hstep
    · cases hstep
      exact h.recvmsg n

/-- While no list is longer than a receiver has room for, what has arrived is a front part
of what was sent; and once everything has been read, it is all of it if and only if no
list is longer. -/
theorem lists_complete_iff (sender : Sender) {table : FdMap File} {as : List TransferAct}
    {t : Transfer} (h : (machine sender).run (connected table) as = some t) :
    ((∀ files ∈ t.sent, files.length ≤ Channel.MAX_FDS_PER_MESSAGE) →
        t.received.flatten <+: t.sent.flatten) ∧
      (t.Drained → (t.received.flatten = t.sent.flatten ↔
        ∀ files ∈ t.sent, files.length ≤ Channel.MAX_FDS_PER_MESSAGE)) := by
  have hcarried : t.Carried := (machine sender).run_invariant (I := Carried)
    (fun _ _ _ hs hstep => hs.step hstep) (connected_carried table) h
  obtain ⟨waiting, hwaiting, hfiles⟩ := hcarried.files
  rw [← List.flatMap_take_eq_flatten_iff]
  constructor
  · intro hall
    rw [← hall, hfiles, List.append_assoc]
    exact List.prefix_append _ _
  · rintro ⟨hqueue, hstream⟩
    have htoSend : t.handler.toSend = [] := by
      unfold UnixSendHandler.toSend
      split <;> simp [hqueue]
    rw [htoSend] at hwaiting
    cases hwaiting
    simp only [hstream, fitting, List.flatMap_nil, List.append_nil] at hfiles
    rw [hfiles]

instance (s : Transfer) : Decidable s.Drained := inferInstanceAs (Decidable (_ ∧ _))

def oneFile : FdMap File := AList.singleton 3 7

def twoDescriptors : List TransferAct :=
  [.call (.sendWithFds (some ⟨0, [97, 98]⟩) [3, 3]) [some 4, some 5], .closeFile 3, .front,
    .sendmsg (.bytes 1) 1, .update, .openFile 4 8, .front, .sendmsg (.bytes 1) 1, .update,
    .recvmsg 4096, .recvmsg 4096]

theorem lists_complete_iff_twoDescriptors :
    ∃ t, (machine .client).run (connected oneFile) twoDescriptors = some t ∧
      t.received.flatten = [7, 7] ∧ t.received.flatten = t.sent.flatten := by
  have hrun : (machine .client).run (connected oneFile) twoDescriptors = some _ := rfl
  exact ⟨_, hrun, rfl, ((lists_complete_iff .client hrun).2 (by decide)).mpr (by decide)⟩

def seventeenDescriptors : List TransferAct :=
  [.call (.sendFds (List.replicate 17 3)) ((List.range 17).map fun i => some (i + 4)), .front,
    .sendmsg (.bytes 1) 1, .update, .recvmsg 4096]

theorem seventeenth_descriptor_is_lost :
    (∃ t, (machine .client).run (connected oneFile) seventeenDescriptors = some t ∧
      t.Drained ∧ t.received.flatten.length = 16 ∧ t.sent.flatten.length = 17) ∧
    (∃ t, (machine .session).run (connected oneFile) seventeenDescriptors = some t ∧
      t.Drained ∧ t.received.flatten.length = 16 ∧ t.sent.flatten.length = 17) := by
  have hclient : (machine .client).run (connected oneFile) seventeenDescriptors = some _ := rfl
  have hsession : (machine .session).run (connected oneFile) seventeenDescriptors = some _ := rfl
  exact ⟨⟨_, hclient, by decide, by decide, by decide⟩,
    ⟨_, hsession, by decide, by decide, by decide⟩⟩

end Transfer

end Lmnet.Epoll
