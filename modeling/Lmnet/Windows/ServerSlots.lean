import Mathlib.Data.List.Perm.Basic
import Lmnet.Lib.Machine
import Lmnet.Windows.UdpReceive

/-!
The requests that the Windows `TcpServerImpl` and `UdpServerImpl` keep outstanding:
`SubmitAccept` and `SubmitReceive`, their completions, and the task that tries again after
a submission has failed. A step is what lies between two looks at `isRunning_` or the
socket, so that callbacks of several worker threads interleave.
-/

set_option autoImplicit false

namespace Lmnet.Windows

inductive ServerKind where
  | tcp | udp
  deriving DecidableEq, Repr

def CONCURRENT_ACCEPTS : Nat := 4

def ServerKind.concurrency : ServerKind → Nat
  | .tcp => CONCURRENT_ACCEPTS
  | .udp => CONCURRENT_RECEIVES

/-- Sockets are numbered in the order in which `Init` makes them, `sockets` of them so far,
and `outstanding` has the socket of each request. `toSubmit` are the calls of `SubmitAccept`
or `SubmitReceive` that have yet to begin, `submitting` those that have seen the server
running and have yet to submit. -/
structure SlotServer where
  isRunning : Bool
  socket : Option Nat
  sockets : Nat
  outstanding : List Nat
  retryPending : Bool
  retryTasks : Nat
  toSubmit : Nat
  submitting : Nat
  deriving DecidableEq, Repr

inductive SlotAct where
  | init (outcome : InitOutcome)
  | start
  | stop
  | begin
  | submit (success : Bool)
  | complete (i : Nat)
  | retry
  deriving DecidableEq, Repr

namespace SlotServer

def created : SlotServer := ⟨false, none, 0, [], false, 0, 0, 0⟩

def init (s : SlotServer) : InitOutcome → SlotServer
  | .noQueue => s
  | .noSocket | .badRemote => { s with socket := none }
  | .done => { s with socket := some s.sockets, sockets := s.sockets + 1 }

def start (k : ServerKind) (s : SlotServer) : SlotServer :=
  if s.isRunning || s.socket.isNone then s
  else { s with
    isRunning := true, retryPending := false, toSubmit := s.toSubmit + k.concurrency }

def stop (s : SlotServer) : SlotServer :=
  if !s.isRunning && s.socket.isNone then s
  else { s with isRunning := false, retryPending := false, socket := none }

/-- What a submission asks first, and asks again when it has failed; `SubmitReceive` does
not look at the socket. -/
def maySubmit (k : ServerKind) (s : SlotServer) : Bool :=
  match k with
  | .tcp => s.isRunning && s.socket.isSome
  | .udp => s.isRunning

def begin (k : ServerKind) (s : SlotServer) : SlotServer :=
  if s.maySubmit k then { s with toSubmit := s.toSubmit - 1, submitting := s.submitting + 1 }
  else { s with toSubmit := s.toSubmit - 1 }

/-- A submission that failed: one task for all that fail before it runs. -/
def submitFailed (k : ServerKind) (s : SlotServer) : SlotServer :=
  if s.maySubmit k && !s.retryPending then
    { s with retryPending := true, retryTasks := s.retryTasks + 1 }
  else s

/-- The callback of a completion up to the next submission; that of `SubmitAccept` clears
the flag. -/
def complete (k : ServerKind) (s : SlotServer) : SlotServer :=
  match k with
  | .tcp => { s with retryPending := false, toSubmit := s.toSubmit + 1 }
  | .udp => { s with toSubmit := s.toSubmit + 1 }

/-- `Init` is for a server that is new or stopped. A request needs a socket, and completes
with an error when its socket is closed. -/
def step (k : ServerKind) (s : SlotServer) : SlotAct → Option SlotServer
  | .init outcome => if s.isRunning || s.socket.isSome then none else some (s.init outcome)
  | .start => some (s.start k)
  | .stop => some s.stop
  | .begin => if s.toSubmit = 0 then none else some (s.begin k)
  | .submit success =>
      if s.submitting = 0 then none
      else if success then
        s.socket.map fun socket => { s with
          submitting := s.submitting - 1, outstanding := s.outstanding ++ [socket] }
      else some ({ s with submitting := s.submitting - 1 }.submitFailed k)
  | .complete i =>
      if i < s.outstanding.length then
        some ({ s with outstanding := s.outstanding.eraseIdx i }.complete k)
      else none
  | .retry =>
      if s.retryTasks = 0 then none
      else some { s with
        retryTasks := s.retryTasks - 1, retryPending := false, toSubmit := s.toSubmit + 1 }

def machine (k : ServerKind) : Machine SlotServer SlotAct where
  init s := s = created
  step := step k

def BetweenCallbacks (s : SlotServer) : Prop := s.toSubmit = 0 ∧ s.submitting = 0

/-- The server runs on an open socket and has all its slots. -/
def KeepsAll (k : ServerKind) (s : SlotServer) : Prop :=
  s.isRunning = true → ∀ socket ∈ s.socket,
    s.outstanding.count socket + s.retryTasks = k.concurrency

def slots (s : SlotServer) (socket : Nat) : Nat :=
  s.outstanding.count socket + s.retryTasks + s.toSubmit + s.submitting

def Full (k : ServerKind) (s : SlotServer) : Prop :=
  s.isRunning = true → ∀ socket ∈ s.socket, s.slots socket = k.concurrency

/-- `Start` finds nothing left over from before the last `Stop`; and while the server runs
no submission fails while a retry is pending, and no request of an earlier socket
completes. -/
def OneAtATime (s : SlotServer) : SlotAct → Prop
  | .start => s.isRunning = false → ∀ socket ∈ s.socket, s.slots socket = 0
  | .submit success => s.isRunning = true → success = false → s.retryPending = false
  | .complete i => s.isRunning = true → s.outstanding[i]? = s.socket
  | .init _ | .stop | .begin | .retry => True

instance decidableOneAtATime (s : SlotServer) (a : SlotAct) : Decidable (s.OneAtATime a) :=
  match a with
  | .start => inferInstanceAs (Decidable (_ → _))
  | .submit _ => inferInstanceAs (Decidable (_ → _))
  | .complete _ => inferInstanceAs (Decidable (_ → _))
  | .init _ | .stop | .begin | .retry => inferInstanceAs (Decidable True)

end SlotServer

/-- What is left of the calls under way when nothing else happens and no submission fails. -/
def SlotAct.Finishes : SlotAct → Prop
  | .begin => True
  | .submit success => success = true
  | _ => False

namespace SlotServer

def Inv (s : SlotServer) : Prop := s.isRunning = true → s.socket.isSome = true

theorem inv_created : created.Inv := nofun

theorem Inv.maySubmit {k : ServerKind} {s : SlotServer} (h : s.Inv) :
    s.maySubmit k = s.isRunning := by
  cases k with
  | tcp =>
    cases hrun : s.isRunning with
    | false => simp [SlotServer.maySubmit, hrun]
    | true => simp [SlotServer.maySubmit, hrun, h hrun]
  | udp => rfl

theorem Full.of_not_running {k : ServerKind} {s : SlotServer} (h : s.isRunning = false) :
    s.Full k := by
  intro hrun
  rw [h] at hrun
  cases hrun

theorem inv_step {k : ServerKind} {s s' : SlotServer} {a : SlotAct} (h : s.Inv)
    (hs : s.step k a = some s') : s'.Inv := by
  cases a with
  | init outcome =>
    simp only [step] at hs
    split at hs
    · cases hs
    · rename_i hnew
      cases hs
      cases outcome <;> simp_all [Inv, init]
  | start =>
    cases hs
    unfold start
    split
    · exact h
    · rename_i hcond
      simp only [Bool.or_eq_true, not_or, Option.isNone_iff_eq_none] at hcond
      exact fun _ => Option.isSome_iff_ne_none.mpr hcond.2
  | stop =>
    cases hs
    unfold stop
    split
    · exact h
    · exact nofun
  | begin =>
    simp only [step] at hs
    split at hs
    · cases hs
    · cases hs
      unfold begin
      split <;> exact h
  | submit success =>
    simp only [step] at hs
    split at hs
    · cases hs
    · split at hs
      · obtain ⟨socket, hsocket, rfl⟩ := Option.map_eq_some_iff.mp hs
        exact h
      · cases hs
        unfold submitFailed
        split <;> exact h
  | complete i =>
    simp only [step] at hs
    split at hs
    · cases hs
      cases k <;> exact h
    · cases hs
  | retry =>
    simp only [step] at hs
    split at hs
    · cases hs
    · cases hs
      exact h

theorem slots_start {k : ServerKind} {s : SlotServer} {socket : Nat} (hrun : s.isRunning = false)
    (hsocket : s.socket = some socket) :
    (s.start k).slots socket = s.slots socket + k.concurrency := by
  simp only [start, hrun, hsocket, slots, Option.isNone_some, Bool.or_self, Bool.false_eq_true,
    if_false]
  omega

theorem slots_begin {k : ServerKind} {s : SlotServer} {socket : Nat} (hmay : s.maySubmit k = true)
    (hcall : s.toSubmit ≠ 0) : (s.begin k).slots socket = s.slots socket := by
  simp only [begin, hmay, if_true, slots]
  omega

/-- A slot whose submission has failed is kept by the retry task, unless one is pending. -/
theorem slots_submitFailed {k : ServerKind} {s : SlotServer} {socket : Nat}
    (hmay : s.maySubmit k = true) :
    (s.submitFailed k).slots socket = s.slots socket + if s.retryPending then 0 else 1 := by
  cases hpending : s.retryPending with
  | false =>
    simp only [submitFailed, hmay, hpending, slots]
    simp
    omega
  | true => simp [submitFailed, hpending]

theorem slots_complete {k : ServerKind} {s : SlotServer} {i : Nat} (socket : Nat)
    (hi : i < s.outstanding.length) :
    ({ s with outstanding := s.outstanding.eraseIdx i }.complete k).slots socket =
      s.slots socket + if s.outstanding[i] = socket then 0 else 1 := by
  have hcount : s.outstanding.count socket = (s.outstanding.eraseIdx i).count socket +
      if s.outstanding[i] = socket then 1 else 0 := by
    have hperm := (List.getElem_cons_eraseIdx_perm hi).count_eq socket
    rw [List.count_cons] at hperm
    simpa using hperm.symm
  cases k <;> simp only [complete, slots, hcount] <;> split <;> omega

theorem full_start_iff {k : ServerKind} {s : SlotServer} (hfull : s.Full k) :
    (s.start k).Full k ↔ s.OneAtATime .start := by
  cases hrun : s.isRunning with
  | true =>
    have hsame : s.start k = s := by simp [start, hrun]
    rw [hsame]
    exact iff_of_true hfull fun hnot => by rw [hrun] at hnot; cases hnot
  | false =>
    cases hsocket : s.socket with
    | none =>
      have hsame : s.start k = s := by simp [start, hsocket]
      rw [hsame]
      refine iff_of_true hfull fun _ socket hmem => ?_
      rw [hsocket] at hmem
      cases hmem
    | some socket =>
      have hstarted : (s.start k).isRunning = true ∧ (s.start k).socket = some socket := by
        simp [start, hrun, hsocket]
      simp only [Full, OneAtATime, hstarted.1, hstarted.2, hrun, hsocket, Option.mem_some_iff,
        forall_eq', forall_const, slots_start hrun hsocket]
      omega

theorem full_begin {k : ServerKind} {s : SlotServer} (h : s.Inv) (hfull : s.Full k)
    (hcall : s.toSubmit ≠ 0) : (s.begin k).Full k := by
  have hkept : (s.begin k).isRunning = s.isRunning ∧ (s.begin k).socket = s.socket := by
    unfold begin
    split <;> exact ⟨rfl, rfl⟩
  intro hrun socket hsocket
  rw [hkept.1] at hrun
  rw [hkept.2] at hsocket
  rw [slots_begin (h.maySubmit.trans hrun) hcall]
  exact hfull hrun socket hsocket

theorem full_submitFailed_iff {k : ServerKind} {s called : SlotServer} (h : s.Inv)
    (hfull : s.Full k) (hcall : s.submitting ≠ 0)
    (hcalled : called = { s with submitting := s.submitting - 1 }) :
    (called.submitFailed k).Full k ↔ (s.isRunning = true → s.retryPending = false) := by
  have hrunning : called.isRunning = s.isRunning := by rw [hcalled]
  have hsocket : called.socket = s.socket := by rw [hcalled]
  have hpending : called.retryPending = s.retryPending := by rw [hcalled]
  have hmay : called.maySubmit k = s.isRunning := by
    rw [Inv.maySubmit (by rw [Inv, hrunning, hsocket]; exact h), hrunning]
  have hkept : (called.submitFailed k).isRunning = s.isRunning ∧
      (called.submitFailed k).socket = s.socket := by
    unfold submitFailed
    split <;> exact ⟨hrunning, hsocket⟩
  have hfewer : ∀ socket, called.slots socket + 1 = s.slots socket := by
    intro socket
    simp only [hcalled, slots]
    omega
  have hslots : s.isRunning = true → ∀ socket, (called.submitFailed k).slots socket + 1 =
      s.slots socket + if s.retryPending then 0 else 1 := by
    intro hrun socket
    rw [slots_submitFailed (hmay.trans hrun), hpending, ← hfewer]
    omega
  constructor
  · intro hfailed hrun
    obtain ⟨socket, hcurrent⟩ := Option.isSome_iff_exists.mp (h hrun)
    have hbefore := hfull hrun socket hcurrent
    have hafter := hfailed (hkept.1.trans hrun) socket (hkept.2.trans hcurrent)
    have hsplit := hslots hrun socket
    by_contra hset
    rw [Bool.not_eq_false] at hset
    rw [if_pos hset] at hsplit
    omega
  · intro hclear hrun socket hcurrent
    rw [hkept.1] at hrun
    rw [hkept.2] at hcurrent
    have hbefore := hfull hrun socket hcurrent
    have hsplit := hslots hrun socket
    rw [hclear hrun] at hsplit
    simp only [Bool.false_eq_true, if_false] at hsplit
    omega

theorem full_complete_iff {k : ServerKind} {s : SlotServer} {i : Nat} (h : s.Inv)
    (hfull : s.Full k) (hi : i < s.outstanding.length) :
    ({ s with outstanding := s.outstanding.eraseIdx i }.complete k).Full k ↔
      (s.isRunning = true → s.outstanding[i]? = s.socket) := by
  have hslots := fun socket => slots_complete (k := k) socket hi
  have hkept : ({ s with outstanding := s.outstanding.eraseIdx i }.complete k).isRunning =
        s.isRunning ∧
      ({ s with outstanding := s.outstanding.eraseIdx i }.complete k).socket = s.socket := by
    cases k <;> exact ⟨rfl, rfl⟩
  rw [List.getElem?_eq_getElem hi]
  constructor
  · intro hcomplete hrun
    obtain ⟨socket, hcurrent⟩ := Option.isSome_iff_exists.mp (h hrun)
    have hbefore := hfull hrun socket hcurrent
    have hafter := hcomplete (hkept.1.trans hrun) socket (hkept.2.trans hcurrent)
    rw [hslots, hbefore] at hafter
    rw [hcurrent]
    by_contra hother
    rw [if_neg fun heq => hother (by rw [heq])] at hafter
    omega
  · intro hown hrun socket hcurrent
    rw [hkept.1] at hrun
    rw [hkept.2] at hcurrent
    have hsame : s.outstanding[i] = socket := Option.some.inj ((hown hrun).trans hcurrent)
    rw [hslots, if_pos hsame]
    exact hfull hrun socket hcurrent

/-- What one step does to a server that has all its slots. -/
theorem full_step_iff {k : ServerKind} {s s' : SlotServer} {a : SlotAct} (h : s.Inv)
    (hfull : s.Full k) (hs : s.step k a = some s') : s'.Full k ↔ s.OneAtATime a := by
  cases a with
  | init outcome =>
    simp only [step] at hs
    split at hs
    · cases hs
    · rename_i hnew
      cases hs
      simp only [Bool.or_eq_true, not_or, Bool.not_eq_true] at hnew
      refine iff_of_true (Full.of_not_running ?_) trivial
      cases outcome <;> exact hnew.1
  | start =>
    cases hs
    exact full_start_iff hfull
  | stop =>
    cases hs
    refine iff_of_true ?_ trivial
    unfold stop
    split
    · exact hfull
    · exact Full.of_not_running rfl
  | begin =>
    simp only [step] at hs
    split at hs
    · cases hs
    · rename_i hcall
      cases hs
      exact iff_of_true (full_begin h hfull hcall) trivial
  | submit success =>
    simp only [step] at hs
    split at hs
    · cases hs
    · rename_i hcall
      split at hs
      · rename_i hsuccess
        obtain ⟨current, hsocket, rfl⟩ := Option.map_eq_some_iff.mp hs
        refine iff_of_true (fun hrun socket hmem => ?_) fun _ hnot => ?_
        · have hcurrent : current = socket := Option.some.inj (hsocket.symm.trans hmem)
          subst hcurrent
          rw [← hfull hrun current hmem]
          simp only [slots, List.count_append, List.count_singleton_self]
          omega
        · rw [hsuccess] at hnot
          cases hnot
      · rename_i hfailed
        cases hs
        rw [full_submitFailed_iff h hfull hcall rfl]
        simp only [OneAtATime, Bool.eq_false_iff.mpr hfailed, forall_const]
  | complete i =>
    simp only [step] at hs
    split at hs
    · rename_i hi
      cases hs
      exact full_complete_iff h hfull hi
    · cases hs
  | retry =>
    simp only [step] at hs
    split at hs
    · cases hs
    · cases hs
      refine iff_of_true (fun hrun socket hmem => ?_) trivial
      rw [← hfull hrun socket hmem]
      simp only [slots]
      omega

theorem exists_finish {k : ServerKind} {s : SlotServer} {socket : Nat} (h : s.Inv)
    (hrun : s.isRunning = true) (hsocket : s.socket = some socket) :
    ∃ as u, (∀ a ∈ as, a.Finishes) ∧ (machine k).run s as = some u ∧ u.BetweenCallbacks ∧
      u.isRunning = true ∧ u.socket = some socket ∧ u.slots socket = s.slots socket := by
  have hmay : s.maySubmit k = true := h.maySubmit.trans hrun
  -- first the calls that have begun, then the others, one at a time
  cases hcalls : s.submitting with
  | succ n =>
    let submitted : SlotServer :=
      { s with submitting := n, outstanding := s.outstanding ++ [socket] }
    have hstep : s.step k (.submit true) = some submitted := by
      simp [step, hcalls, hsocket, submitted]
    obtain ⟨as, u, hfinish, hu, hidle, hurun, husocket, hslots⟩ :=
      exists_finish (k := k) (s := submitted) h hrun hsocket
    refine ⟨.submit true :: as, u, List.forall_mem_cons.mpr ⟨rfl, hfinish⟩,
      (machine k).run_cons.mpr ⟨submitted, hstep, hu⟩, hidle, hurun, husocket, ?_⟩
    rw [hslots]
    simp only [submitted, slots, List.count_append, List.count_singleton_self, hcalls]
    omega
  | zero =>
    cases hbegin : s.toSubmit with
    | zero => exact ⟨[], s, nofun, rfl, ⟨hbegin, hcalls⟩, hrun, hsocket, rfl⟩
    | succ n =>
      let begun : SlotServer := { s with toSubmit := n, submitting := 1 }
      have hstep : s.step k .begin = some begun := by
        simp [step, begin, hbegin, hcalls, hmay, begun]
      obtain ⟨as, u, hfinish, hu, hidle, hurun, husocket, hslots⟩ :=
        exists_finish (k := k) (s := begun) h hrun hsocket
      refine ⟨.begin :: as, u, List.forall_mem_cons.mpr ⟨trivial, hfinish⟩,
        (machine k).run_cons.mpr ⟨begun, hstep, hu⟩, hidle, hurun, husocket, ?_⟩
      rw [hslots]
      simp only [begun, slots, hbegin, hcalls]
      omega
termination_by 2 * s.toSubmit + s.submitting

theorem Full.keepsAll {k : ServerKind} {s : SlotServer} (h : s.Full k)
    (hidle : s.BetweenCallbacks) : s.KeepsAll k := by
  intro hrun socket hsocket
  have hslots := h hrun socket hsocket
  rwa [slots, hidle.1, hidle.2] at hslots

/-- A server that comes out right whenever its calls are finished has had all its slots
throughout. -/
theorem every_full_of_keepsAll {k : ServerKind} {s : SlotServer} {as : List SlotAct} (h : s.Inv)
    (hkeeps : ∀ bs cs u, bs <+: as → (∀ a ∈ cs, a.Finishes) →
      (machine k).run s (bs ++ cs) = some u → u.BetweenCallbacks → u.KeepsAll k) :
    (machine k).Every (fun _ _ s' => s'.Full k) s as := by
  induction as generalizing s with
  | nil => trivial
  | cons a as ih =>
    intro s' ha
    have h' : s'.Inv := inv_step h ha
    refine ⟨fun hrun socket hsocket => ?_, ih h' fun bs cs u hprefix hfinish hu hidle => ?_⟩
    · obtain ⟨cs, u, hfinish, hu, hidle, hurun, husocket, hslots⟩ :=
        exists_finish h' hrun hsocket
      have hall := hkeeps [a] cs u (List.prefix_append [a] as) hfinish
        ((machine k).run_cons.mpr ⟨s', ha, hu⟩) hidle hurun socket husocket
      rw [← hslots, slots, hidle.1, hidle.2]
      exact hall
    · exact hkeeps (a :: bs) cs u (List.prefix_cons_inj a |>.mpr hprefix) hfinish
        ((machine k).run_cons.mpr ⟨s', ha, hu⟩) hidle

theorem every_full_iff {k : ServerKind} {s : SlotServer} {as : List SlotAct} (h : s.Inv)
    (hfull : s.Full k) : (machine k).Every (fun _ _ s' => s'.Full k) s as ↔
      (machine k).Every (fun s a _ => s.OneAtATime a) s as :=
  (machine k).every_iff_every (I := fun s => s.Inv ∧ s.Full k)
    (fun _ _ _ hs ha hone =>
      have hfull' := (full_step_iff hs.1 hs.2 ha).mpr hone
      ⟨⟨inv_step hs.1 ha, hfull'⟩, hfull'⟩)
    (fun _ _ _ hs ha hfull' => (full_step_iff hs.1 hs.2 ha).mp hfull') ⟨h, hfull⟩

theorem oneAtATime_of_finishes {s : SlotServer} {a : SlotAct} (h : a.Finishes) :
    s.OneAtATime a := by
  cases a with
  | begin => trivial
  | submit success =>
    intro _ hnot
    rw [show success = true from h] at hnot
    cases hnot
  | init outcome => cases h
  | start => cases h
  | stop => cases h
  | complete i => cases h
  | retry => cases h

/-- The server has all its slots whenever the callbacks of a part of the run are finished,
just when the steps of the run are one at a time. -/
theorem keepsAll_iff_oneAtATime (k : ServerKind) (as : List SlotAct) :
    (∀ bs cs u, bs <+: as → (∀ a ∈ cs, a.Finishes) →
        (machine k).run created (bs ++ cs) = some u → u.BetweenCallbacks → u.KeepsAll k) ↔
      (machine k).Every (fun s a _ => s.OneAtATime a) created as := by
  have hcreated : created.Full k := Full.of_not_running rfl
  constructor
  · intro hkeeps
    exact (every_full_iff inv_created hcreated).mp (every_full_of_keepsAll inv_created hkeeps)
  · rintro hone bs cs u ⟨rest, rfl⟩ hfinish hu hidle
    have hall : (machine k).Every (fun s a _ => s.OneAtATime a) created (bs ++ cs) :=
      (machine k).every_append.mpr ⟨((machine k).every_append.mp hone).1, fun v _ =>
        (machine k).every_of_mem fun a ha s _ => oneAtATime_of_finishes (hfinish a ha)⟩
    have hfull : u.Inv ∧ u.Full k :=
      (machine k).run_invariant_of_every (I := fun s => s.Inv ∧ s.Full k)
        (fun s a s' hs ha h => ⟨inv_step hs.1 ha, (full_step_iff hs.1 hs.2 ha).mpr h⟩)
        ⟨inv_created, hcreated⟩ hall hu
    exact hfull.2.keepsAll hidle

def restarted : List SlotAct :=
  [.init .done, .start, .begin, .begin, .begin, .begin, .submit true, .submit true, .submit false,
    .submit true, .retry, .begin, .submit true, .complete 2, .begin, .submit true, .stop,
    .complete 0, .begin, .complete 0, .begin, .complete 0, .begin, .complete 0, .begin,
    .init .badRemote, .init .done, .start]

def fourSubmissions : List SlotAct :=
  [.begin, .begin, .begin, .begin, .submit true, .submit true, .submit true, .submit true]

theorem keepsAll_restarted :
    ∃ u, (machine .tcp).run created (restarted ++ fourSubmissions) = some u ∧
      u.BetweenCallbacks ∧ u.KeepsAll .tcp := by
  have hu : (machine .tcp).run created (restarted ++ fourSubmissions) = some _ := rfl
  exact ⟨_, hu, ⟨rfl, rfl⟩, (keepsAll_iff_oneAtATime .tcp restarted).mpr
    ((machine .tcp).every_of_check (by decide)) restarted fourSubmissions _ (List.prefix_refl _)
    (by simp [fourSubmissions, SlotAct.Finishes]) hu ⟨rfl, rfl⟩⟩

/-- Two of the four submissions of `Start` fail, and there is one task for both. -/
def twoFailures : List SlotAct :=
  [.init .done, .start, .begin, .begin, .begin, .begin, .submit true, .submit true, .submit false,
    .submit false]

theorem twoFailures_one_retry :
    ¬ ∃ k, ∀ as t, (machine k).run created as = some t → t.BetweenCallbacks → t.KeepsAll k := by
  rintro ⟨k, h⟩
  have ht := h twoFailures ⟨true, some 0, 1, [0, 0], true, 1, 0, 0⟩ (by cases k <;> decide)
    ⟨rfl, rfl⟩
  exact absurd (ht rfl 0 rfl) (by cases k <;> decide)

end SlotServer

end Lmnet.Windows
