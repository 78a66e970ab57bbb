import Lmnet.Windows.IocpPool

/-!
`pendingIo_` of one `TcpServerImpl`, `TcpClientImpl`, `UdpServerImpl` or `UdpClientImpl`:
`TrackPendingIo` before each submission, `CompletePendingIo` when the submission fails or
the callback ends, and the destructor, which waits until nothing is pending. The requests of
`IocpManager`, and what other objects do with them, are those of `Lmnet.Windows.IocpManager`.
-/

set_option autoImplicit false

namespace Lmnet.Windows

namespace IocpManager

/-- The callbacks that the requests of the pool hold. `PutRequest` leaves them there;
`Clear` and the end of the pool destroy them. -/
def storedCallbacks (s : IocpManager) : List Nat := s.requests.filterMap IocpRequest.callback

end IocpManager

/-- `references` are the `std::shared_ptr`s to the object apart from those the callbacks
capture. `tracked` are the functions that have called `TrackPendingIo` and come to
`SubmitOperation`. `owned` are the calls of `SubmitOperation` the object has made, and
`unsettled` those whose `CompletePendingIo` is still to come. -/
structure IoObject where
  manager : IocpManager
  pendingIo : Nat
  references : Nat
  tracked : Nat
  owned : List Nat
  unsettled : List Nat
  deriving DecidableEq, Repr

inductive IoObjectAct where
  | manager (a : IocpAct)
  | retain
  | release
  | trackPendingIo
  | submitOperation (type : IocpRequestType) (extensions : Bool) (size : Nat)
  | submitFailed (i : Nat)
  | callbackEnds (i : Nat)
  deriving DecidableEq, Repr

namespace IoObject

def created (m : IocpManager) : IoObject := ⟨m, 0, 1, 0, [], []⟩

/-- Somebody has a `std::shared_ptr` to the object: a holder outside, the `self` of a
function that submits, a callback that runs, or a callback that a request holds. -/
def Referenced (s : IoObject) : Prop :=
  0 < s.references ∨ 0 < s.tracked ∨
    (∃ i ∈ s.unsettled, s.manager.accepted i = false ∨ i ∈ s.manager.callbacks) ∨
    ∃ i ∈ s.owned, i ∈ s.manager.storedCallbacks

instance decidableReferenced (s : IoObject) : Decidable s.Referenced :=
  inferInstanceAs (Decidable (_ ∨ _ ∨ _ ∨ _))

def completePendingIo (s : IoObject) (i : Nat) : IoObject :=
  { s with
    pendingIo := if s.pendingIo = 0 then s.pendingIo else s.pendingIo - 1
    unsettled := s.unsettled.erase i }

def inCallback (s : IoObject) : IocpAct → Bool
  | .work w _ =>
      match s.manager.workers[w]? with
      | some (.recycling r) => (s.manager.callbackAt r).any (· ∈ s.unsettled)
      | _ => false
  | _ => false

/-- A function of the object runs on a reference to it. -/
def step (s : IoObject) : IoObjectAct → Option IoObject
  | .manager a =>
      if s.inCallback a then none
      else (s.manager.step a).map fun m => { s with manager := m }
  | .retain => if s.Referenced then some { s with references := s.references + 1 } else none
  | .release =>
      if 0 < s.references then some { s with references := s.references - 1 } else none
  | .trackPendingIo =>
      if s.Referenced then
        some { s with pendingIo := s.pendingIo + 1, tracked := s.tracked + 1 }
      else none
  | .submitOperation type extensions size =>
      if 0 < s.tracked ∧ type ≠ .close then
        some { s with
          manager := s.manager.submitOperation type extensions size
          tracked := s.tracked - 1
          owned := s.owned ++ [s.manager.calls.length]
          unsettled := s.unsettled ++ [s.manager.calls.length] }
      else none
  | .submitFailed i =>
      if i ∈ s.unsettled ∧ s.manager.calls[i]? = some (.returned false) then
        some (s.completePendingIo i)
      else none
  | .callbackEnds i =>
      if i ∈ s.unsettled ∧ i ∈ s.manager.callbacks then some (s.completePendingIo i) else none

def machine : Machine IoObject IoObjectAct where
  init s := ∃ m, IocpManager.machine.init m ∧ s = created m
  step := step

end IoObject

namespace IocpManager

structure Keeps (s t : IocpManager) : Prop where
  length : s.calls.length ≤ t.calls.length
  returned : ∀ (i : Nat) (success : Bool), s.calls[i]? = some (.returned success) →
    t.calls[i]? = some (.returned success)
  stored : ∀ i ∈ t.storedCallbacks, i ∈ s.storedCallbacks ∨ i = s.calls.length
  called : s.callbacks ⊆ t.callbacks
  calls : ∀ i ∈ t.callbacks, i ∈ s.callbacks ∨ i ∈ s.storedCallbacks

variable {s t : IocpManager}

theorem mem_storedCallbacks {i : Nat} :
    i ∈ s.storedCallbacks ↔ ∃ req ∈ s.requests, req.callback = some i :=
  List.mem_filterMap

theorem keeps_of_same (hlength : s.calls.length ≤ t.calls.length)
    (hreturned : ∀ (i : Nat) (success : Bool), s.calls[i]? = some (.returned success) →
      t.calls[i]? = some (.returned success))
    (hrequests : t.requests = s.requests) (hcallbacks : t.callbacks = s.callbacks) :
    s.Keeps t where
  length := hlength
  returned := hreturned
  stored i hi := by
    rw [storedCallbacks, hrequests] at hi
    exact .inl hi
  called := by rw [hcallbacks]; exact List.Subset.refl _
  calls i hi := .inl (hcallbacks ▸ hi)

theorem keeps_setCall {u : IocpManager} {i : Nat} {old new : IocpCall}
    (hold : s.calls[i]? = some old) (hnot : ∀ success, old ≠ .returned success)
    (hcalls : u.calls = s.calls.set i new) (hrequests : u.requests = s.requests)
    (hcallbacks : u.callbacks = s.callbacks) : s.Keeps u := by
  have hlength : u.calls.length = s.calls.length := by rw [hcalls, List.length_set]
  refine keeps_of_same (Nat.le_of_eq hlength.symm) (fun j success hj => ?_) hrequests hcallbacks
  have hne : j ≠ i := by
    rintro rfl
    rw [hold] at hj
    exact hnot success (Option.some.inj hj)
  rw [hcalls, List.getElem?_set_ne (Ne.symm hne)]
  exact hj

theorem keeps_got {m : IocpManager} {r size : Nat} (h : s.getRequest = some (r, m))
    (type : IocpRequestType) (call : IocpCall) :
    s.Keeps { m with
      requests := m.requests.set r (.initRequest type s.calls.length size)
      calls := s.calls ++ [call] } := by
  have hcallback : ∀ i, (IocpRequest.initRequest type s.calls.length size).callback = some i →
      i = s.calls.length := by
    intro i hi
    cases type <;> exact (Option.some.inj hi).symm
  have hnone : IocpRequest.cleared.callback = none := rfl
  have hreq : ∀ req ∈ m.requests, req ∈ s.requests ∨ req = .cleared := by
    obtain ⟨rest, -, rfl⟩ | ⟨-, -, -, rfl⟩ := getRequest_cases h
    · exact fun req hmem => List.mem_or_eq_of_mem_set hmem
    · intro req hmem
      simpa using hmem
  have hsame : m.callbacks = s.callbacks := (getRequest_submits h).callbacks
  refine ⟨by simp, fun i success hi => ?_, fun i hi => ?_, ?_, fun i hi => .inl ?_⟩
  · obtain ⟨hlt, -⟩ := List.getElem?_eq_some_iff.mp hi
    show (s.calls ++ [call])[i]? = _
    rw [List.getElem?_append_left hlt]
    exact hi
  · obtain ⟨req, hmem, hi⟩ := mem_storedCallbacks.mp hi
    obtain hmem | rfl := List.mem_or_eq_of_mem_set hmem
    · obtain hmem | rfl := hreq req hmem
      · exact .inl (mem_storedCallbacks.mpr ⟨req, hmem, hi⟩)
      · rw [hnone] at hi
        cases hi
    · exact .inr (hcallback i hi)
  · show s.callbacks ⊆ m.callbacks
    rw [hsame]
    exact List.Subset.refl _
  · rw [← hsame]
    exact hi

theorem keeps_concat (s : IocpManager) (call : IocpCall) :
    s.Keeps { s with calls := s.calls ++ [call] } := by
  refine keeps_of_same (by simp) (fun i success hi => ?_) rfl rfl
  obtain ⟨hlt, -⟩ := List.getElem?_eq_some_iff.mp hi
  show (s.calls ++ [call])[i]? = _
  rw [List.getElem?_append_left hlt]
  exact hi

theorem submitOperation_keeps (s : IocpManager) (type : IocpRequestType) (extensions : Bool)
    (size : Nat) : s.Keeps (s.submitOperation type extensions size) := by
  unfold submitOperation
  split
  · exact s.keeps_concat _
  · split
    · exact s.keeps_concat _
    · rename_i r m h
      exact keeps_got h type _

theorem submitCloseRequest_keeps (s : IocpManager) (valid : Bool) :
    s.Keeps (s.submitCloseRequest valid) := by
  unfold submitCloseRequest
  split
  · split
    · exact s.keeps_concat _
    · rename_i r m h
      exact keeps_got h .close _
  · exact s.keeps_concat _

theorem post_keeps {i : Nat} {success : Bool} (h : s.post i success = some t) : s.Keeps t := by
  unfold post at h
  split at h
  · rename_i r hcall
    split at h
    · cases h
      exact keeps_setCall hcall (by simp) rfl rfl rfl
    · cases h
      exact keeps_setCall hcall (by simp) rfl rfl rfl
  · cases h

theorem closesocket_keeps {i : Nat} {success : Bool} (h : s.closesocket i success = some t) :
    s.Keeps t := by
  unfold closesocket at h
  split at h
  · rename_i r hcall
    cases h
    exact keeps_setCall hcall (by simp) rfl rfl rfl
  · cases h

theorem returnRequest_keeps {i : Nat} (h : s.returnRequest i = some t) : s.Keeps t := by
  unfold returnRequest at h
  split at h
  · rename_i r hcall
    cases h
    exact keeps_setCall hcall (by simp) rfl rfl rfl
  · rename_i r success hcall
    cases h
    exact keeps_setCall hcall (by simp) rfl rfl rfl
  · cases h

theorem work_keeps {w : Nat} {wsaError : Option Nat} {worker : IocpWorker}
    (h : s.work w wsaError worker = some t) : s.Keeps t := by
  have hidle : ∀ u : IocpManager, u.calls = s.calls → u.requests = s.requests →
      u.callbacks = s.callbacks → s.Keeps u := fun u hcalls hrequests hcallbacks =>
    keeps_of_same (Nat.le_of_eq (congrArg List.length hcalls).symm)
      (fun i success hi => by rw [hcalls]; exact hi) hrequests hcallbacks
  cases worker with
  | handling o bytes error =>
    obtain ⟨req, hreq, rfl⟩ := Option.map_eq_some_iff.mp h
    have hmem := List.mem_of_getElem? hreq
    split
    · rename_i hhandled
      obtain ⟨-, -, -, rfl⟩ := handleCompletion_resubmitted hhandled
      refine ⟨Nat.le_refl _, fun _ _ hi => hi, fun i hi => .inl ?_, List.Subset.refl _,
        fun _ hi => .inl hi⟩
      obtain ⟨x, hx, hstored⟩ := mem_storedCallbacks.mp hi
      obtain hx | rfl := List.mem_or_eq_of_mem_set hx
      · exact mem_storedCallbacks.mpr ⟨x, hx, hstored⟩
      · exact mem_storedCallbacks.mpr ⟨req, hmem, hstored⟩
    · refine ⟨Nat.le_refl _, fun _ _ hi => hi, fun _ hi => .inl hi,
        List.subset_append_left _ _, fun i hi => ?_⟩
      obtain hi | hi := List.mem_append.mp hi
      · exact .inl hi
      · exact .inr (mem_storedCallbacks.mpr ⟨req, hmem, by simpa using hi⟩)
  | loop | woken | stopSeen | notForced | recycling =>
    cases h
    exact hidle _ rfl rfl rfl
  | waiting | exited => cases h

theorem step_keeps {a : IocpAct} (h : s.step a = some t) : s.Keeps t := by
  have hidle : ∀ u : IocpManager, u.calls = s.calls → u.requests = s.requests →
      u.callbacks = s.callbacks → s.Keeps u := fun u hcalls hrequests hcallbacks =>
    keeps_of_same (Nat.le_of_eq (congrArg List.length hcalls).symm)
      (fun i success hi => by rw [hcalls]; exact hi) hrequests hcallbacks
  cases a with
  | submitOperation type extensions size =>
    simp only [step] at h
    split at h
    · cases h
    · cases h
      exact s.submitOperation_keeps type extensions size
  | post i success => exact post_keeps h
  | submitCloseRequest valid =>
    cases h
    exact s.submitCloseRequest_keeps valid
  | closesocket i success => exact closesocket_keeps h
  | putRequest i => exact returnRequest_keeps h
  | complete k bytes error =>
    obtain ⟨o, -, rfl⟩ := Option.map_eq_some_iff.mp h
    exact hidle _ rfl rfl rfl
  | take w j =>
    simp only [step, take] at h
    split at h
    · cases h
      exact hidle _ rfl rfl rfl
    · cases h
      exact hidle _ rfl rfl rfl
    · cases h
  | noPacket w =>
    simp only [step] at h
    split at h
    · cases h
      exact hidle _ rfl rfl rfl
    · cases h
  | work w wsaError =>
    obtain ⟨worker, -, hwork⟩ := Option.bind_eq_some_iff.mp h
    exact work_keeps hwork
  | exit =>
    cases h
    exact hidle _ rfl rfl rfl
  | stop =>
    cases h
    unfold stop
    split <;> exact hidle _ rfl rfl rfl
  | postWakeUp =>
    simp only [step] at h
    split at h
    · cases h
      exact hidle _ rfl rfl rfl
    · cases h
  | join =>
    simp only [step] at h
    split at h
    · cases h
      exact hidle _ rfl rfl rfl
    · cases h
  | clear =>
    simp only [step] at h
    split at h
    · cases h
      refine ⟨Nat.le_refl _, fun _ _ hi => hi, fun i hi => ?_, List.Subset.refl _,
        fun _ hi => .inl hi⟩
      cases hi
    · cases h

end IocpManager

namespace IoObject

/-- Every submission of the object is counted until it fails or its callback ends. -/
structure Inv (s : IoObject) : Prop where
  pool : s.manager.PoolInv
  count : s.pendingIo = s.tracked + s.unsettled.length
  owned : ∀ i ∈ s.unsettled, i ∈ s.owned
  made : ∀ i ∈ s.owned, i < s.manager.calls.length
  settled : ∀ i ∈ s.owned, i ∈ s.unsettled ∨ i ∈ s.manager.callbacks ∨
    s.manager.calls[i]? = some (.returned false)

theorem created_inv {m : IocpManager} (hinit : IocpManager.machine.init m) :
    (created m).Inv where
  pool := IocpManager.run_poolInv hinit (IocpManager.machine.run_nil m)
  count := rfl
  owned _ hi := nomatch hi
  made _ hi := nomatch hi
  settled _ hi := nomatch hi

variable {s t : IoObject}

theorem Inv.manager (h : s.Inv) {m : IocpManager} {a : IocpAct}
    (hm : s.manager.step a = some m) : ({ s with manager := m } : IoObject).Inv := by
  have hkeeps := IocpManager.step_keeps hm
  refine ⟨IocpManager.step_poolInv h.pool hm, h.count, h.owned,
    fun i hi => Nat.lt_of_lt_of_le (h.made i hi) hkeeps.length, fun i hi => ?_⟩
  obtain hun | hcalled | hfailed := h.settled i hi
  · exact .inl hun
  · exact .inr (.inl (hkeeps.called hcalled))
  · exact .inr (.inr (hkeeps.returned i false hfailed))

theorem Inv.submitOperation (h : s.Inv) {type : IocpRequestType} (htype : type ≠ .close)
    (extensions : Bool) (size : Nat) (htracked : 0 < s.tracked) :
    ({ s with
      manager := s.manager.submitOperation type extensions size
      tracked := s.tracked - 1
      owned := s.owned ++ [s.manager.calls.length]
      unsettled := s.unsettled ++ [s.manager.calls.length] } : IoObject).Inv := by
  have hstep : s.manager.step (.submitOperation type extensions size) =
      some (s.manager.submitOperation type extensions size) := by
    simp [IocpManager.step, htype]
  have hmanager := h.manager hstep
  have hnew : s.manager.calls.length <
      (s.manager.submitOperation type extensions size).calls.length := by
    unfold IocpManager.submitOperation
    split
    · simp
    · split <;> simp
  refine ⟨hmanager.pool, ?_, fun i hi => ?_, fun i hi => ?_, fun i hi => ?_⟩
  · have hcount := h.count
    simp only [List.length_append, List.length_singleton]
    omega
  · obtain hi | hi := List.mem_append.mp hi
    · exact List.mem_append_left _ (h.owned i hi)
    · exact List.mem_append_right _ hi
  · obtain hi | hi := List.mem_append.mp hi
    · exact hmanager.made i hi
    · rw [List.mem_singleton.mp hi]
      exact hnew
  · obtain hi | hi := List.mem_append.mp hi
    · obtain hun | hrest := hmanager.settled i hi
      · exact .inl (List.mem_append_left _ hun)
      · exact .inr hrest
    · exact .inl (List.mem_append_right _ hi)

theorem Inv.completePendingIo (h : s.Inv) {i : Nat} (hi : i ∈ s.unsettled)
    (hover : i ∈ s.manager.callbacks ∨ s.manager.calls[i]? = some (.returned false)) :
    (s.completePendingIo i).Inv where
  pool := h.pool
  count := by
    have hcount := h.count
    have hpos := List.length_pos_of_mem hi
    simp only [IoObject.completePendingIo, List.length_erase_of_mem hi]
    split <;> omega
  owned j hj := h.owned j (List.mem_of_mem_erase hj)
  made := h.made
  settled j hj := by
    by_cases hji : j = i
    · subst hji
      exact .inr hover
    · obtain hun | hrest := h.settled j hj
      · exact .inl ((List.mem_erase_of_ne hji).mpr hun)
      · exact .inr hrest

theorem Inv.step (h : s.Inv) {a : IoObjectAct} (hs : s.step a = some t) : t.Inv := by
  cases a with
  | manager a =>
    simp only [IoObject.step] at hs
    split at hs
    · cases hs
    · obtain ⟨m, hm, rfl⟩ := Option.map_eq_some_iff.mp hs
      exact h.manager hm
  | retain | release =>
    simp only [IoObject.step] at hs
    split at hs
    · cases hs
      exact ⟨h.pool, h.count, h.owned, h.made, h.settled⟩
    · cases hs
  | trackPendingIo =>
    simp only [IoObject.step] at hs
    split at hs
    · cases hs
      refine ⟨h.pool, ?_, h.owned, h.made, h.settled⟩
      have hcount := h.count
      dsimp only
      omega
    · cases hs
  | submitOperation type extensions size =>
    simp only [IoObject.step] at hs
    split at hs
    · rename_i hsubmits
      cases hs
      exact h.submitOperation hsubmits.2 extensions size hsubmits.1
    · cases hs
  | submitFailed i =>
    simp only [IoObject.step] at hs
    split at hs
    · rename_i hfailed
      cases hs
      exact h.completePendingIo hfailed.1 (.inr hfailed.2)
    · cases hs
  | callbackEnds i =>
    simp only [IoObject.step] at hs
    split at hs
    · rename_i hcalled
      cases hs
      exact h.completePendingIo hcalled.1 (.inl hcalled.2)
    · cases hs

theorem inv_of_run {as : List IoObjectAct} (h : s.Inv) (hrun : machine.run s as = some t) :
    t.Inv :=
  machine.run_invariant (fun _ _ _ hs hstep => hs.step hstep) h hrun

/-- What is pending on an object without references was accepted and never called back. -/
theorem accepted_of_unreferenced (h : ¬ s.Referenced) {i : Nat} (hi : i ∈ s.unsettled) :
    s.manager.accepted i = true ∧ i ∉ s.manager.callbacks := by
  refine ⟨?_, fun hcalled => h (.inr (.inr (.inl ⟨i, hi, .inr hcalled⟩)))⟩
  by_contra hnot
  exact h (.inr (.inr (.inl ⟨i, hi, .inl (Bool.not_eq_true _ ▸ hnot)⟩)))

/-- While the pool is there, an operation in flight keeps its object alive. -/
theorem Inv.unsettled_of_unreferenced (h : s.Inv) (hfree : ¬ s.Referenced)
    (hpool : s.manager.stopping ≠ .cleared) : s.unsettled = [] := by
  by_contra hne
  obtain ⟨i, hi⟩ := List.exists_mem_of_ne_nil _ hne
  obtain ⟨haccepted, hcalled⟩ := accepted_of_unreferenced hfree hi
  have honce := (h.pool.called hpool).once i
  rw [List.count_eq_zero.mpr hcalled, haccepted, Bool.toNat_true, Nat.zero_add] at honce
  obtain ⟨o, ho, hop⟩ := List.countP_pos_iff.mp (Nat.lt_of_lt_of_eq Nat.zero_lt_one honce.symm)
  obtain rfl := eq_of_beq hop
  obtain ⟨req, hreq, hcallback⟩ :=
    Option.bind_eq_some_iff.mp ((h.pool.called hpool).flying o ho)
  have hstored := IocpManager.mem_storedCallbacks.mpr ⟨req, List.mem_of_getElem? hreq, hcallback⟩
  exact hfree (.inr (.inr (.inr ⟨o.op, h.owned _ hi, hstored⟩)))

theorem tracked_of_unreferenced (h : ¬ s.Referenced) : s.tracked = 0 := by
  by_contra hne
  exact h (.inr (.inl (Nat.pos_of_ne_zero hne)))

theorem Inv.pendingIo_of_unreferenced (h : s.Inv) (hfree : ¬ s.Referenced) :
    s.pendingIo = s.unsettled.length := by
  rw [h.count, tracked_of_unreferenced hfree, Nat.zero_add]

/-- Nothing is pending just when every operation that was accepted has been called back. -/
theorem Inv.pendingIo_eq_zero_iff (h : s.Inv) (hfree : ¬ s.Referenced) :
    s.pendingIo = 0 ↔
      ∀ i ∈ s.owned, s.manager.accepted i = true → i ∈ s.manager.callbacks := by
  rw [h.pendingIo_of_unreferenced hfree, List.length_eq_zero_iff]
  constructor
  · intro hnone i hi haccepted
    obtain hun | hcalled | hfailed := h.settled i hi
    · rw [hnone] at hun
      cases hun
    · exact hcalled
    · simp [IocpManager.accepted, hfailed] at haccepted
  · intro hall
    by_contra hne
    obtain ⟨i, hi⟩ := List.exists_mem_of_ne_nil _ hne
    obtain ⟨haccepted, hcalled⟩ := accepted_of_unreferenced hfree hi
    exact hcalled (hall i (h.owned i hi) haccepted)

/-- Nobody gets a reference to the object again, and nothing of it is completed. -/
theorem Inv.unreferenced_step (h : s.Inv) (hfree : ¬ s.Referenced) {a : IoObjectAct}
    (hs : s.step a = some t) : ¬ t.Referenced ∧ t.pendingIo = s.pendingIo := by
  have hreferences : s.references = 0 := by
    by_contra hne
    exact hfree (.inl (Nat.pos_of_ne_zero hne))
  have htracked := tracked_of_unreferenced hfree
  cases a with
  | manager a =>
    simp only [IoObject.step] at hs
    split at hs
    · cases hs
    · obtain ⟨m, hm, rfl⟩ := Option.map_eq_some_iff.mp hs
      have hkeeps := IocpManager.step_keeps hm
      refine ⟨?_, rfl⟩
      rintro (hpos | hpos | ⟨i, hi, hopen⟩ | ⟨i, hi, hstored⟩)
      · exact hfree (.inl hpos)
      · exact hfree (.inr (.inl hpos))
      · obtain ⟨haccepted, hcalled⟩ := accepted_of_unreferenced hfree hi
        obtain hnot | hnow := hopen
        · have hstill := hkeeps.returned i true (eq_of_beq haccepted)
          simp [IocpManager.accepted, hstill] at hnot
        · obtain hbefore | hstored := hkeeps.calls i hnow
          · exact hcalled hbefore
          · exact hfree (.inr (.inr (.inr ⟨i, h.owned i hi, hstored⟩)))
      · obtain hbefore | hnew := hkeeps.stored i hstored
        · exact hfree (.inr (.inr (.inr ⟨i, hi, hbefore⟩)))
        · exact absurd hnew (Nat.ne_of_lt (h.made i hi))
  | retain | trackPendingIo => simp [IoObject.step, hfree] at hs
  | release => simp [IoObject.step, hreferences] at hs
  | submitOperation => simp [IoObject.step, htracked] at hs
  | submitFailed i =>
    simp only [IoObject.step] at hs
    split at hs
    · rename_i hfailed
      have haccepted := (accepted_of_unreferenced hfree hfailed.1).1
      simp [IocpManager.accepted, hfailed.2] at haccepted
    · cases hs
  | callbackEnds i =>
    simp only [IoObject.step] at hs
    split at hs
    · rename_i hcalled
      exact absurd hcalled.2 (accepted_of_unreferenced hfree hcalled.1).2
    · cases hs

theorem Inv.unreferenced_run {as : List IoObjectAct} (h : s.Inv) (hfree : ¬ s.Referenced)
    (hrun : machine.run s as = some t) : ¬ t.Referenced ∧ t.pendingIo = s.pendingIo := by
  induction as generalizing s with
  | nil =>
    cases hrun
    exact ⟨hfree, rfl⟩
  | cons a as ih =>
    obtain ⟨u, ha, has⟩ := machine.run_cons.mp hrun
    obtain ⟨hu, hsame⟩ := h.unreferenced_step hfree ha
    obtain ⟨ht, hrest⟩ := ih (h.step ha) hu has
    exact ⟨ht, hrest.trans hsame⟩

/-- In every run `pendingIo_` counts the submissions that have neither failed nor come back.
When the last reference goes, the destructor's `WaitForPendingIo` returns at once if every
operation that was accepted has been called back, as it has while the pool is there; if not,
it waits for ever. -/
theorem destructor_waits {as : List IoObjectAct} (hinit : machine.init s)
    (hrun : machine.run s as = some t) :
    t.pendingIo = t.tracked + t.unsettled.length ∧
      (¬ t.Referenced →
        (t.pendingIo = 0 ↔
          ∀ i ∈ t.owned, t.manager.accepted i = true → i ∈ t.manager.callbacks) ∧
        (t.manager.stopping ≠ .cleared → t.pendingIo = 0) ∧
        ∀ bs u, machine.run t bs = some u → ¬ u.Referenced ∧ u.pendingIo = t.pendingIo) := by
  obtain ⟨m, hm, rfl⟩ := hinit
  have hinv := inv_of_run (created_inv hm) hrun
  refine ⟨hinv.count, fun hfree => ⟨hinv.pendingIo_eq_zero_iff hfree, fun hpool => ?_,
    fun bs u hbs => hinv.unreferenced_run hfree hbs⟩⟩
  rw [hinv.pendingIo_of_unreferenced hfree, hinv.unsettled_of_unreferenced hfree hpool]
  rfl

/-- A read is in flight when `Exit` clears the pool; the application has let go of the
object. -/
def exitDuringRead : List IoObjectAct :=
  [.trackPendingIo, .submitOperation .read true 64, .manager (.post 0 true), .release] ++
    [.exit, .work 0 none, .stop, .postWakeUp, .take 0 0, .work 0 none, .work 0 none,
      .join, .clear].map .manager

theorem destructor_waits_exitDuringRead :
    ∃ s t, machine.init s ∧ machine.run s exitDuringRead = some t ∧ ¬ t.Referenced ∧
      ∀ bs u, machine.run t bs = some u → u.pendingIo = 1 := by
  have hinit : machine.init (created (.init 1 1 1)) := ⟨_, ⟨1, 1, 1, rfl⟩, rfl⟩
  obtain ⟨t, hrun, hfree, hone⟩ : ∃ t, machine.run (created (.init 1 1 1)) exitDuringRead =
      some t ∧ ¬ t.Referenced ∧ t.pendingIo = 1 := ⟨_, rfl, by decide, rfl⟩
  refine ⟨_, t, hinit, hrun, hfree, fun bs u hbs => ?_⟩
  exact (((destructor_waits hinit hrun).2 hfree).2.2 bs u hbs).2.trans hone

end IoObject

end Lmnet.Windows
