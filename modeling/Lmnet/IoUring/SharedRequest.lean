import Lmnet.IoUring.SoleRequest
import Mathlib.Data.Bool.Basic

/-!
A request that is in two places when a call gets it: the callback written into it is lost or
comes twice, and nobody can tell beforehand that it will not.
-/

set_option autoImplicit false

namespace Lmnet.IoUring

def Worker.underWay (p : Nat → Bool) : Worker → Nat
  | .handling cqe => (p cqe.1.userData).toNat
  | _ => 0

namespace LifeCycle

def underWay (s : LifeCycle) (p : Nat → Bool) : Nat :=
  s.manager.inflight.countP (fun q => p q.userData) + s.cq.countP (fun c => p c.1.userData) +
    s.worker.underWay p

/-- How often the callback of operation `i` comes if the worker and the kernel finish what is
under way. -/
def due (s : LifeCycle) (i : Nat) : Nat :=
  s.underWay (fun r => s.manager.callbackAt r == some i) + s.invoked.countP (·.callback == i)

def distance (s : LifeCycle) : Nat :=
  4 * s.manager.inflight.length + 3 * s.cq.length +
    match s.worker with
    | .waiting => 0
    | .handling _ => 2
    | .putting _ => 1

structure Handed (s : LifeCycle) (i : Nat) : Prop where
  returned : s.calls[i]? = some (.returned true)
  prepared : s.manager.prepared = []

/-- What is under way belongs to no operation any more. -/
def Idle (s : LifeCycle) : Prop :=
  s.manager.inflight = [] ∧ s.cq = [] ∧ s.worker = .waiting

/-- The worker and the kernel can get on, and what they do leaves the count as it is. -/
theorem exists_finishing {s : LifeCycle} {i : Nat} (hs : s.Handed i) (hidle : ¬ s.Idle) :
    ∃ a s', s.step a = some s' ∧ a.call = none ∧ (s'.Handed i ∧ s'.due i = s.due i) ∧
      s'.distance < s.distance := by
  cases hw : s.worker with
  | handling c =>
    refine ⟨.handleCompletion, { s.invoke c.1.userData c.1.op c.2 with
      worker := .putting c.1.userData }, by simp [step, handleCompletion, hw], rfl,
      ⟨⟨hs.returned, hs.prepared⟩, ?_⟩, by simp [distance, hw, invoke]⟩
    simp only [due, underWay, Worker.underWay, invoke, hw, List.countP_append]
    cases hc : s.manager.callbackAt c.1.userData with
    | none => simp
    | some k => by_cases hk : k = i <;> simp [hk]; omega
  | putting r =>
    refine ⟨.workerPut, { s with manager := s.manager.putRequest r, worker := .waiting },
      by simp [step, workerPut, hw], rfl, ⟨⟨hs.returned, hs.prepared⟩, ?_⟩, ?_⟩
    · simp only [due, underWay, Worker.underWay, hw]
      rfl
    · simp only [distance, hw]
      exact Nat.lt_succ_self _
  | waiting =>
    cases hcq : s.cq with
    | cons c rest =>
      refine ⟨.waitCqe, { s with worker := .handling c, cq := rest }, by
        simp [step, waitCqe, hw, hcq], rfl, ⟨⟨hs.returned, hs.prepared⟩, ?_⟩, ?_⟩
      · simp only [due, underWay, Worker.underWay, hw, hcq, List.countP_cons]
        cases s.manager.callbackAt c.1.userData == some i <;> simp
        omega
      · simp only [distance, hw, hcq, List.length_cons]
        omega
    | nil =>
      cases hin : s.manager.inflight with
      | nil => exact absurd ⟨hin, hcq, hw⟩ hidle
      | cons q rest =>
        refine ⟨.complete 0 0, { s with
          manager := { s.manager with inflight := rest }
          cq := [(q, 0)] }, by simp [step, complete, Manager.complete, hin, hcq], rfl,
          ⟨⟨hs.returned, hs.prepared⟩, ?_⟩, ?_⟩
        · simp only [due, underWay, hw, hcq, hin, List.countP_cons, List.countP_nil]
          have hsame : ({ s.manager with inflight := rest } : Manager Nat).callbackAt =
              s.manager.callbackAt := rfl
          rw [hsame]
          omega
        · simp only [distance, hw, hcq, hin, List.length_cons, List.length_nil]
          omega

/-- There are runs on in which nothing more is asked of the ring by call `i`, and at whose end its
operation is over but has not been cleaned up after once. -/
def Miscounts (s : LifeCycle) (i : Nat) : Prop :=
  ∃ as t, machine.run s as = some t ∧ (∀ o, .ring i o ∉ as) ∧ t.Settled i true ∧ t.cleanups i ≠ 1

theorem Miscounts.of_run {s s' : LifeCycle} {i : Nat} {as : List LifeAct}
    (h : machine.run s as = some s') (has : ∀ o, .ring i o ∉ as) (hs : s'.Miscounts i) :
    s.Miscounts i := by
  obtain ⟨bs, t, hrun, hring, hsettled⟩ := hs
  refine ⟨as ++ bs, t, machine.run_append.mpr ⟨s', h, hrun⟩, fun o ho => ?_, hsettled⟩
  obtain ho | ho := List.mem_append.mp ho
  · exact has o ho
  · exact hring o ho

theorem Miscounts.of_step {s s' : LifeCycle} {i : Nat} {a : LifeAct} (h : s.step a = some s')
    (ha : ∀ o, a ≠ .ring i o) (hs : s'.Miscounts i) : s.Miscounts i :=
  .of_run (machine.run_cons.mpr ⟨s', h, rfl⟩) (fun o ho => ha o (List.mem_singleton.mp ho).symm) hs

theorem Handed.miscounts {s : LifeCycle} {i : Nat} (hs : s.Handed i) (hdue : s.due i ≠ 1) :
    s.Miscounts i := by
  obtain ⟨as, t, -, hrun, hcalls, ⟨ht, hsame⟩, hinflight, hcq, hworker⟩ :=
    machine.exists_run_of_progress (I := fun u => u.Handed i ∧ u.due i = s.due i) (G := Idle)
      (P := fun _ a _ => a.call = none) distance
      (fun u hu hidle => by
        obtain ⟨a, u', hstep, ha, ⟨hu', hsame⟩, hlt⟩ := exists_finishing hu.1 hidle
        exact ⟨a, u', hstep, ha, ⟨hu', hsame.trans hu.2⟩, hlt⟩) ⟨hs, rfl⟩
  refine ⟨as, t, hrun, fun o ho => ?_, ⟨ht.returned, fun _ q hq => ?_⟩, ?_⟩
  · cases (machine.every_label hrun).mp hcalls _ ho
  · obtain hq | ⟨hq⟩ | ⟨result, hq⟩ | ⟨result, hq⟩ := hq
    · simp [ht.prepared] at hq
    · simp [hinflight] at hq
    · simp [hcq] at hq
    · simp [hworker] at hq
  · have hcleanups : t.cleanups i = t.due i := by
      simp [cleanups, due, underWay, Worker.underWay, ht.returned, hinflight, hcq, hworker]
    rwa [hcleanups, hsame]

theorem underWay_mono (s : LifeCycle) {p p' : Nat → Bool} (h : ∀ r, p r = true → p' r = true) :
    s.underWay p ≤ s.underWay p' := by
  have hinflight := List.countP_mono_left (l := s.manager.inflight) fun q _ => h q.userData
  have hcq := List.countP_mono_left (l := s.cq) fun c _ => h c.1.userData
  have hworker : s.worker.underWay p ≤ s.worker.underWay p' := by
    cases s.worker with
    | handling c => exact Bool.toNat_le_toNat (h c.1.userData)
    | _ => exact Nat.le_refl 0
  simp only [underWay]
  omega

/-- Every entry under way for a request brings the callback in it. -/
theorem underWay_le_due {s : LifeCycle} {i r : Nat} (h : s.manager.callbackAt r = some i) :
    s.underWay (· == r) + s.invoked.countP (·.callback == i) ≤ s.due i := by
  refine Nat.add_le_add_right (s.underWay_mono fun x hx => ?_) _
  rw [beq_iff_eq.mp hx, h, beq_self_eq_true]

theorem due_eq_zero {s : LifeCycle} {i : Nat} (h : ∀ x, s.manager.callbackAt x ≠ some i)
    (hinvoked : s.invoked.countP (·.callback == i) = 0) : s.due i = 0 := by
  have hfalse : ∀ x, (s.manager.callbackAt x == some i) = false := fun x => by simpa using h x
  simp only [due, underWay, hfalse, hinvoked, List.countP_false]
  cases s.worker <;> rfl

/-- The callback of operation `i` is in request `r` and has not come, but the entry that is to
bring it is with the kernel. -/
structure Awaits (s : LifeCycle) (i r : Nat) : Prop extends s.Handed i where
  isRunning : s.manager.isRunning = true
  callbackAt : ∀ x, s.manager.callbackAt x = some i ↔ x = r
  invoked : s.invoked.countP (·.callback == i) = 0

theorem run_getRequest {s : LifeCycle} {x : Nat} {rest : List Nat}
    (hrunning : s.manager.isRunning = true) (hfree : s.manager.freeRequests = x :: rest) :
    machine.run s [.submitOperation .read 0, .check s.calls.length, .getRequest s.calls.length] =
      some { s with
        calls := s.calls ++ [.cleared .read 0 x]
        manager := { s.manager with
          freeRequests := rest
          requestPool := s.manager.requestPool.set x .cleared } } := by
  simp [Machine.run, machine, step, check, getRequest, setCall, hrunning, Manager.getRequest, hfree]

/-- If the request is free, other calls can take it before the completion comes. -/
theorem Awaits.miscounts_of_free {s : LifeCycle} {i r : Nat} {free : List Nat} (hs : s.Awaits i r)
    (hfree : s.manager.freeRequests = free) (hr : r ∈ free) : s.Miscounts i := by
  induction free generalizing s with
  | nil => cases hr
  | cons x rest ih =>
    refine Miscounts.of_run (run_getRequest hs.isRunning hfree) (by simp) ?_
    have hlt : i < s.calls.length := (List.getElem?_eq_some_iff.mp hs.returned).1
    have hreturned : (s.calls ++ [Stage.cleared .read 0 x])[i]? = some (.returned true) :=
      (List.getElem?_append_left hlt).trans hs.returned
    have hother : ∀ y, x ≠ y → ({ s.manager with
        freeRequests := rest
        requestPool := s.manager.requestPool.set x .cleared } : Manager Nat).callbackAt y =
          s.manager.callbackAt y := fun y hy => s.manager.callbackAt_set_ne .cleared hy
    have hself : ({ s.manager with
        freeRequests := rest
        requestPool := s.manager.requestPool.set x .cleared } : Manager Nat).callbackAt x =
          none := by
      by_cases hx : x < s.manager.requestPool.length <;>
        simp [Manager.callbackAt, Request.cleared, hx]
    by_cases hx : x = r
    · subst hx
      refine Handed.miscounts ⟨hreturned, hs.prepared⟩ ?_
      refine ne_of_eq_of_ne (due_eq_zero (fun y hy => ?_) hs.invoked) Nat.zero_ne_one
      by_cases hxy : x = y
      · subst hxy
        rw [hself] at hy
        cases hy
      · rw [hother y hxy] at hy
        exact hxy ((hs.callbackAt y).mp hy).symm
    · refine ih ⟨⟨hreturned, hs.prepared⟩, hs.isRunning, fun y => ?_, hs.invoked⟩ rfl
        ((List.mem_cons.mp hr).resolve_left (Ne.symm hx))
      by_cases hxy : x = y
      · subst hxy
        rw [hself]
        exact iff_of_false (by simp) hx
      · rw [hother y hxy]
        exact hs.callbackAt y

theorem Awaits.miscounts_of_twice {s : LifeCycle} {i r : Nat} (hs : s.Awaits i r)
    (h : 2 ≤ s.underWay (· == r)) : s.Miscounts i := by
  have hle := underWay_le_due ((hs.callbackAt r).mpr rfl)
  exact hs.toHanded.miscounts (by omega)

/-- So it is if another call holds the request, whatever that call goes on to do with it. -/
theorem Awaits.miscounts_of_call {s : LifeCycle} {i r j : Nat} {c : Stage} (hs : s.Awaits i r)
    (hlt : r < s.manager.requestPool.length) (hentry : 0 < s.underWay (· == r))
    (hj : s.calls[j]? = some c) (hc : c.holds r = true) : s.Miscounts i := by
  have hreturned := hs.returned
  have hji : j ≠ i := by
    rintro rfl
    rw [hj] at hreturned
    cases hreturned
    cases hc
  have hkept : ∀ c' : Stage, (s.calls.set j c')[i]? = some (.returned true) := fun c' => by
    rw [List.getElem?_set_ne hji, hreturned]
  cases c with
  | cleared type fd x =>
    -- it writes its own callback over that of operation `i`
    obtain rfl : x = r := by simpa [Stage.holds] using hc
    have hstep : s.step (.initRequest j) = some { s.setCall j (.prepared x) with
        manager := s.manager.initRequest x type fd j } := by simp [step, initRequest, hj]
    refine Miscounts.of_step hstep (by simp) (Handed.miscounts ⟨hkept _, hs.prepared⟩ ?_)
    refine ne_of_eq_of_ne (due_eq_zero (fun y hy => ?_) hs.invoked) Nat.zero_ne_one
    by_cases hxy : x = y
    · subst hxy
      rw [s.manager.callbackAt_initRequest type fd j hlt] at hy
      exact hji (Option.some.inj hy)
    · rw [Manager.initRequest, s.manager.callbackAt_set_ne _ hxy] at hy
      exact hxy ((hs.callbackAt y).mp hy).symm
  | prepared x =>
    -- two entries for the request are under way
    obtain rfl : x = r := by simpa [Stage.holds] using hc
    have hstep : s.step (.ring j (.submit 0)) = some { s.setCall j (.returned true) with
        manager := { s.manager with inflight := s.manager.inflight ++ [⟨x, j⟩] } } := by
      simp [step, ring, hj, RingOutcome.result, Manager.ring, hs.prepared, setCall]
    refine Miscounts.of_step hstep (by simp [hji]) (Awaits.miscounts_of_twice (r := x)
      ⟨⟨hkept _, hs.prepared⟩, hs.isRunning, hs.callbackAt, hs.invoked⟩ ?_)
    simp only [underWay, setCall, List.countP_append, List.countP_singleton, beq_self_eq_true,
      if_true] at hentry ⊢
    omega
  | failed x error =>
    -- it reports its error to operation `i`, whose completion is still to come
    obtain rfl : x = r := by simpa [Stage.holds] using hc
    have hcallback := (hs.callbackAt x).mpr rfl
    have hstep : s.step (.completeWithError j) =
        some ((s.invoke x j error).setCall j (.putting x)) := by simp [step, completeWithError, hj]
    refine Miscounts.of_step hstep (by simp) (Handed.miscounts ⟨hkept _, hs.prepared⟩ ?_)
    have hle := underWay_le_due (s := (s.invoke x j error).setCall j (.putting x)) hcallback
    simp only [invoke, setCall, hcallback, underWay, Option.map_some, Option.toList_some,
      List.countP_append, List.countP_singleton, beq_self_eq_true, if_true] at hentry hle ⊢
    omega
  | putting x =>
    obtain rfl : x = r := by simpa [Stage.holds] using hc
    have hstep : s.step (.putRequest j) = some { s.setCall j (.returned false) with
        manager := s.manager.putRequest x } := by simp [step, putRequest, hj]
    exact Miscounts.of_step hstep (by simp) (Awaits.miscounts_of_free (r := x)
      ⟨⟨hkept _, hs.prepared⟩, hs.isRunning, hs.callbackAt, hs.invoked⟩ rfl List.mem_cons_self)
  | begun type fd | checked type fd | rejecting error | returned accepted => cases hc

def accepted (s : LifeCycle) (i r : Nat) (type : RequestType) (fd : Fd) (rest : List Nat) :
    LifeCycle :=
  { s with
    calls := s.calls.set i (.returned true)
    manager := { s.manager with
      freeRequests := rest
      requestPool := s.manager.requestPool.set r ⟨type, fd, some i⟩
      prepared := []
      inflight := s.manager.inflight ++ (s.manager.prepared ++ [⟨r, i⟩]) } }

section Checked

variable {s : LifeCycle} {i r : Nat} {type : RequestType} {fd : Fd} {rest : List Nat}
  (hi : s.calls[i]? = some (.checked type fd)) (hfree : s.manager.freeRequests = r :: rest)

include hi hfree

theorem run_accepted {ret : Int} (hret : 0 ≤ ret) :
    machine.run s [.getRequest i, .initRequest i, .ring i (.submit ret)] =
      some (s.accepted i r type fd rest) := by
  obtain ⟨hlt, hi⟩ := List.getElem?_eq_some_iff.mp hi
  simp [Machine.run, machine, step, getRequest, initRequest, ring, setCall, hi, hfree, hlt, hret,
    Manager.getRequest, Manager.initRequest, Manager.ring, RingOutcome.result, accepted]

theorem run_failed {o : RingOutcome} (ho : ¬ 0 ≤ o.result)
    (hpool : r < s.manager.requestPool.length) :
    ∃ t, machine.run s [.getRequest i, .initRequest i, .ring i o, .completeWithError i,
        .putRequest i] = some t ∧ t.calls[i]? = some (.returned false) ∧
      t.invoked = s.invoked ++ [⟨i, i, o.result⟩] := by
  obtain ⟨hlt, hi⟩ := List.getElem?_eq_some_iff.mp hi
  cases o with
  | noSqe =>
    refine ⟨_, by
      simp [Machine.run, machine, step, getRequest, initRequest, ring, setCall, hi, hfree, hlt, ho,
        Manager.getRequest, Manager.initRequest, Manager.ring, completeWithError, putRequest,
        invoke, Manager.callbackAt, hpool]
      rfl, ?_, rfl⟩
    simp [hlt]
  | submit ret =>
    have hret : ¬ 0 ≤ ret := ho
    refine ⟨_, by
      simp [Machine.run, machine, step, getRequest, initRequest, ring, setCall, hi, hfree, hlt,
        hret, Manager.getRequest, Manager.initRequest, Manager.ring, completeWithError, putRequest,
        invoke, Manager.callbackAt, hpool, RingOutcome.result]
      rfl, ?_, rfl⟩
    simp [hlt]

omit hi in
theorem pool_of_free (hs : s.Numbered) : r < s.manager.requestPool.length := by
  by_contra hge
  have hzero := hs.places r (Nat.le_of_not_lt hge)
  have hcount : 0 < s.manager.freeRequests.count r := by simp [hfree]
  simp only [places, Manager.references] at hzero
  omega

theorem awaits_accepted (hs : s.Numbered) (hrunning : s.manager.isRunning = true) :
    (s.accepted i r type fd rest).Awaits i r := by
  have hearly : s.calls[i]?.all Stage.early = true := by rw [hi]; rfl
  have hpool := pool_of_free hfree hs
  have hone := hs.accounts i hearly
  simp only [accounts, hi, Option.any_some, Stage.pending, Bool.toNat_true, Option.isSome_some]
    at hone
  refine ⟨⟨?_, rfl⟩, hrunning, fun x => ?_, ?_⟩
  · exact List.getElem?_set_self (List.getElem?_eq_some_iff.mp hi).1
  · by_cases hx : r = x
    · subst hx
      exact iff_of_true (by simp [Manager.callbackAt, accepted, hpool]) rfl
    · refine iff_of_false (fun h => hs.callbackAt i hearly x ?_) (Ne.symm hx)
      exact (s.manager.callbackAt_set_ne _ hx).symm.trans h
  · simp only [accepted]
    omega

theorem accepted_miscounts (hs : s.Numbered) (hrunning : s.manager.isRunning = true)
    (hmany : s.places r ≠ 1) : (s.accepted i r type fd rest).Miscounts i := by
  have hawaits := awaits_accepted hi hfree hs hrunning
  have hunder : (s.accepted i r type fd rest).underWay (· == r) =
      s.underWay (· == r) + s.manager.prepared.countP (·.userData == r) + 1 := by
    simp [underWay, accepted]
    omega
  by_cases htwice : 2 ≤ (s.accepted i r type fd rest).underWay (· == r)
  · exact hawaits.miscounts_of_twice htwice
  by_cases hagain : r ∈ rest
  · exact hawaits.miscounts_of_free rfl hagain
  by_cases hw : s.worker = .putting r
  · have hstep : (s.accepted i r type fd rest).step .workerPut =
        some { s.accepted i r type fd rest with
          manager := (s.accepted i r type fd rest).manager.putRequest r
          worker := .waiting } := by simp [step, workerPut, accepted, hw]
    exact Miscounts.of_step hstep (by simp) (Awaits.miscounts_of_free (r := r)
      ⟨⟨hawaits.returned, hawaits.prepared⟩, hawaits.isRunning, hawaits.callbackAt,
        hawaits.invoked⟩ rfl List.mem_cons_self)
  · have hworker : (s.worker.holds r).toNat = s.worker.underWay (· == r) := by
      cases hcase : s.worker with
      | putting x =>
        have hx : x ≠ r := fun hx => hw (hx ▸ hcase)
        simp [Worker.holds, Worker.underWay, hx]
      | _ => rfl
    have hcall : 0 < s.calls.countP (·.holds r) := by
      have hcount : s.manager.freeRequests.count r = 1 := by
        simp [hfree, List.count_eq_zero_of_not_mem hagain]
      have hbelow : s.underWay (· == r) = s.manager.inflight.countP (·.userData == r) +
          s.cq.countP (·.1.userData == r) + s.worker.underWay (· == r) := rfl
      simp only [places, Manager.references] at hmany
      omega
    obtain ⟨c, hc, hholds⟩ := List.countP_pos_iff.mp hcall
    obtain ⟨j, hj⟩ := List.mem_iff_getElem?.mp hc
    have hji : i ≠ j := by
      rintro rfl
      rw [hi] at hj
      cases hj
      cases hholds
    refine hawaits.miscounts_of_call ?_ (by omega) (j := j) (c := c) ?_ hholds
    · simpa [accepted] using pool_of_free hfree hs
    · exact (List.getElem?_set_ne hji).trans hj

end Checked

structure Reached (s : LifeCycle) : Prop where
  numbered : s.Numbered
  isRunning : ∀ (i : Nat) type fd, s.calls[i]? = some (.checked type fd) →
    s.manager.isRunning = true

theorem reached_begun (entries : Nat) (isRunning : Bool) : (begun entries isRunning).Reached where
  numbered := numbered_begun entries isRunning
  isRunning i type fd hi := by simp [begun, created] at hi

theorem Reached.step {s s' : LifeCycle} {a : LifeAct} (hs : s.Reached) (h : s.step a = some s') :
    s'.Reached where
  numbered := hs.numbered.step h
  isRunning i type fd hi := by
    rw [(step_fixed h).2]
    by_cases ha : a.call = some i
    · obtain ⟨b, c, hb, hcalls, hearly⟩ := step_moves h ha
      rw [hcalls, List.getElem?_set_self (List.getElem?_eq_some_iff.mp hb).1] at hi
      cases hi
      exact (hearly rfl).2
    · cases hb : s.calls[i]? with
      | some b =>
        rw [step_call h hb ha] at hi
        cases hi
        exact hs.isRunning i type fd hb
      | none =>
        by_cases hnew : ∃ type fd, a = .submitOperation type fd
        · obtain ⟨type', fd', rfl⟩ := hnew
          cases h
          obtain hi | ⟨-, hi⟩ := List.getElem?_concat_some hi
          · rw [hb] at hi
            cases hi
          · cases hi
        · have hlt := (List.getElem?_eq_some_iff.mp hi).1
          rw [length_step h (by simpa using hnew)] at hlt
          have hge := List.getElem?_eq_none_iff.mp hb
          omega

theorem two_le_cleanups {s t : LifeCycle} {i : Nat} (error : Int)
    (hreturned : t.calls[i]? = some (.returned false))
    (hinvoked : t.invoked = s.invoked ++ [⟨i, i, error⟩]) : 2 ≤ t.cleanups i := by
  simp only [cleanups, hreturned, hinvoked, List.countP_append, List.countP_singleton,
    beq_self_eq_true, if_true, Bool.toNat_true]
  omega

/-- A call that is turned away has been looked after twice when it returns. -/
theorem exists_turned_away {s : LifeCycle} {i : Nat} {o : RingOutcome} (hs : s.Reached)
    (hi : s.Decides i) (hrefused : ¬ (∃ type fd, s.calls[i]? = some (.checked type fd)) ∨
      s.manager.freeRequests = [] ∨ ¬ 0 ≤ o.result) :
    ∃ bs t, s.GoesOn i o bs t ∧ t.Settled i false ∧ 2 ≤ t.cleanups i := by
  obtain ⟨⟨type, fd, hi⟩, hstopped⟩ | ⟨type, fd, hi⟩ := hi
  · obtain ⟨hlt, hi⟩ := List.getElem?_eq_some_iff.mp hi
    refine ⟨[.check i, .reject i], _, ⟨.inl rfl, by simp, by
      simp [Machine.run, machine, step, check, reject, setCall, hi, hlt, hstopped]
      rfl⟩, ⟨?_, nofun⟩, two_le_cleanups (s := s) (-ESHUTDOWN) ?_ rfl⟩ <;> simp [hlt]
  · cases hfree : s.manager.freeRequests with
    | nil =>
      obtain ⟨hlt, hi⟩ := List.getElem?_eq_some_iff.mp hi
      refine ⟨[.getRequest i, .reject i], _, ⟨.inr rfl, by simp, by
        simp [Machine.run, machine, step, getRequest, reject, setCall, hi, hlt, Manager.getRequest,
          hfree]
        rfl⟩, ⟨?_, nofun⟩, two_le_cleanups (s := s) (-ENOMEM) ?_ rfl⟩ <;> simp [hlt]
    | cons r rest =>
      have ho : ¬ 0 ≤ o.result := by simpa [hi, hfree] using hrefused
      obtain ⟨t, hrun, hreturned, hinvoked⟩ :=
        run_failed hi hfree ho (pool_of_free hfree hs.numbered)
      exact ⟨_, t, ⟨.inr rfl, by simp, hrun⟩, ⟨hreturned, nofun⟩,
        two_le_cleanups _ hreturned hinvoked⟩

/-- Whatever has gone before, a call whose duplicates the callback and the caller look after has
them looked after once in every run on from where it takes its request or is turned away, if and
only if it gets a request that is nowhere else and the ring takes its entry. -/
theorem cleanups_eq_one_iff_grants (entries : Nat) (isRunning : Bool) {as : List LifeAct}
    {s : LifeCycle} (h : machine.run (begun entries isRunning) as = some s) {i : Nat}
    (hi : s.Decides i) (o : RingOutcome) :
    (∀ bs t accepted, s.GoesOn i o bs t → t.Settled i accepted → t.cleanups i = 1) ↔
      s.Grants i o := by
  have hs : s.Reached := machine.run_invariant (I := Reached) (fun _ _ _ hs ha => hs.step ha)
    (reached_begun entries isRunning) h
  constructor
  · intro hall
    by_contra hg
    by_cases hrefused : ¬ (∃ type fd, s.calls[i]? = some (.checked type fd)) ∨
        s.manager.freeRequests = [] ∨ ¬ 0 ≤ o.result
    · obtain ⟨bs, t, hgoes, hsettled, htwice⟩ := exists_turned_away hs hi hrefused
      have hone := hall bs t false hgoes hsettled
      omega
    · push Not at hrefused
      obtain ⟨⟨type, fd, hi⟩, hsome, ho⟩ := hrefused
      obtain ⟨r, rest, hfree⟩ := List.exists_cons_of_ne_nil hsome
      obtain ⟨ret, rfl⟩ : ∃ ret, o = .submit ret := by
        cases o with
        | noSqe => exact absurd ho (by decide)
        | submit ret => exact ⟨ret, rfl⟩
      have hret : 0 ≤ ret := ho
      have hmany : s.places r ≠ 1 := fun hone =>
        hg ⟨⟨type, fd, hi⟩, ⟨r, by simp [hfree], hone⟩, ho⟩
      obtain ⟨bs, t, hrun, hring, hsettled, hne⟩ := accepted_miscounts hi hfree hs.numbered
        (hs.isRunning i type fd hi) hmany
      refine hne (hall _ t true ⟨.inr rfl, fun o' ho' => ?_,
        machine.run_append.mpr ⟨_, run_accepted hi hfree hret, hrun⟩⟩ hsettled)
      obtain ho' | ho' := List.mem_append.mp ho'
      · simpa using ho'
      · exact absurd ho' (hring o')
  · intro hg bs t accepted hgoes hsettled
    obtain ⟨r, ht⟩ := hgoes.tracked hs.numbered hg
    exact ht.cleanups hsettled

end LifeCycle

end Lmnet.IoUring
