import Lmnet.IoUring.RequestLifeCycle
import Lmnet.Lib.Progress

/-!
One `SubmitOperation` call among all the others, some of which may have failed to hand their
entries over: when its callback comes once, and it is told true.
-/

set_option autoImplicit false

namespace Lmnet.IoUring

def Stage.early : Stage → Bool
  | .begun .. | .checked .. => true
  | _ => false

namespace LifeCycle

def begun (entries : Nat) (isRunning : Bool) : LifeCycle :=
  { created entries with manager := { Manager.init entries with isRunning := isRunning } }

/-- How often what the callback of operation `i` cleans up is closed: by every call of
the callback, and by a caller that is told false. -/
def cleanups (s : LifeCycle) (i : Nat) : Nat :=
  s.invoked.countP (·.callback == i) + (s.calls[i]? == some (.returned false)).toNat

inductive Under (s : LifeCycle) (q : Sqe Nat) : Prop where
  | inflight (h : q ∈ s.manager.inflight)
  | posted (result : Int) (h : (q, result) ∈ s.cq)
  | handling (result : Int) (h : s.worker = .handling (q, result))

inductive Entry (s : LifeCycle) (q : Sqe Nat) : Prop where
  | prepared (h : q ∈ s.manager.prepared)
  | under (h : s.Under q)

structure Settled (s : LifeCycle) (i : Nat) (accepted : Bool) : Prop where
  returned : s.calls[i]? = some (.returned accepted)
  done : accepted = true → ∀ q, s.Entry q → q.op ≠ i

/-- The call is about to be turned away, or to take a request. -/
def Decides (s : LifeCycle) (i : Nat) : Prop :=
  (∃ type fd, s.calls[i]? = some (.begun type fd)) ∧ s.manager.isRunning = false ∨
    ∃ type fd, s.calls[i]? = some (.checked type fd)

/-- The runs on from there: the call moves first, and `o` is what it meets in the ring. -/
structure GoesOn (s : LifeCycle) (i : Nat) (o : RingOutcome) (as : List LifeAct) (t : LifeCycle) :
    Prop where
  first : as.head? = some (.check i) ∨ as.head? = some (.getRequest i)
  ring : ∀ o', .ring i o' ∈ as → o' = o
  run : machine.run s as = some t

/-- The call has found the manager running, the request on top of the free ones is nowhere else,
and the ring takes the entry. -/
def Grants (s : LifeCycle) (i : Nat) (o : RingOutcome) : Prop :=
  (∃ type fd, s.calls[i]? = some (.checked type fd)) ∧
    (∃ r, s.manager.freeRequests.head? = some r ∧ s.places r = 1) ∧ 0 ≤ o.result

/-! ### What a move can change -/

section Step

variable {s s' : LifeCycle} {a : LifeAct}

theorem step_call (h : s.step a = some s') {i : Nat} {c : Stage} (hi : s.calls[i]? = some c)
    (ha : a.call ≠ some i) : s'.calls[i]? = some c := by
  cases a with
  | submitOperation type fd =>
    cases h
    exact (List.getElem?_append_left (List.getElem?_eq_some_iff.mp hi).1).trans hi
  | check j | getRequest j | reject j | initRequest j | ring j o | completeWithError j
  | putRequest j =>
    have hji : j ≠ i := fun hji => ha (congrArg some hji)
    simp only [step, check, getRequest, reject, initRequest, ring, completeWithError,
      putRequest] at h
    split at h
    · first
        | (cases h; simpa [setCall, invoke, List.getElem?_set_ne hji] using hi)
        | (split at h <;> (cases h; simpa [setCall, List.getElem?_set_ne hji] using hi))
    · cases h
  | complete k result | waitCqe | handleCompletion | workerPut =>
    simp only [step, complete, waitCqe, handleCompletion, workerPut] at h
    split at h
    · cases h
      exact hi
    · cases h

/-- A call that moves goes from one stage to the next, and only a running manager lets it on
to the pool. -/
theorem step_moves (h : s.step a = some s') {i : Nat} (ha : a.call = some i) :
    ∃ b c, s.calls[i]? = some b ∧ s'.calls = s.calls.set i c ∧
      (c.early = true → b.early = true ∧ s.manager.isRunning = true) := by
  cases a with
  | check j =>
    cases ha
    obtain ⟨type, fd, hi, rfl⟩ := check_cases h
    refine ⟨_, _, hi, rfl, fun hc => ⟨rfl, ?_⟩⟩
    split at hc
    · assumption
    · cases hc
  | getRequest j =>
    cases ha
    simp only [step, getRequest] at h
    split at h
    · split at h <;> (cases h; exact ⟨_, _, ‹_›, rfl, nofun⟩)
    · cases h
  | ring j o =>
    cases ha
    obtain ⟨r, hi, rfl⟩ := ring_cases h
    refine ⟨_, _, hi, rfl, fun hc => ?_⟩
    split at hc <;> cases hc
  | reject j | initRequest j | completeWithError j | putRequest j =>
    cases ha
    simp only [step, reject, initRequest, completeWithError, putRequest] at h
    split at h
    · cases h
      exact ⟨_, _, ‹_›, rfl, nofun⟩
    · cases h
  | submitOperation type fd => cases ha
  | complete k result | waitCqe | handleCompletion | workerPut => cases ha

theorem length_step (h : s.step a = some s') (hnew : ∀ type fd, a ≠ .submitOperation type fd) :
    s'.calls.length = s.calls.length := by
  cases ha : a.call with
  | some i =>
    obtain ⟨b, c, -, hcalls, -⟩ := step_moves h ha
    rw [hcalls, List.length_set]
  | none =>
    cases a with
    | submitOperation type fd => exact absurd rfl (hnew type fd)
    | complete k result | waitCqe | handleCompletion | workerPut =>
      simp only [step, complete, waitCqe, handleCompletion, workerPut] at h
      split at h
      · cases h
        rfl
      · cases h
    | _ => cases ha

theorem ring_places_other {i r : Nat} {o : RingOutcome} (h : s.ring i o = some s')
    (hi : s.calls[i]? = some (.prepared r)) {x : Nat} (hx : r ≠ x) : s'.places x = s.places x := by
  obtain ⟨r', hi', rfl⟩ := ring_cases h
  obtain rfl : r = r' := by
    rw [hi] at hi'
    cases hi'
    rfl
  have hrx : (r == x) = false := by simpa using hx
  have hholds : ((if 0 ≤ o.result then .returned true else .failed r o.result : Stage).holds x) =
      false := by
    split <;> simp [Stage.holds, hx]
  refine places_setCall hi rfl ?_ rfl rfl
  rw [hholds]
  cases o with
  | noSqe => simp [Stage.holds, hx]
  | submit ret => simp [Manager.references_ring, hrx, Stage.holds]

/-- Only an entry that could not be handed over puts a request in one place more. -/
theorem step_places (h : s.step a = some s') (x : Nat) :
    s'.places x = s.places x ∨
      ∃ i o, a = .ring i o ∧ ¬ o.Succeeds ∧ s.calls[i]? = some (.prepared x) ∧
        s'.places x = s.places x + 1 := by
  cases a with
  | submitOperation type fd =>
    cases h
    simp [places, Stage.holds]
  | check i => exact .inl (check_places h x)
  | getRequest i => exact .inl (getRequest_places h x)
  | reject i => exact .inl (reject_places h x)
  | initRequest i => exact .inl (initRequest_places h x)
  | ring i o =>
    by_cases ho : o.Succeeds
    · exact .inl (ring_places h ho x)
    · obtain ⟨r, hi, -⟩ := ring_cases h
      by_cases hx : r = x
      · subst hx
        cases o with
        | noSqe => exact absurd trivial ho
        | submit ret => exact .inr ⟨i, .submit ret, rfl, ho, hi, ring_places_error hi h ho⟩
      · exact .inl (ring_places_other h hi hx)
  | completeWithError i => exact .inl (completeWithError_places h x)
  | putRequest i => exact .inl (putRequest_places h x)
  | complete k result => exact .inl (complete_places h x)
  | waitCqe => exact .inl (waitCqe_places h x)
  | handleCompletion => exact .inl (handleCompletion_places h x)
  | workerPut => exact .inl (workerPut_places h x)

theorem step_callbackAt (h : s.step a = some s') (x : Nat) :
    s'.manager.callbackAt x = s.manager.callbackAt x ∨
      (x ∈ s.manager.freeRequests ∧ s'.manager.callbackAt x = none) ∨
      ∃ i type fd, a = .initRequest i ∧ s.calls[i]? = some (.cleared type fd x) ∧
        ∀ k, s'.manager.callbackAt x = some k → k = i := by
  cases a with
  | getRequest i =>
    simp only [step, getRequest] at h
    split at h
    · split at h
      · cases h
        exact .inl rfl
      · rename_i r m hget
        obtain ⟨rest, hfree, rfl⟩ := Manager.getRequest_eq_some hget
        cases h
        by_cases hx : r = x
        · subst hx
          refine .inr (.inl ⟨by simp [hfree], ?_⟩)
          by_cases hlt : r < s.manager.requestPool.length <;>
            simp [Manager.callbackAt, Request.cleared, hlt]
        · exact .inl (s.manager.callbackAt_set_ne .cleared hx)
    · cases h
  | initRequest i =>
    simp only [step, initRequest] at h
    split at h
    · rename_i type fd r hi
      cases h
      by_cases hx : r = x
      · subst hx
        refine .inr (.inr ⟨i, type, fd, rfl, hi, fun k hk => ?_⟩)
        by_cases hlt : r < s.manager.requestPool.length
        · rw [s.manager.callbackAt_initRequest type fd i hlt] at hk
          cases hk
          rfl
        · simp [Manager.callbackAt, Manager.initRequest, hlt] at hk
      · exact .inl (s.manager.callbackAt_set_ne _ hx)
    · cases h
  | ring i o =>
    obtain ⟨r, -, rfl⟩ := ring_cases h
    left
    cases o with
    | noSqe => rfl
    | submit ret =>
      simp only [Manager.ring]
      split <;> rfl
  | complete k result =>
    simp only [step, complete] at h
    split at h
    · rename_i q m hq
      cases h
      obtain ⟨q', -, heq⟩ := Option.map_eq_some_iff.mp hq
      cases heq
      exact .inl rfl
    · cases h
  | submitOperation type fd =>
    cases h
    exact .inl rfl
  | check i | reject i | completeWithError i | putRequest i | waitCqe | handleCompletion
  | workerPut =>
    simp only [step, check, reject, completeWithError, putRequest, waitCqe, handleCompletion,
      workerPut] at h
    split at h
    · cases h
      exact .inl rfl
    · cases h

theorem step_fixed (h : s.step a = some s') :
    s'.manager.requestPool.length = s.manager.requestPool.length ∧
      s'.manager.isRunning = s.manager.isRunning := by
  cases a with
  | getRequest i =>
    simp only [step, getRequest] at h
    split at h
    · split at h
      · cases h
        exact ⟨rfl, rfl⟩
      · rename_i r m hget
        obtain ⟨rest, -, rfl⟩ := Manager.getRequest_eq_some hget
        cases h
        exact ⟨List.length_set, rfl⟩
    · cases h
  | initRequest i =>
    simp only [step, initRequest] at h
    split at h
    · cases h
      exact ⟨List.length_set, rfl⟩
    · cases h
  | ring i o =>
    obtain ⟨r, -, rfl⟩ := ring_cases h
    cases o with
    | noSqe => exact ⟨rfl, rfl⟩
    | submit ret =>
      simp only [Manager.ring]
      split <;> exact ⟨rfl, rfl⟩
  | complete k result =>
    simp only [step, complete] at h
    split at h
    · rename_i q m hq
      cases h
      obtain ⟨q', -, heq⟩ := Option.map_eq_some_iff.mp hq
      cases heq
      exact ⟨rfl, rfl⟩
    · cases h
  | submitOperation type fd =>
    cases h
    exact ⟨rfl, rfl⟩
  | check i | reject i | completeWithError i | putRequest i | waitCqe | handleCompletion
  | workerPut =>
    simp only [step, check, reject, completeWithError, putRequest, waitCqe, handleCompletion,
      workerPut] at h
    split at h
    · cases h
      exact ⟨rfl, rfl⟩
    · cases h

theorem Entry.of_parts {q : Sqe Nat} (hq : s'.Entry q)
    (hprepared : q ∈ s'.manager.prepared → s.Entry q)
    (hinflight : q ∈ s'.manager.inflight → s.Entry q)
    (hcq : ∀ result, (q, result) ∈ s'.cq → s.Entry q)
    (hworker : ∀ result, s'.worker = .handling (q, result) → s.Entry q) : s.Entry q := by
  cases hq with
  | prepared hq => exact hprepared hq
  | under hq =>
    cases hq with
    | inflight hq => exact hinflight hq
    | posted result hq => exact hcq result hq
    | handling result hq => exact hworker result hq

theorem step_entry (h : s.step a = some s') {q : Sqe Nat} (hq : s'.Entry q) :
    s.Entry q ∨ ∃ i o, a = .ring i o ∧ s.calls[i]? = some (.prepared q.userData) ∧ q.op = i := by
  cases a with
  | ring i o =>
    obtain ⟨r, hi, rfl⟩ := ring_cases h
    have hnew : q ∈ s.manager.prepared ∨ q ∈ s.manager.inflight ∨ q = ⟨r, i⟩ → s.Entry q ∨
        ∃ i' o', LifeAct.ring i o = .ring i' o' ∧
          s.calls[i']? = some (.prepared q.userData) ∧ q.op = i' := by
      rintro (hq | hq | rfl)
      · exact .inl (.prepared hq)
      · exact .inl (.under (.inflight hq))
      · exact .inr ⟨i, o, rfl, hi, rfl⟩
    cases hq with
    | prepared hq =>
      refine hnew ?_
      cases o with
      | noSqe => exact .inl hq
      | submit ret =>
        simp only [Manager.ring] at hq
        split at hq
        · cases hq
        · obtain hq | hq := List.mem_append.mp hq
          · exact .inl hq
          · exact .inr (.inr (List.mem_singleton.mp hq))
    | under hq =>
      cases hq with
      | inflight hq =>
        refine hnew ?_
        cases o with
        | noSqe => exact .inr (.inl hq)
        | submit ret =>
          simp only [Manager.ring] at hq
          split at hq
          · obtain hq | hq := List.mem_append.mp hq
            · exact .inr (.inl hq)
            · obtain hq | hq := List.mem_append.mp hq
              · exact .inl hq
              · exact .inr (.inr (List.mem_singleton.mp hq))
          · exact .inr (.inl hq)
      | posted result hq => exact .inl (.under (.posted result hq))
      | handling result hq => exact .inl (.under (.handling result hq))
  | getRequest i =>
    left
    simp only [step, getRequest] at h
    split at h
    · split at h
      · cases h
        exact hq.of_parts (fun hq => .prepared hq) (fun hq => .under (.inflight hq))
          (fun _ hq => .under (.posted _ hq)) fun _ hq => .under (.handling _ hq)
      · rename_i r m hget
        obtain ⟨rest, -, rfl⟩ := Manager.getRequest_eq_some hget
        cases h
        exact hq.of_parts (fun hq => .prepared hq) (fun hq => .under (.inflight hq))
          (fun _ hq => .under (.posted _ hq)) fun _ hq => .under (.handling _ hq)
    · cases h
  | complete k result =>
    left
    simp only [step, complete] at h
    split at h
    · rename_i q' m hq'
      cases h
      obtain ⟨q'', hmem, heq⟩ := Option.map_eq_some_iff.mp hq'
      cases heq
      refine hq.of_parts (fun hq => .prepared hq)
        (fun hq => .under (.inflight (List.mem_of_mem_eraseIdx hq))) (fun result' hq => ?_)
        fun _ hq => .under (.handling _ hq)
      obtain hq | hq := List.mem_append.mp hq
      · exact .under (.posted _ hq)
      · cases List.mem_singleton.mp hq
        exact .under (.inflight (List.mem_of_getElem? hmem))
    · cases h
  | waitCqe =>
    left
    simp only [step, waitCqe] at h
    split at h
    · rename_i cqe rest hw hcq
      cases h
      refine hq.of_parts (fun hq => .prepared hq) (fun hq => .under (.inflight hq))
        (fun _ hq => .under (.posted _ (hcq ▸ List.mem_cons_of_mem _ hq))) fun _ hq => ?_
      cases hq
      exact .under (.posted _ (hcq ▸ List.mem_cons_self))
    · cases h
  | submitOperation type fd =>
    cases h
    left
    exact hq.of_parts (fun hq => .prepared hq) (fun hq => .under (.inflight hq))
      (fun _ hq => .under (.posted _ hq)) fun _ hq => .under (.handling _ hq)
  | check i | reject i | initRequest i | completeWithError i | putRequest i | handleCompletion
  | workerPut =>
    left
    simp only [step, check, reject, initRequest, completeWithError, putRequest, handleCompletion,
      workerPut] at h
    split at h
    · cases h
      exact hq.of_parts (fun hq => .prepared hq) (fun hq => .under (.inflight hq))
        (fun _ hq => .under (.posted _ hq)) fun _ hq => by
          first | exact .under (.handling _ hq) | cases hq
    · cases h

/-- The count of an operation stands as long as its entry goes to the kernel, and its callback is
what is called for it and only for it. -/
theorem step_accounts (h : s.step a = some s') {j : Nat}
    (hnew : ∀ type fd, a ≠ .submitOperation type fd) (hring : ∀ o, a = .ring j o → o.Succeeds)
    (hfail : ∀ i r error, a = .completeWithError i → s.calls[i]? = some (.failed r error) →
      (s.manager.callbackAt r = some j ↔ i = j))
    (hhandle : ∀ q result, s.worker = .handling (q, result) →
      (s.manager.callbackAt q.userData = some j ↔ q.op = j)) : s'.accounts j = s.accounts j := by
  cases a with
  | submitOperation type fd => exact absurd rfl (hnew type fd)
  | check i => exact check_accounts h j
  | getRequest i => exact getRequest_accounts h j
  | reject i => exact reject_accounts h j
  | initRequest i => exact initRequest_accounts h j
  | ring i o =>
    exact ring_accounts h fun hij => by
      subst hij
      exact hring o rfl
  | completeWithError i => exact completeWithError_accounts h fun r error => hfail i r error rfl
  | putRequest i => exact putRequest_accounts h j
  | complete k result => exact complete_accounts h j
  | waitCqe => exact waitCqe_accounts h j
  | handleCompletion => exact handleCompletion_accounts h hhandle
  | workerPut => exact workerPut_accounts h j

end Step

/-! ### Requests and operations that are known -/

structure Numbered (s : LifeCycle) : Prop where
  places : ∀ r, s.manager.requestPool.length ≤ r → s.places r = 0
  accounts : ∀ j, s.calls[j]?.all Stage.early = true → s.accounts j = s.calls[j]?.isSome.toNat
  callbackAt : ∀ j, s.calls[j]?.all Stage.early = true → ∀ r, s.manager.callbackAt r ≠ some j

theorem numbered_begun (entries : Nat) (isRunning : Bool) : (begun entries isRunning).Numbered where
  places r hr := by
    have href : (begun entries isRunning).places r =
        (Manager.init entries : Manager Nat).references r := by
      simp [LifeCycle.places, begun, created, Worker.holds, Manager.references]
    have hlength : (begun entries isRunning).manager.requestPool.length = entries := by
      simp [begun, created, Manager.init]
    rw [href, Manager.references_init, if_neg (by omega)]
  accounts j _ := by simp [LifeCycle.accounts, begun, created, Manager.init, Worker.pending]
  callbackAt j _ r := by
    simp only [Manager.callbackAt, begun, created, Manager.init, List.getElem?_replicate]
    split <;> simp [Request.cleared]

theorem holds_places {s : LifeCycle} {i r : Nat} {c : Stage} (hi : s.calls[i]? = some c)
    (hc : c.holds r = true) : s.manager.freeRequests.count r + 1 ≤ s.places r := by
  have hpos := List.countP_pos_of_getElem? (p := fun c : Stage => c.holds r) hi hc
  simp only [places, Manager.references]
  omega

theorem early_step {s s' : LifeCycle} {a : LifeAct} (h : s.step a = some s') {j : Nat}
    (hj : s'.calls[j]?.all Stage.early = true) : s.calls[j]?.all Stage.early = true := by
  cases hc : s.calls[j]? with
  | none => rfl
  | some b =>
    by_cases ha : a.call = some j
    · obtain ⟨b', c, hb, hcalls, hearly⟩ := step_moves h ha
      have hlt := (List.getElem?_eq_some_iff.mp hb).1
      rw [hcalls, List.getElem?_set_self hlt] at hj
      obtain rfl : b = b' := Option.some.inj (hc.symm.trans hb)
      exact (hearly hj).1
    · rw [step_call h hc ha] at hj
      exact hj

theorem Numbered.not_op {s : LifeCycle} (hs : s.Numbered) {j : Nat}
    (hj : s.calls[j]?.all Stage.early = true) {q : Sqe Nat} {result : Int}
    (hw : s.worker = .handling (q, result)) : q.op ≠ j := by
  rintro rfl
  have hone := hs.accounts q.op hj
  simp only [LifeCycle.accounts, hw, Worker.pending, beq_self_eq_true, Bool.toNat_true] at hone
  cases hc : s.calls[q.op]? with
  | none => simp [hc] at hone
  | some c =>
    rw [hc] at hj hone
    cases c with
    | begun type fd | checked type fd =>
      simp only [Stage.pending, Option.any_some, Option.isSome_some, Bool.toNat_true] at hone
      omega
    | _ => cases hj

theorem Numbered.step {s s' : LifeCycle} {a : LifeAct} (hs : s.Numbered)
    (h : s.step a = some s') : s'.Numbered where
  places r hr := by
    rw [(step_fixed h).1] at hr
    have hzero := hs.places r hr
    obtain hsame | ⟨i, o, -, -, hi, -⟩ := step_places h r
    · rw [hsame, hzero]
    · have hpos := holds_places hi (by simp [Stage.holds] : (Stage.prepared r).holds r = true)
      omega
  accounts j hj := by
    have hbefore := early_step h hj
    have hone := hs.accounts j hbefore
    by_cases hnew : ∃ type fd, a = .submitOperation type fd
    · obtain ⟨type, fd, rfl⟩ := hnew
      cases h
      simp only [LifeCycle.accounts, List.getElem?_append] at hone hj ⊢
      by_cases hlt : j < s.calls.length
      · simpa [hlt] using hone
      · have hnone : s.calls[j]? = none := List.getElem?_eq_none (by omega)
        simp only [hnone, Option.any_none, Option.isSome_none, Bool.toNat_false] at hone
        rcases Nat.lt_or_ge s.calls.length j with hgt | hle
        · have hnone' : [Stage.begun type fd][j - s.calls.length]? = none :=
            List.getElem?_eq_none (by simp; omega)
          simp only [hlt, if_false, hnone', Option.any_none, Option.isSome_none, Bool.toNat_false]
          omega
        · obtain rfl : j = s.calls.length := by omega
          simp [Stage.pending]
          omega
    · have hnew' : ∀ type fd, a ≠ .submitOperation type fd := by simpa using hnew
      have hsome : s'.calls[j]?.isSome = s.calls[j]?.isSome := by
        rw [Bool.eq_iff_iff]
        simp [length_step h hnew']
      rw [hsome, ← hone]
      refine step_accounts h hnew' (fun o ha => ?_) (fun i r error _ hi => ?_)
        fun q result hw => ?_
      · subst ha
        obtain ⟨r, hi, -⟩ := ring_cases h
        rw [hi] at hbefore
        cases hbefore
      · refine iff_of_false (hs.callbackAt j hbefore r) ?_
        rintro rfl
        rw [hi] at hbefore
        cases hbefore
      · exact iff_of_false (hs.callbackAt j hbefore q.userData) (hs.not_op hbefore hw)
  callbackAt j hj r hr := by
    have hbefore := early_step h hj
    obtain hsame | ⟨-, hnone⟩ | ⟨i, type, fd, -, hi, hown⟩ := step_callbackAt h r
    · exact hs.callbackAt j hbefore r (hsame ▸ hr)
    · rw [hnone] at hr
      cases hr
    · obtain rfl := hown j hr
      rw [hi] at hbefore
      cases hbefore

/-! ### A request that nothing else refers to -/

theorem Entry.places {s : LifeCycle} {q : Sqe Nat} (hq : s.Entry q) :
    s.manager.freeRequests.count q.userData + s.calls.countP (·.holds q.userData) + 1 ≤
      s.places q.userData := by
  have hself : (q.userData == q.userData) = true := beq_self_eq_true _
  simp only [LifeCycle.places, Manager.references]
  obtain hq | hq | ⟨result, hq⟩ | ⟨result, hq⟩ := hq
  · have hpos : 0 < s.manager.prepared.countP (·.userData == q.userData) :=
      List.countP_pos_iff.mpr ⟨q, hq, hself⟩
    omega
  · have hpos : 0 < s.manager.inflight.countP (·.userData == q.userData) :=
      List.countP_pos_iff.mpr ⟨q, hq, hself⟩
    omega
  · have hpos : 0 < s.cq.countP (·.1.userData == q.userData) :=
      List.countP_pos_iff.mpr ⟨_, hq, hself⟩
    omega
  · simp only [hq, Worker.holds, hself, Bool.toNat_true]
    omega

theorem Entry.accounts {s : LifeCycle} {q : Sqe Nat} (hq : s.Entry q) :
    (s.calls[q.op]?.any Stage.pending).toNat + 1 ≤ s.accounts q.op := by
  have hself : (q.op == q.op) = true := beq_self_eq_true _
  simp only [LifeCycle.accounts]
  obtain hq | hq | ⟨result, hq⟩ | ⟨result, hq⟩ := hq
  · have hpos : 0 < s.manager.prepared.countP (·.op == q.op) :=
      List.countP_pos_iff.mpr ⟨q, hq, hself⟩
    omega
  · have hpos : 0 < s.manager.inflight.countP (·.op == q.op) :=
      List.countP_pos_iff.mpr ⟨q, hq, hself⟩
    omega
  · have hpos : 0 < s.cq.countP (·.1.op == q.op) := List.countP_pos_iff.mpr ⟨_, hq, hself⟩
    omega
  · simp only [hq, Worker.pending, hself, Bool.toNat_true]
    omega

theorem step_holds {s s' : LifeCycle} {a : LifeAct} (h : s.step a = some s') {j r : Nat} {c : Stage}
    (hj : s'.calls[j]? = some c) (hc : c.holds r = true) :
    (∃ b, s.calls[j]? = some b ∧ b.holds r = true) ∨
      a = .getRequest j ∧ r ∈ s.manager.freeRequests ∧ s'.manager.callbackAt r = none := by
  cases a with
  | getRequest i =>
    simp only [step, getRequest] at h
    split at h
    · split at h
      · cases h
        obtain ⟨rfl, rfl⟩ | ⟨-, hj⟩ := List.getElem?_set_some hj
        · cases hc
        · exact .inl ⟨c, hj, hc⟩
      · rename_i r' m hget
        obtain ⟨rest, hfree, rfl⟩ := Manager.getRequest_eq_some hget
        cases h
        obtain ⟨rfl, rfl⟩ | ⟨-, hj⟩ := List.getElem?_set_some hj
        · obtain rfl : r' = r := by simpa [Stage.holds] using hc
          refine .inr ⟨rfl, by simp [hfree], ?_⟩
          by_cases hlt : r' < s.manager.requestPool.length <;>
            simp [Manager.callbackAt, Request.cleared, hlt]
        · exact .inl ⟨c, hj, hc⟩
    · cases h
  | submitOperation type fd =>
    cases h
    obtain hj | ⟨-, rfl⟩ := List.getElem?_concat_some hj
    · exact .inl ⟨c, hj, hc⟩
    · cases hc
  | check i =>
    obtain ⟨type, fd, hi, rfl⟩ := check_cases h
    obtain ⟨rfl, rfl⟩ | ⟨-, hj⟩ := List.getElem?_set_some hj
    · split at hc <;> cases hc
    · exact .inl ⟨c, hj, hc⟩
  | ring i o =>
    obtain ⟨r', hi, rfl⟩ := ring_cases h
    obtain ⟨rfl, rfl⟩ | ⟨-, hj⟩ := List.getElem?_set_some hj
    · refine .inl ⟨_, hi, ?_⟩
      split at hc
      · cases hc
      · exact hc
    · exact .inl ⟨c, hj, hc⟩
  | reject i | initRequest i | completeWithError i | putRequest i =>
    simp only [step, reject, initRequest, completeWithError, putRequest] at h
    split at h
    · rename_i hi
      cases h
      obtain ⟨rfl, rfl⟩ | ⟨-, hj⟩ := List.getElem?_set_some hj
      · first | cases hc | exact .inl ⟨_, hi, hc⟩
      · exact .inl ⟨c, hj, hc⟩
    · cases h
  | complete k result | waitCqe | handleCompletion | workerPut =>
    simp only [step, complete, waitCqe, handleCompletion, workerPut] at h
    split at h
    · cases h
      exact .inl ⟨c, hj, hc⟩
    · cases h

structure Own (s : LifeCycle) (i r : Nat) : Prop where
  places : s.places r = 1
  entries : ∀ q, s.Entry q → q.userData = r → q.op = i
  calls : ∀ j c, s.calls[j]? = some c → c.holds r = true → j = i

/-- A request that is operation `i`'s alone stays so until another call takes it. -/
theorem Own.step {s s' : LifeCycle} {a : LifeAct} {i r : Nat} (hs : s.Own i r)
    (h : s.step a = some s') (hring : ∀ o, a = .ring i o → 0 ≤ o.result) :
    s'.Own i r ∨ r ∈ s.manager.freeRequests ∧ s'.manager.callbackAt r = none := by
  by_cases htaken : r ∈ s.manager.freeRequests ∧ s'.manager.callbackAt r = none
  · exact .inr htaken
  · refine .inl ⟨?_, fun q hq hr => ?_, fun j c hj hc => ?_⟩
    · obtain hsame | ⟨j, o, rfl, ho, hj, -⟩ := step_places h r
      · rw [hsame, hs.places]
      · obtain rfl := hs.calls j _ hj (by simp [Stage.holds])
        have hresult := hring o rfl
        cases o with
        | noSqe => exact absurd trivial ho
        | submit ret => exact absurd hresult ho
    · obtain hq | ⟨j, o, -, hj, hop⟩ := step_entry h hq
      · exact hs.entries q hq hr
      · rw [hop]
        exact hs.calls j _ hj (by simp [Stage.holds, hr])
    · obtain ⟨b, hb, hbholds⟩ | ⟨-, hfree, hnone⟩ := step_holds h hj hc
      · exact hs.calls j b hb hbholds
      · exact absurd ⟨hfree, hnone⟩ htaken

theorem Own.not_free {s : LifeCycle} {i r : Nat} (hs : s.Own i r)
    (h : (∃ (j : Nat) (c : Stage), s.calls[j]? = some c ∧ c.holds r = true) ∨
      ∃ q, s.Entry q ∧ q.userData = r) :
    r ∉ s.manager.freeRequests := by
  intro hfree
  have hcount := List.count_pos_iff.mpr hfree
  have hone := hs.places
  obtain ⟨j, c, hj, hc⟩ | ⟨q, hq, rfl⟩ := h
  · have hle := holds_places hj hc
    omega
  · have hle := hq.places
    omega

/-- Call `i` has taken request `r`, and what there is of its operation belongs together. -/
structure Tracked (s : LifeCycle) (i r : Nat) : Prop where
  lt : r < s.manager.requestPool.length
  accounts : s.accounts i = 1
  stage : (∃ type fd, s.calls[i]? = some (.cleared type fd r)) ∧ s.Own i r ∨
    s.calls[i]? = some (.prepared r) ∧ s.manager.callbackAt r = some i ∨
      s.calls[i]? = some (.returned true)
  callbackAt : ∀ x, s.manager.callbackAt x = some i → x = r ∧ s.Own i r
  entry : ∀ q, s.Entry q → q.op = i → q.userData = r ∧ s.manager.callbackAt r = some i

theorem Tracked.callbackAt_step {s s' : LifeCycle} {a : LifeAct} {i r : Nat} (hs : s.Tracked i r)
    (h : s.step a = some s') (hr : s.manager.callbackAt r = some i)
    (hneed : s.calls[i]? = some (.prepared r) ∨ ∃ q, s.Entry q ∧ q.userData = r) :
    s'.manager.callbackAt r = some i := by
  obtain ⟨-, hown⟩ := hs.callbackAt r hr
  obtain hsame | ⟨hfree, -⟩ | ⟨j, type, fd, -, hj, -⟩ := step_callbackAt h r
  · rw [hsame, hr]
  · refine absurd hfree (hown.not_free ?_)
    exact hneed.imp_left fun hi => ⟨i, _, hi, by simp [Stage.holds]⟩
  · obtain rfl := hown.calls j _ hj (by simp [Stage.holds])
    obtain hi | ⟨q, hq, rfl⟩ := hneed
    · rw [hj] at hi
      cases hi
    · have hpos := List.countP_pos_of_getElem? (p := fun c : Stage => c.holds q.userData) hj
        (by simp [Stage.holds])
      have hle := hq.places
      have hone := hown.places
      omega

theorem Tracked.step {s s' : LifeCycle} {a : LifeAct} {i r : Nat} (hs : s.Tracked i r)
    (h : s.step a = some s') (hring : ∀ o, a = .ring i o → 0 ≤ o.result) : s'.Tracked i r := by
  have hown : ∀ {x}, s'.manager.callbackAt x = some i → x = r ∧ s'.Own i r := by
    intro x hx
    have hbefore : x = r ∧ s.Own i r := by
      obtain hsame | ⟨-, hnone⟩ | ⟨j, type, fd, -, hj, hk⟩ := step_callbackAt h x
      · exact hs.callbackAt x (hsame ▸ hx)
      · rw [hnone] at hx
        cases hx
      · obtain rfl := hk i hx
        obtain ⟨⟨type', fd', hi⟩, hown⟩ | ⟨hi, -⟩ | hi := hs.stage
        · rw [hj] at hi
          cases hi
          exact ⟨rfl, hown⟩
        · rw [hj] at hi
          cases hi
        · rw [hj] at hi
          cases hi
    obtain ⟨rfl, hown⟩ := hbefore
    refine ⟨rfl, (hown.step h hring).resolve_right ?_⟩
    rintro ⟨-, hnone⟩
    rw [hnone] at hx
    cases hx
  refine ⟨?_, ?_, ?_, fun x hx => hown hx, fun q hq hop => ?_⟩
  · rw [(step_fixed h).1]
    exact hs.lt
  · by_cases hnew : ∃ type fd, a = .submitOperation type fd
    · obtain ⟨type, fd, rfl⟩ := hnew
      have hi : i < s.calls.length := by
        obtain ⟨⟨type, fd, hi⟩, -⟩ | ⟨hi, -⟩ | hi := hs.stage <;>
          exact (List.getElem?_eq_some_iff.mp hi).1
      cases h
      simpa [LifeCycle.accounts, List.getElem?_append_left hi] using hs.accounts
    · rw [step_accounts h (by simpa using hnew) (fun o ha => ?_) (fun j r' error _ hj => ?_)
        fun q result hw => ?_]
      · exact hs.accounts
      · cases o with
        | noSqe => trivial
        | submit ret => exact hring _ ha
      · constructor
        · intro hr'
          obtain ⟨rfl, hown⟩ := hs.callbackAt r' hr'
          exact hown.calls j _ hj (by simp [Stage.holds])
        · rintro rfl
          obtain ⟨⟨type, fd, hi⟩, -⟩ | ⟨hi, -⟩ | hi := hs.stage <;>
            (rw [hj] at hi; cases hi)
      · have hq : s.Entry q := .under (.handling result hw)
        constructor
        · intro hr'
          obtain ⟨hr, hown⟩ := hs.callbackAt _ hr'
          exact hown.entries q hq hr
        · intro hop
          obtain ⟨hr, hcallback⟩ := hs.entry q hq hop
          rw [hr, hcallback]
  · obtain ⟨⟨type, fd, hi⟩, hown⟩ | ⟨hi, hcallback⟩ | hi := hs.stage
    · have hholds : r ∉ s.manager.freeRequests :=
        hown.not_free (.inl ⟨i, _, hi, by simp [Stage.holds]⟩)
      by_cases ha : a.call = some i
      · cases a with
        | initRequest j =>
          cases ha
          simp only [LifeCycle.step, initRequest, hi, Option.some.injEq] at h
          subst h
          refine .inr (.inl ⟨?_, s.manager.callbackAt_initRequest type fd i hs.lt⟩)
          exact List.getElem?_set_self (List.getElem?_eq_some_iff.mp hi).1
        | check j | getRequest j | reject j | ring j o | completeWithError j | putRequest j =>
          cases ha
          simp [LifeCycle.step, check, getRequest, reject, ring, completeWithError, putRequest,
            hi] at h
        | _ => cases ha
      · refine .inl ⟨⟨type, fd, step_call h hi ha⟩, (hown.step h hring).resolve_right ?_⟩
        exact fun htaken => hholds htaken.1
    · by_cases ha : a.call = some i
      · cases a with
        | ring j o =>
          cases ha
          obtain ⟨r', -, rfl⟩ := ring_cases h
          refine .inr (.inr ?_)
          have hresult := hring o rfl
          simp [setCall, hresult, (List.getElem?_eq_some_iff.mp hi).1]
        | check j | getRequest j | reject j | initRequest j | completeWithError j
        | putRequest j =>
          cases ha
          simp [LifeCycle.step, check, getRequest, reject, initRequest, completeWithError,
            putRequest, hi] at h
        | _ => cases ha
      · exact .inr (.inl ⟨step_call h hi ha, hs.callbackAt_step h hcallback (.inl hi)⟩)
    · refine .inr (.inr (step_call h hi fun ha => ?_))
      cases a with
      | check j | getRequest j | reject j | initRequest j | ring j o | completeWithError j
      | putRequest j =>
        cases ha
        simp [LifeCycle.step, check, getRequest, reject, initRequest, ring, completeWithError,
          putRequest, hi] at h
      | _ => cases ha
  · obtain hq | ⟨j, o, rfl, hj, rfl⟩ := step_entry h hq
    · obtain ⟨hr, hcallback⟩ := hs.entry q hq hop
      exact ⟨hr, hs.callbackAt_step h hcallback (.inr ⟨q, hq, hr⟩)⟩
    · obtain ⟨⟨type, fd, hi⟩, -⟩ | ⟨hi, hcallback⟩ | hi := hs.stage
      · rw [hop] at hj
        rw [hj] at hi
        cases hi
      · rw [hop] at hj
        rw [hj] at hi
        cases hi
        exact ⟨rfl, hs.callbackAt_step h hcallback (.inl hj)⟩
      · rw [hop] at hj
        rw [hj] at hi
        cases hi

/-- The call takes a request that is nowhere else. -/
theorem tracked_getRequest {s s' : LifeCycle} {i r : Nat} (hs : s.Numbered)
    (hi : ∃ type fd, s.calls[i]? = some (.checked type fd))
    (hfree : s.manager.freeRequests.head? = some r) (hone : s.places r = 1)
    (h : s.step (.getRequest i) = some s') : s'.Tracked i r := by
  obtain ⟨type, fd, hi⟩ := hi
  have hearly : s.calls[i]?.all Stage.early = true := by rw [hi]; rfl
  have haccounts := hs.accounts i hearly
  rw [hi] at haccounts
  have hplaces := getRequest_places h
  have hsame := getRequest_accounts h
  obtain ⟨rest, hrest⟩ : ∃ rest, s.manager.freeRequests = r :: rest := by
    cases hrest : s.manager.freeRequests with
    | nil => simp [hrest] at hfree
    | cons x rest => exact ⟨rest, by simpa [hrest] using hfree⟩
  have hcount : 0 < s.manager.freeRequests.count r := by simp [hrest]
  have hcalls : s'.calls = s.calls.set i (.cleared type fd r) := by
    simp only [LifeCycle.step, getRequest, hi, Manager.getRequest, hrest, Option.some.injEq] at h
    rw [← h]
    rfl
  have hentry : ∀ q, s'.Entry q → s.Entry q := by
    intro q hq
    exact (step_entry h hq).resolve_right (by rintro ⟨j, o, ha, -⟩; cases ha)
  refine ⟨?_, (hsame i).trans haccounts, .inl ⟨⟨type, fd, ?_⟩, ?_, fun q hq hr => ?_,
    fun j c hj hc => ?_⟩, fun x hx => ?_, fun q hq hop => ?_⟩
  · rw [(step_fixed h).1]
    by_contra hge
    have hzero := hs.places r (Nat.le_of_not_lt hge)
    omega
  · rw [hcalls, List.getElem?_set_self (List.getElem?_eq_some_iff.mp hi).1]
  · rw [hplaces, hone]
  · subst hr
    have hle := (hentry q hq).places
    omega
  · rw [hcalls] at hj
    obtain ⟨rfl, -⟩ | ⟨-, hj⟩ := List.getElem?_set_some hj
    · rfl
    · have hle := holds_places hj hc
      omega
  · obtain hx' | ⟨-, hnone⟩ | ⟨j, -, -, ha, -⟩ := step_callbackAt h x
    · exact absurd (hx' ▸ hx) (hs.callbackAt i hearly x)
    · rw [hnone] at hx
      cases hx
    · cases ha
  · subst hop
    have hle := (hentry q hq).accounts
    rw [hi] at hle
    simp only [haccounts, Option.any_some, Stage.pending, Option.isSome_some, Bool.toNat_true]
      at hle
    omega

/-- A tracked operation that is over has been cleaned up after once. -/
theorem Tracked.cleanups {s : LifeCycle} {i r : Nat} {accepted : Bool} (hs : s.Tracked i r)
    (hdone : s.Settled i accepted) : s.cleanups i = 1 := by
  have hreturned : s.calls[i]? = some (.returned true) := by
    obtain ⟨⟨type, fd, hi⟩, -⟩ | ⟨hi, -⟩ | hi := hs.stage
    · rw [hdone.returned] at hi
      cases hi
    · rw [hdone.returned] at hi
      cases hi
    · exact hi
  obtain rfl : accepted = true := by
    have hsame := hdone.returned
    rw [hreturned] at hsame
    cases hsame
    rfl
  have hnone := hdone.done rfl
  have hprepared : s.manager.prepared.countP (·.op == i) = 0 :=
    List.countP_eq_zero.mpr fun q hq => by simpa using hnone q (.prepared hq)
  have hinflight : s.manager.inflight.countP (·.op == i) = 0 :=
    List.countP_eq_zero.mpr fun q hq => by simpa using hnone q (.under (.inflight hq))
  have hcq : s.cq.countP (·.1.op == i) = 0 :=
    List.countP_eq_zero.mpr fun q hq => by simpa using hnone q.1 (.under (.posted q.2 hq))
  have hworker : s.worker.pending i = false := by
    cases hw : s.worker with
    | handling cqe => simpa [Worker.pending] using hnone cqe.1 (.under (.handling cqe.2 hw))
    | _ => rfl
  have hone := hs.accounts
  simp only [LifeCycle.accounts, hreturned, hprepared, hinflight, hcq, hworker, Option.any_some,
    Stage.pending, Bool.toNat_false, Nat.zero_add] at hone
  simp [LifeCycle.cleanups, hone, hreturned]

/-- From there on the operation is tracked, if the call gets a request that is nowhere else and
the ring takes its entry. -/
theorem GoesOn.tracked {s t : LifeCycle} {i : Nat} {o : RingOutcome} {as : List LifeAct}
    (h : s.GoesOn i o as t) (hs : s.Numbered) (hg : s.Grants i o) : ∃ r, t.Tracked i r := by
  obtain ⟨⟨type, fd, hi⟩, ⟨r, hfree, hone⟩, ho⟩ := hg
  cases as with
  | nil =>
    obtain hfirst | hfirst := h.first
    · cases hfirst
    · cases hfirst
  | cons a bs =>
    obtain ⟨s', hstep, hbs⟩ := machine.run_cons.mp h.run
    obtain hfirst | hfirst := h.first
    · cases hfirst
      obtain ⟨type', fd', hi', -⟩ := check_cases hstep
      rw [hi] at hi'
      cases hi'
    · cases hfirst
      have hevery : machine.Every (fun _ a _ => ∀ o', a = .ring i o' → 0 ≤ o'.result) s' bs := by
        refine (machine.every_label (C := fun a => ∀ o', a = .ring i o' → 0 ≤ o'.result)
          hbs).mpr fun a ha o' hring => ?_
        rw [h.ring o' (hring ▸ List.mem_cons_of_mem _ ha)]
        exact ho
      exact ⟨r, machine.run_invariant_of_every (I := fun u => u.Tracked i r)
        (fun _ _ _ hu hu' hring => hu.step hu' hring)
        (tracked_getRequest hs ⟨type, fd, hi⟩ hfree hone hstep) hevery hbs⟩

end LifeCycle

end Lmnet.IoUring
