import Mathlib.Algebra.GroupWithZero.Nat
import Mathlib.Algebra.Order.BigOperators.Group.List
import Mathlib.Algebra.Order.Group.Nat
import Lmnet.IoUring.Shutdown

/-!
`Exit` of `IoUringManager` from its beginning to its return: the worker comes to the exit
request, whatever it and its callbacks still have to do, and what another thread has in its
hands meanwhile is what can go wrong.
-/

set_option autoImplicit false

namespace Lmnet.IoUring

def Stage.left : Stage → Nat
  | .begun .. => 7
  | .checked .. => 6
  | .cleared .. => 5
  | .prepared _ => 4
  | .failed .. => 3
  | .putting _ => 2
  | .rejecting _ => 1
  | .returned _ => 0

def Worker.left : Worker → Nat
  | .handling _ => 2
  | .putting _ => 1
  | .waiting => 0

def ExitRound.Succeeds : ExitRound → Prop
  | .noSqe ret | .submit ret => 0 ≤ ret

/-- The moves that bring `Exit` number `e` to its end: of the worker and the calls its callback
has made, of the kernel, and of that `Exit`. Where `io_uring_submit` is called, it succeeds. -/
def ManagerLife.Ends (e : Nat) (s : ManagerLife) : ManagerAct → Prop
  | .life (.submitOperation _ _) => False
  | .life a => (∀ i ∈ a.call, i ∈ s.workerCalls) ∧ LifeCycle.SubmitSucceeds a
  | .completeExit | .takeExit => True
  | .submitExit e' round => e' = e ∧ round.Succeeds
  | .join e' | .release e' => e' = e
  | .submitFromCallback _ _ | .init _ _ | .exit => False

namespace LifeCycle

theorem step_cq {s s' : LifeCycle} {a : LifeAct} (h : s.step a = some s') :
    s.cq.length ≤ s'.cq.length + if a = .waitCqe then 1 else 0 := by
  cases a with
  | submitOperation type fd =>
    cases h
    simp
  | check i =>
    obtain ⟨type, fd, -, rfl⟩ := check_cases h
    simp [setCall]
  | getRequest i =>
    simp only [step, getRequest] at h
    split at h
    · split at h <;> cases h <;> simp [setCall]
    · cases h
  | ring i o =>
    obtain ⟨r, -, rfl⟩ := ring_cases h
    simp [setCall]
  | complete k result =>
    simp only [step, complete] at h
    split at h
    · cases h
      simp
    · cases h
  | waitCqe =>
    simp only [step, waitCqe] at h
    split at h
    · rename_i hcq
      cases h
      simp [hcq]
    · cases h
  | reject i | initRequest i | completeWithError i | putRequest i | handleCompletion | workerPut =>
    simp only [step, reject, initRequest, completeWithError, putRequest, handleCompletion,
      workerPut] at h
    split at h
    · cases h
      simp [setCall, invoke]
    · cases h

theorem CallsMove.length_le {s s' : LifeCycle} (h : s.CallsMove s') :
    s.calls.length ≤ s'.calls.length := by
  cases h with
  | same hcalls => rw [hcalls]
  | begun type fd hcalls => simp [hcalls]
  | on i b c hi hcalls => simp [hcalls]

/-- A call that has not returned can go on, and comes closer to its return; `o` is what it meets
in the ring. -/
theorem exists_call_step {s : LifeCycle} {i : Nat} {c : Stage} (hi : s.calls[i]? = some c)
    (hc : c.finished = false) (hrun : s.manager.isRunning = false) (o : RingOutcome) :
    ∃ a s' c', s.step a = some s' ∧ a.call = some i ∧ (∀ j o', a = .ring j o' → o' = o) ∧
      s'.calls = s.calls.set i c' ∧ c'.left < c.left ∧ s'.cq = s.cq ∧ s'.worker = s.worker := by
  cases c with
  | begun type fd =>
    refine ⟨.check i, s.setCall i (.rejecting (-ESHUTDOWN)), .rejecting (-ESHUTDOWN),
      ?_, rfl, by simp, rfl, by simp [Stage.left], rfl, rfl⟩
    simp [step, check, hi, hrun]
  | checked type fd =>
    cases hget : s.manager.getRequest with
    | none =>
      refine ⟨.getRequest i, s.setCall i (.rejecting (-ENOMEM)), .rejecting (-ENOMEM),
        ?_, rfl, by simp, rfl, by simp [Stage.left], rfl, rfl⟩
      simp [step, getRequest, hi, hget]
    | some taken =>
      obtain ⟨r, m⟩ := taken
      refine ⟨.getRequest i, { s.setCall i (.cleared type fd r) with manager := m },
        .cleared type fd r, ?_, rfl, by simp, rfl, by simp [Stage.left], rfl, rfl⟩
      simp [step, getRequest, hi, hget]
  | rejecting error =>
    refine ⟨.reject i, { s.setCall i (.returned false) with
      invoked := s.invoked ++ [⟨i, i, error⟩] }, .returned false,
      ?_, rfl, by simp, rfl, by simp [Stage.left], rfl, rfl⟩
    simp [step, reject, hi]
  | cleared type fd r =>
    refine ⟨.initRequest i, { s.setCall i (.prepared r) with
      manager := s.manager.initRequest r type fd i }, .prepared r,
      ?_, rfl, by simp, rfl, by simp [Stage.left], rfl, rfl⟩
    simp [step, initRequest, hi]
  | prepared r =>
    refine ⟨.ring i o, { s.setCall i (if 0 ≤ o.result then .returned true
      else .failed r o.result) with manager := s.manager.ring r i o },
      if 0 ≤ o.result then .returned true else .failed r o.result,
      ?_, rfl, by simp, rfl, ?_, rfl, rfl⟩
    · simp [step, ring, hi]
    · split <;> simp [Stage.left]
  | failed r error =>
    refine ⟨.completeWithError i, (s.invoke r i error).setCall i (.putting r), .putting r,
      ?_, rfl, by simp, rfl, by simp [Stage.left], rfl, rfl⟩
    simp [step, completeWithError, hi]
  | putting r =>
    refine ⟨.putRequest i, { s.setCall i (.returned false) with
      manager := s.manager.putRequest r }, .returned false,
      ?_, rfl, by simp, rfl, by simp [Stage.left], rfl, rfl⟩
    simp [step, putRequest, hi]
  | returned accepted => cases hc

end LifeCycle

namespace ManagerLife

def callsLeft (s : ManagerLife) : Nat :=
  (s.workerCalls.map fun i => (s.life.calls[i]?.map Stage.left).getD 0).sum

def ahead (s : ManagerLife) : Nat := s.exitPosted.getD (s.life.cq.length + 1)

def left (s : ManagerLife) : Nat := s.callsLeft + s.life.worker.left + 3 * s.ahead

/-- The exit request of the `Exit` that waits is on its way to the worker. -/
structure Answered (s : ManagerLife) : Prop where
  range : ∀ i ∈ s.workerCalls, i < s.life.calls.length
  posted : ∀ p, s.exitPosted = some p → p ≤ s.life.cq.length
  sent : .joining ∈ s.exits → s.thread = .running → s.exitPosted ≠ none ∨ 0 < s.exitInflight

theorem answered_created : created.Answered where
  range i hi := by cases hi
  posted p hp := by cases hp
  sent h := by cases h

theorem LifeFrame.range {s t : ManagerLife} {a : LifeAct} (h : s.LifeFrame a t)
    (hs : ∀ i ∈ s.workerCalls, i < s.life.calls.length) :
    ∀ i ∈ t.workerCalls, i < t.life.calls.length := by
  intro i hi
  rw [h.workerCalls] at hi
  split at hi
  · cases hi
  · exact Nat.lt_of_lt_of_le (hs i hi) (LifeCycle.step_callsMove h.life).length_le

theorem LifeFrame.answered {s t : ManagerLife} {a : LifeAct} (h : s.LifeFrame a t)
    (hs : s.Answered) : t.Answered where
  range := h.range hs.range
  posted p hp := by
    have hcq := LifeCycle.step_cq h.life
    rw [h.exitPosted] at hp
    split at hp
    · rename_i ha
      obtain ⟨q, hq, rfl⟩ := Option.map_eq_some_iff.mp hp
      have hle := hs.posted q hq
      rw [if_pos ha] at hcq
      omega
    · rename_i ha
      have hle := hs.posted p hp
      rw [if_neg ha] at hcq
      omega
  sent hjoining hthread := by
    rw [h.exits] at hjoining
    rw [h.thread] at hthread
    obtain hposted | hinflight := hs.sent hjoining hthread
    · left
      rw [h.exitPosted]
      split
      · simpa using hposted
      · exact hposted
    · exact .inr (Nat.lt_of_lt_of_le hinflight h.exitInflight)

theorem Answered.congr {s t : ManagerLife} (hs : s.Answered)
    (hcalls : s.life.calls.length ≤ t.life.calls.length)
    (hworkerCalls : t.workerCalls = s.workerCalls) (hcq : t.life.cq = s.life.cq)
    (hposted : t.exitPosted = s.exitPosted)
    (hsent : .joining ∈ t.exits → t.thread = .running →
      t.exitPosted ≠ none ∨ 0 < t.exitInflight) : t.Answered where
  range i hi := Nat.lt_of_lt_of_le (hs.range i (hworkerCalls ▸ hi)) hcalls
  posted p hp := by
    rw [hcq]
    exact hs.posted p (hposted ▸ hp)
  sent := hsent

theorem submitExit_answered {s t : ManagerLife} {e : Nat} {round : ExitRound} (hs : s.Orderly)
    (ha : s.Answered) (h : s.submitExit e round = some t) : t.Answered := by
  obtain ⟨done, hending, rfl, hround⟩ := hs.round h
  refine ha.congr (by rw [hround.calls]) (by rw [hround.frame]) hround.cq (by rw [hround.frame])
    fun hjoining _ => ?_
  obtain hsame | ⟨-, hsent⟩ := hround.exits
  · rw [hsame, hending.exits, List.mem_append, List.mem_singleton] at hjoining
    obtain hmem | hmem := hjoining
    · cases hending.done _ hmem
    · cases hmem
  · exact .inr hsent

theorem Orderly.releasing {s : ManagerLife} (hs : s.Orderly) {e : Nat}
    (hc : s.exits[e]? = some .releasing) : s.thread = .none := by
  have hnot : ¬ s.NoExit := fun h => by cases h _ (List.mem_of_getElem? hc)
  cases hs.phase with
  | closed _ _ _ hexits => exact absurd hexits hnot
  | running _ _ _ _ hexits => exact absurd hexits hnot
  | ending done stage _ _ hexits hdone hstage =>
    obtain ⟨-, rfl⟩ := current_exit hexits hdone hc (by simp)
    obtain h | h := hstage <;> cases h
  | joined _ _ _ _ _ hthread => exact hthread

theorem step_answered {s t : ManagerLife} {a : ManagerAct} (hs : s.Orderly) (ha : s.Answered)
    (h : s.step a = some t) (hx : s.Exclusive a) : t.Answered := by
  cases a with
  | life a => exact (lifeStep_frame h).answered ha
  | submitFromCallback type fd =>
    simp only [step, submitFromCallback] at h
    split at h
    · cases h
      refine ⟨fun i hi => ?_, ha.posted, ha.sent⟩
      simp only [List.length_append, List.length_singleton]
      obtain hi | hi := List.mem_append.mp hi
      · have hlt := ha.range i hi
        omega
      · rw [List.mem_singleton.mp hi]
        omega
    · cases h
  | init entries initialized =>
    cases h
    have hexits : ∀ {u : ManagerLife}, u.exits = s.exits → .joining ∉ u.exits := by
      intro u hu hmem
      cases hx _ (hu ▸ hmem)
    unfold init
    split
    · exact ha
    · split
      · refine ⟨fun i hi => ?_, fun p hp => ?_, fun hmem => absurd hmem (hexits rfl)⟩
        · cases hi
        · cases hp
      · exact ⟨ha.range, ha.posted, fun hmem => absurd hmem (hexits rfl)⟩
  | exit =>
    cases h
    have hnone : .joining ∉ s.exits := fun hmem => by cases hx.1 _ hmem
    unfold exit
    split
    · refine ⟨ha.range, ha.posted, fun hmem => ?_⟩
      obtain hmem | hmem := List.mem_append.mp hmem
      · exact absurd hmem hnone
      · split at hmem <;> cases List.mem_singleton.mp hmem
    · refine ⟨ha.range, ha.posted, fun hmem => ?_⟩
      obtain hmem | hmem := List.mem_append.mp hmem
      · exact absurd hmem hnone
      · cases List.mem_singleton.mp hmem
  | submitExit e round => exact submitExit_answered hs ha h
  | completeExit =>
    simp only [step, completeExit] at h
    split at h
    · cases h
    · cases h
      refine ⟨ha.range, fun p hp => ?_, fun _ _ => .inl (by simp)⟩
      cases hposted : s.exitPosted with
      | none => simp_all
      | some q =>
        have hle := ha.posted q hposted
        simp_all
  | takeExit =>
    simp only [step, takeExit] at h
    split at h
    · cases h
      refine ⟨ha.range, fun p hp => ?_, fun _ hthread => ?_⟩
      · cases hp
      · cases hthread
    · cases h
  | join e =>
    simp only [step, join] at h
    split at h
    · cases h
      exact ha.congr (Nat.le_refl _) rfl rfl rfl fun _ hthread => by cases hthread
    · cases h
  | release e =>
    simp only [step, release] at h
    split at h
    · cases h
      refine ⟨ha.range, fun p hp => ?_, fun _ hthread => ?_⟩
      · cases hp
      · cases (hs.releasing ‹_›).symm.trans hthread
    · cases h

structure Serving (kept : List (Nat × Stage)) (exits : List ExitCall) (s : ManagerLife) :
    Prop where
  isRunning : s.life.manager.isRunning = false
  ringInitialized : s.ringInitialized = true
  thread : s.thread = .running
  exits : s.exits = exits
  range : ∀ i ∈ s.workerCalls, i < s.life.calls.length
  workerCalls : ∀ i ∈ s.workerCalls, s.finished i = true ∨ ∃ r, s.life.worker = .putting r
  posted : ∀ p, s.exitPosted = some p → p ≤ s.life.cq.length
  kept : ∀ i c, (i, c) ∈ kept → s.life.calls[i]? = some c ∧ i ∉ s.workerCalls

structure Drains (kept : List (Nat × Stage)) (exits : List ExitCall) (s : ManagerLife) : Prop
    extends s.Serving kept exits where
  sent : s.exitPosted ≠ none ∨ 0 < s.exitInflight

variable {kept : List (Nat × Stage)} {exits : List ExitCall} {s t : ManagerLife} {a : LifeAct}

theorem Drains.frame (hs : s.Drains kept exits) (h : s.LifeFrame a t)
    (hworkerCalls : ∀ i ∈ t.workerCalls, t.finished i = true ∨ ∃ r, t.life.worker = .putting r)
    (hposted : ∀ p, t.exitPosted = some p → p ≤ t.life.cq.length)
    (hkept : ∀ i c, (i, c) ∈ kept → t.life.calls[i]? = s.life.calls[i]?) : t.Drains kept exits where
  isRunning := (LifeCycle.step_isRunning h.life).trans hs.isRunning
  ringInitialized := h.ringInitialized.trans hs.ringInitialized
  thread := h.thread.trans hs.thread
  exits := h.exits.trans hs.exits
  range := h.range hs.range
  workerCalls := hworkerCalls
  posted := hposted
  sent := by
    obtain hsent | hsent := hs.sent
    · left
      rw [h.exitPosted]
      split
      · simpa using hsent
      · exact hsent
    · exact .inr (Nat.lt_of_lt_of_le hsent h.exitInflight)
  kept i c hmem := by
    rw [hkept i c hmem, h.workerCalls]
    refine ⟨(hs.kept i c hmem).1, ?_⟩
    split
    · exact List.not_mem_nil
    · exact (hs.kept i c hmem).2

theorem Drains.call_step (hs : s.Drains kept exits) {i : Nat} {c : Stage}
    (hmem : i ∈ s.workerCalls) (hi : s.life.calls[i]? = some c) (hc : c.finished = false) :
    ∃ a t, s.step a = some t ∧ (∀ e, s.Ends e a) ∧ t.Drains kept exits ∧ t.left < s.left := by
  obtain ⟨a, life, c', hstep, ha, hring, hcalls, hleft, hcq, hworker⟩ :=
    LifeCycle.exists_call_step hi hc hs.isRunning (if s.full then .noSqe else .submit 1)
  have hmove : s.mayMove a = true := by
    cases a with
    | ring j o =>
      obtain rfl := hring j o rfl
      cases hfull : s.full <;> simp [mayMove, hfull]
    | _ => first | rfl | cases ha
  have hends : ∀ e, s.Ends e (.life a) := by
    intro e
    have hcall : ∀ j ∈ a.call, j ∈ s.workerCalls := by
      intro j hj
      rw [ha] at hj
      cases hj
      exact hmem
    cases a with
    | submitOperation type fd => cases ha
    | ring j o =>
      obtain rfl := hring j o rfl
      refine ⟨hcall, ?_⟩
      cases hfull : s.full <;> simp [LifeCycle.SubmitSucceeds, RingOutcome.Succeeds]
    | _ => exact ⟨hcall, trivial⟩
  have hwait : a ≠ .waitCqe := by rintro rfl; cases ha
  have hput : a ≠ .workerPut := by rintro rfl; cases ha
  obtain ⟨t, ht⟩ : ∃ t, s.lifeStep a = some t := by
    simp only [lifeStep, hmove, if_true, hstep, Option.map_some]
    exact ⟨_, rfl⟩
  have hframe := lifeStep_frame ht
  have hlife : t.life = life := by
    have hlife := hframe.life
    rw [hstep] at hlife
    exact (Option.some.inj hlife).symm
  have hsame : t.workerCalls = s.workerCalls := by rw [hframe.workerCalls, if_neg hput]
  refine ⟨.life a, t, ht, hends, hs.frame hframe (fun j hj => ?_) (fun p hp => ?_)
    (fun j d hkept => ?_), ?_⟩
  · rw [hlife, hworker]
    exact (hs.workerCalls j (hsame ▸ hj)).imp_left hframe.finished
  · rw [hframe.exitPosted, if_neg hwait] at hp
    rw [hlife, hcq]
    exact hs.posted p hp
  · have hne : i ≠ j := by
      rintro rfl
      exact (hs.kept i d hkept).2 hmem
    rw [hlife, hcalls, List.getElem?_set_ne hne]
  · have hcallsLeft : t.callsLeft < s.callsLeft := by
      simp only [callsLeft, hsame, hlife, hcalls]
      refine List.sum_lt_sum _ _ (fun j _ => ?_) ⟨i, hmem, ?_⟩
      · by_cases hij : i = j
        · subst hij
          rw [List.getElem?_set_self (List.getElem?_eq_some_iff.mp hi).1, hi]
          exact Nat.le_of_lt hleft
        · rw [List.getElem?_set_ne hij]
      · rw [List.getElem?_set_self (List.getElem?_eq_some_iff.mp hi).1, hi]
        exact hleft
    have hahead : t.ahead = s.ahead := by
      simp only [ahead, hframe.exitPosted, if_neg hwait, hlife, hcq]
    have hworkerLeft : t.life.worker.left = s.life.worker.left := by rw [hlife, hworker]
    simp only [left, hahead, hworkerLeft]
    omega

theorem callsLeft_congr (hcalls : t.life.calls = s.life.calls)
    (hworkerCalls : t.workerCalls = s.workerCalls) : t.callsLeft = s.callsLeft := by
  simp only [callsLeft, hcalls, hworkerCalls]

theorem Drains.worker_step (hs : s.Drains kept exits)
    (hdone : ∀ i ∈ s.workerCalls, s.finished i = true)
    (hbusy : s.life.worker ≠ .waiting ∨ ∃ p, s.exitPosted = some (p + 1)) :
    ∃ a t, s.step a = some t ∧ (∀ e, s.Ends e a) ∧ t.Drains kept exits ∧ t.left < s.left := by
  cases hworker : s.life.worker with
  | putting r =>
    have hmove : s.mayMove .workerPut = true := by
      simpa [mayMove, hs.thread, List.all_eq_true] using hdone
    obtain ⟨t, ht⟩ : ∃ t, s.lifeStep .workerPut = some t := by
      simp only [lifeStep, hmove, if_true, LifeCycle.step, LifeCycle.workerPut, hworker,
        Option.map_some]
      exact ⟨_, rfl⟩
    have hframe := lifeStep_frame ht
    have hlife : t.life = { s.life with
        manager := s.life.manager.putRequest r, worker := .waiting } := by
      simpa [LifeCycle.step, LifeCycle.workerPut, hworker] using hframe.life.symm
    have hnone : t.workerCalls = [] := by rw [hframe.workerCalls, if_pos rfl]
    have hposted : t.exitPosted = s.exitPosted := hframe.exitPosted
    refine ⟨.life .workerPut, t, ht, fun _ => ⟨by simp [LifeAct.call], trivial⟩,
      hs.frame hframe (fun i hi => ?_) (fun p hp => ?_) (fun _ _ _ => by rw [hlife]), ?_⟩
    · rw [hnone] at hi
      cases hi
    · rw [hlife]
      exact hs.posted p (hposted ▸ hp)
    · simp only [left, callsLeft, hnone, ahead, hposted, hlife, hworker, Worker.left]
      simp
  | handling cqe =>
    have hmove : s.mayMove .handleCompletion = true := by simp [mayMove, hs.thread]
    obtain ⟨q, result⟩ := cqe
    obtain ⟨t, ht⟩ : ∃ t, s.lifeStep .handleCompletion = some t := by
      simp only [lifeStep, hmove, if_true, LifeCycle.step, LifeCycle.handleCompletion, hworker,
        Option.map_some]
      exact ⟨_, rfl⟩
    have hframe := lifeStep_frame ht
    have hlife : t.life = { s.life.invoke q.userData q.op result with
        worker := .putting q.userData } := by
      simpa [LifeCycle.step, LifeCycle.handleCompletion, hworker] using hframe.life.symm
    have hsame : t.workerCalls = s.workerCalls := hframe.workerCalls
    have hposted : t.exitPosted = s.exitPosted := hframe.exitPosted
    refine ⟨.life .handleCompletion, t, ht, fun _ => ⟨by simp [LifeAct.call], trivial⟩,
      hs.frame hframe (fun i hi => ?_) (fun p hp => ?_) (fun _ _ _ => by rw [hlife]; rfl), ?_⟩
    · exact .inl (hframe.finished (hdone i (hsame ▸ hi)))
    · rw [hlife]
      exact hs.posted p (hposted ▸ hp)
    · have hcalls := callsLeft_congr (s := s) (t := t) (by rw [hlife]; rfl) hsame
      simp only [left, hcalls, ahead, hposted, hlife, hworker, Worker.left, LifeCycle.invoke]
      omega
  | waiting =>
    obtain ⟨p, hp⟩ := hbusy.resolve_left (by simp [hworker])
    have hmove : s.mayMove .waitCqe = true := by simp [mayMove, hs.thread, hp]
    have hle := hs.posted _ hp
    obtain ⟨cqe, rest, hcq⟩ : ∃ cqe rest, s.life.cq = cqe :: rest := by
      cases hcq : s.life.cq with
      | nil =>
        rw [hcq] at hle
        simp at hle
      | cons cqe rest => exact ⟨cqe, rest, rfl⟩
    obtain ⟨t, ht⟩ : ∃ t, s.lifeStep .waitCqe = some t := by
      simp only [lifeStep, hmove, if_true, LifeCycle.step, LifeCycle.waitCqe, hworker, hcq,
        Option.map_some]
      exact ⟨_, rfl⟩
    have hframe := lifeStep_frame ht
    have hlife : t.life = { s.life with worker := .handling cqe, cq := rest } := by
      simpa [LifeCycle.step, LifeCycle.waitCqe, hworker, hcq] using hframe.life.symm
    have hsame : t.workerCalls = s.workerCalls := hframe.workerCalls
    have hposted : t.exitPosted = some p := by rw [hframe.exitPosted, if_pos rfl, hp]; rfl
    rw [hcq, List.length_cons] at hle
    refine ⟨.life .waitCqe, t, ht, fun _ => ⟨by simp [LifeAct.call], trivial⟩,
      hs.frame hframe (fun i hi => ?_) (fun q hq => ?_) (fun _ _ _ => by rw [hlife]), ?_⟩
    · exact .inl (hframe.finished (hdone i (hsame ▸ hi)))
    · rw [hposted] at hq
      cases hq
      rw [hlife]
      exact Nat.le_of_succ_le_succ hle
    · have hcalls := callsLeft_congr (s := s) (t := t) (by rw [hlife]) hsame
      simp only [left, hcalls, ahead, hposted, hp, hlife, hworker, Worker.left, Option.getD_some]
      omega

/-- There is always something that brings the worker closer to the exit request. -/
theorem Drains.progress (hs : s.Drains kept exits)
    (hnot : ¬ (s.life.worker = .waiting ∧ s.exitPosted = some 0)) :
    ∃ a t, s.step a = some t ∧ (∀ e, s.Ends e a) ∧ t.Drains kept exits ∧ t.left < s.left := by
  by_cases hdone : ∀ i ∈ s.workerCalls, s.finished i = true
  · by_cases hbusy : s.life.worker ≠ .waiting ∨ ∃ p, s.exitPosted = some (p + 1)
    · exact hs.worker_step hdone hbusy
    · -- the exit request is still with the kernel
      rw [not_or, not_not] at hbusy
      obtain ⟨hworker, hposted⟩ := hbusy
      have hnone : s.exitPosted = none := by
        cases hp : s.exitPosted with
        | none => rfl
        | some p =>
          cases p with
          | zero => exact absurd ⟨hworker, hp⟩ hnot
          | succ p => exact absurd ⟨p, hp⟩ hposted
      have hinflight := hs.sent.resolve_left (not_not.mpr hnone)
      refine ⟨.completeExit, { s with
        exitInflight := s.exitInflight - 1
        exitPosted := some s.life.cq.length }, ?_, fun _ => trivial, ?_, ?_⟩
      · simp [step, completeExit, Nat.ne_of_gt hinflight, hnone]
      · refine ⟨⟨hs.isRunning, hs.ringInitialized, hs.thread, hs.exits, hs.range, hs.workerCalls,
          fun p hp => ?_, hs.kept⟩, .inl (by simp)⟩
        cases hp
        exact Nat.le_refl _
      · simp only [left, callsLeft, ahead, hnone, Option.getD_none, Option.getD_some]
        omega
  · push Not at hdone
    obtain ⟨i, hmem, hi⟩ := hdone
    obtain hfinished | ⟨r, hworker⟩ := hs.workerCalls i hmem
    · exact absurd hfinished hi
    · cases hcall : s.life.calls[i]? with
      | none =>
        have hlt := hs.range i hmem
        rw [List.getElem?_eq_none_iff] at hcall
        omega
      | some c =>
        exact hs.call_step hmem hcall (by simpa [finished, hcall] using hi)

structure Left (kept : List (Nat × Stage)) (exits : List ExitCall) (s : ManagerLife) : Prop where
  ringInitialized : s.ringInitialized = true
  thread : s.thread = .left
  exits : s.exits = exits
  kept : ∀ i c, (i, c) ∈ kept → s.life.calls[i]? = some c

/-- The worker comes to the exit request and leaves. -/
theorem Drains.leaves (hs : s.Drains kept exits) :
    ∃ as t, machine.run s as = some t ∧ machine.Every (fun u a _ => ∀ e, u.Ends e a) s as ∧
      t.Left kept exits := by
  obtain ⟨as, u, -, hrun, hends, hu, hworker, hposted⟩ :=
    machine.exists_run_of_progress (G := fun s => s.life.worker = .waiting ∧
      s.exitPosted = some 0) (P := fun u a _ => ∀ e, u.Ends e a) left
      (fun s hs hnot => Drains.progress hs hnot) hs
  have htake : machine.step u .takeExit = some { u with
      thread := .left
      exitPosted := none
      misuses := u.misuses ++ u.badRing } := by
    simp [machine, step, takeExit, hu.thread, hworker, hposted]
  have hend : machine.Every (fun u a _ => ∀ e, u.Ends e a) u [.takeExit] :=
    (machine.every_cons htake).mpr ⟨fun _ => trivial, trivial⟩
  refine ⟨as ++ [.takeExit], { u with
      thread := .left
      exitPosted := none
      misuses := u.misuses ++ u.badRing },
    machine.run_append.mpr ⟨u, hrun, machine.run_cons.mpr ⟨_, htake, rfl⟩⟩,
    machine.every_append.mpr ⟨hends, fun v hv => ?_⟩,
    hu.ringInitialized, rfl, hu.exits, fun i c hmem => (hu.kept i c hmem).1⟩
  obtain rfl : u = v := Option.some.inj (hrun.symm.trans hv)
  exact hend

/-- Once the thread has left, `Exit` joins it and releases the ring, and leaves a request that
is still in somebody's hands behind. -/
theorem Left.returns {e : Nat} (hs : s.Left kept exits) (he : exits[e]? = some .joining) :
    ∃ t, machine.run s [.join e, .release e] = some t ∧ t.exits[e]? = some .returned ∧
      t.ringInitialized = false ∧
      ∀ i c, (i, c) ∈ kept → c.holding = true → t.life.calls[i]? = some c ∧ i ∈ t.dangling := by
  have hlt := (List.getElem?_eq_some_iff.mp he).1
  have hjoin :
      machine.step s (.join e) = some ({ s with thread := .none }.setExit e .releasing) := by
    simp [machine, step, join, hs.exits, he, hs.thread]
  obtain ⟨t, ht⟩ : ∃ t, ({ s with thread := .none }.setExit e .releasing).release e = some t := by
    simp only [release, setExit, hs.exits, List.getElem?_set_self hlt, if_true]
    exact ⟨_, rfl⟩
  refine ⟨t, machine.run_cons.mpr ⟨_, hjoin, machine.run_cons.mpr ⟨t, ht, rfl⟩⟩, ?_⟩
  simp only [release, setExit, hs.exits, List.getElem?_set_self hlt, if_true,
    Option.some.injEq] at ht
  subst ht
  refine ⟨?_, rfl, fun i c hmem hholding => ⟨hs.kept i c hmem, ?_⟩⟩
  · simp [dropPool, hlt]
  · have hholds : s.holds i = true := LifeCycle.any_getElem?.mpr ⟨c, hs.kept i c hmem, hholding⟩
    exact List.mem_append_right _ (mem_holders.mpr hholds)

theorem submitExit_submit {e : Nat} (hc : s.exits[e]? = some .submitting)
    (hroom : s.full = false) :
    ∃ t, s.submitExit e (.submit 1) = some t ∧ t.exits = s.exits.set e .joining := by
  have hroom' : ({ s with misuses := s.misuses ++ s.badRing } : ManagerLife).full = false := hroom
  simp only [submitExit, hc, if_true, hroom', Bool.false_eq_true, if_false, Int.one_nonneg,
    setExit, flush, handOver]
  exact ⟨_, rfl, rfl⟩

theorem submitExit_noSqe {e : Nat} (hring : s.ringInitialized = true)
    (hc : s.exits[e]? = some .submitting) (hfull : s.full = true) :
    ∃ t, s.submitExit e (.noSqe 1) = some t ∧ t.exits = s.exits ∧ t.ringInitialized = true ∧
      t.full = false := by
  have hfull' : ({ s with misuses := s.misuses ++ s.badRing } : ManagerLife).full = true := hfull
  refine ⟨({ s with misuses := s.misuses ++ s.badRing } : ManagerLife).flush, ?_, rfl, hring, ?_⟩
  · have hagain : ({ s with misuses := s.misuses ++ s.badRing } : ManagerLife).flush.tryAgain e =
        ({ s with misuses := s.misuses ++ s.badRing } : ManagerLife).flush := if_pos hring
    rw [← hagain, submitExit, if_pos hc]
    exact if_pos hfull'
  · have hcapacity : ¬ 2 ^ Nat.clog 2 s.life.manager.requestPool.length ≤ 0 :=
      Nat.not_le.mpr (Nat.two_pow_pos _)
    exact decide_eq_false hcapacity

/-- One round of `SubmitExitRequest` is enough, or two on a ring that is full. -/
theorem exists_rounds {e : Nat} (hring : s.ringInitialized = true)
    (hc : s.exits[e]? = some .submitting) :
    ∃ bs t, machine.run s bs = some t ∧
      (∀ b ∈ bs, ∃ round, b = .submitExit e round ∧ round.Succeeds) ∧
      t.exits = s.exits.set e .joining := by
  cases hfull : s.full with
  | false =>
    obtain ⟨t, ht, hexits⟩ := submitExit_submit hc hfull
    exact ⟨[.submitExit e (.submit 1)], t, machine.run_cons.mpr ⟨t, ht, rfl⟩,
      by simp [ExitRound.Succeeds], hexits⟩
  | true =>
    obtain ⟨u, hu, hsame, -, hroom⟩ := submitExit_noSqe hring hc hfull
    obtain ⟨t, ht, hexits⟩ := submitExit_submit (hsame ▸ hc) hroom
    exact ⟨[.submitExit e (.noSqe 1), .submitExit e (.submit 1)], t,
      machine.run_cons.mpr ⟨u, hu, machine.run_cons.mpr ⟨t, ht, rfl⟩⟩,
      by simp [ExitRound.Succeeds], hsame ▸ hexits⟩

theorem every_ends_last (e : Nat) (s : ManagerLife) :
    machine.Every (fun u a _ => u.Ends e a) s [.join e, .release e] :=
  machine.every_of_mem fun a ha _ _ => by obtain rfl | rfl := List.mem_pair.mp ha <;> exact rfl

/-- An `Exit` whose exit request has been submitted comes to its end. -/
theorem Drains.returns {e : Nat} (hs : s.Drains kept exits) (he : exits[e]? = some .joining) :
    ∃ as t, machine.run s as = some t ∧ machine.Every (fun u a _ => u.Ends e a) s as ∧
      t.exits[e]? = some .returned ∧
      ∀ i c, (i, c) ∈ kept → c.holding = true → t.life.calls[i]? = some c ∧ i ∈ t.dangling := by
  obtain ⟨as, u, hrun, hends, hu⟩ := hs.leaves
  obtain ⟨t, hend, hreturned, -, hkept⟩ := hu.returns he
  refine ⟨as ++ [.join e, .release e], t, machine.run_append.mpr ⟨u, hrun, hend⟩,
    machine.every_append.mpr ⟨?_, fun v _ => every_ends_last e v⟩, hreturned, hkept⟩
  exact machine.every_of_every (I := fun _ => True) (fun _ _ _ _ _ h => ⟨trivial, h e⟩) trivial
    hends

theorem Round.serving {e : Nat} (h : s.Round e t) (hs : s.Serving kept s.exits) :
    t.Serving kept t.exits where
  isRunning := h.isRunning.trans hs.isRunning
  ringInitialized := by
    rw [h.frame]
    exact hs.ringInitialized
  thread := by
    rw [h.frame]
    exact hs.thread
  exits := rfl
  range i hi := by
    rw [h.calls]
    rw [h.frame] at hi
    exact hs.range i hi
  workerCalls i hi := by
    simp only [finished, h.calls, h.worker]
    rw [h.frame] at hi
    exact hs.workerCalls i hi
  posted p hp := by
    rw [h.cq]
    rw [h.frame] at hp
    exact hs.posted p hp
  kept i c hmem := by
    rw [h.calls, h.frame]
    exact hs.kept i c hmem

structure Rounds (kept : List (Nat × Stage)) (e : Nat) (s : ManagerLife) : Prop
    extends s.Serving kept s.exits where
  alive : s.ringAlive = true
  stage : s.exits[e]? = some .submitting ∨ 0 < s.exitInflight

theorem Rounds.step {e : Nat} {round : ExitRound} (hs : s.Rounds kept e)
    (h : s.submitExit e round = some t) : t.Rounds kept e := by
  have hbad : s.badRing = [] := by simp [badRing, hs.alive]
  obtain ⟨hc, hround⟩ := submitExit_round hs.ringInitialized hbad h
  refine ⟨hround.serving hs.toServing, ?_, ?_⟩
  · rw [hround.frame]
    exact hs.alive
  · obtain hsame | ⟨-, hsent⟩ := hround.exits
    · exact .inl (hsame ▸ hc)
    · exact .inr hsent

theorem Rounds.returns {e : Nat} (hs : s.Rounds kept e) (he : s.exits[e]? = some .submitting) :
    ∃ as t, machine.run s as = some t ∧ machine.Every (fun u a _ => u.Ends e a) s as ∧
      t.exits[e]? = some .returned ∧
      ∀ i c, (i, c) ∈ kept → c.holding = true → t.life.calls[i]? = some c ∧ i ∈ t.dangling := by
  obtain ⟨bs, u, hrounds, hbs, hexits⟩ := exists_rounds hs.ringInitialized he
  have hjoining : u.exits[e]? = some .joining := by
    rw [hexits, List.getElem?_set_self (List.getElem?_eq_some_iff.mp he).1]
  have hu : u.Rounds kept e :=
    machine.run_invariant_of_every (C := fun _ b _ => ∃ round, b = .submitExit e round ∧
      round.Succeeds) (fun _ _ _ hs hstep hb => by
        obtain ⟨round, rfl, -⟩ := hb
        exact hs.step hstep) hs (machine.every_of_mem fun b hb _ _ => hbs b hb) hrounds
  have hsent : 0 < u.exitInflight := hu.stage.resolve_left (by simp [hjoining])
  obtain ⟨as, t, hrun, hends, hrest⟩ := Drains.returns ⟨hu.toServing, .inr hsent⟩ hjoining
  refine ⟨bs ++ as, t, machine.run_append.mpr ⟨u, hrounds, hrun⟩, machine.every_append.mpr
    ⟨machine.every_of_mem fun b hb _ _ => ?_, fun v hv => ?_⟩, hrest⟩
  · obtain ⟨round, rfl, hround⟩ := hbs b hb
    exact ⟨rfl, hround⟩
  · obtain rfl : u = v := Option.some.inj (hrounds.symm.trans hv)
    exact hends

theorem run_answered {as : List ManagerAct} (h : machine.run created as = some s)
    (hx : machine.Every (fun s a _ => s.Exclusive a) created as) : s.Orderly ∧ s.Answered :=
  machine.run_invariant_of_every (I := fun s => s.Orderly ∧ s.Answered)
    (fun _ _ _ hs ha hx => ⟨step_orderly hs.1 ha hx, step_answered hs.1 hs.2 ha hx⟩)
    ⟨orderly_created, answered_created⟩ hx h

theorem dangling_misuse {i : Nat} {c : Stage} (hc : s.life.calls[i]? = some c)
    (hholding : c.holding = true) (hi : i ∈ s.dangling) :
    ∃ a t, machine.step s (.life a) = some t ∧ t.misuses ≠ [] := by
  have hmisuse : ∀ a, s.mayMove a = true → .request ∈ s.misusesOf a →
      (∃ life, s.life.step a = some life) →
      ∃ a t, machine.step s (.life a) = some t ∧ t.misuses ≠ [] := by
    rintro a hmove hmem ⟨life, hlife⟩
    obtain ⟨t, ht⟩ : ∃ t, s.lifeStep a = some t := by
      simp only [lifeStep, hmove, if_true, hlife, Option.map_some]
      exact ⟨_, rfl⟩
    refine ⟨a, t, ht, ?_⟩
    rw [(lifeStep_frame ht).misuses]
    exact List.ne_nil_of_mem (List.mem_append_right _ hmem)
  cases c with
  | cleared type fd r =>
    refine hmisuse (.initRequest i) rfl (by simp [misusesOf, badRequest, hi]) ?_
    simp only [LifeCycle.step, LifeCycle.initRequest, hc]
    exact ⟨_, rfl⟩
  | prepared r =>
    refine hmisuse (.ring i (if s.full then .noSqe else .submit 1)) ?_
      (by simp [misusesOf, badRequest, hi]) ?_
    · cases hfull : s.full <;> simp [mayMove, hfull]
    · simp only [LifeCycle.step, LifeCycle.ring, hc]
      exact ⟨_, rfl⟩
  | failed r error =>
    refine hmisuse (.completeWithError i) rfl (by simp [misusesOf, badRequest, hi]) ?_
    simp only [LifeCycle.step, LifeCycle.completeWithError, hc]
    exact ⟨_, rfl⟩
  | putting r =>
    refine hmisuse (.putRequest i) rfl (by simp [misusesOf, badRequest, hi]) ?_
    simp only [LifeCycle.step, LifeCycle.putRequest, hc]
    exact ⟨_, rfl⟩
  | begun type fd | checked type fd | rejecting error | returned accepted => cases hholding

theorem every_exclusive {e : Nat} {bs : List ManagerAct}
    (hbs : machine.Every (fun u b _ => u.Ends e b) s bs) :
    machine.Every (fun s a _ => s.Exclusive a) s bs := by
  refine machine.every_of_every (I := fun _ => True) (fun u b v _ _ hends => ⟨trivial, ?_⟩)
    trivial hbs
  cases b with
  | init entries initialized | exit => cases hends
  | _ => trivial

theorem exit_rounds (hs : s.Orderly) (ha : s.Answered) (hring : s.ringInitialized = true)
    (hexits : s.NoExit) {i : Nat} {c : Stage} (hc : s.life.calls[i]? = some c)
    (hother : i ∉ s.workerCalls) :
    s.exit.Rounds [(i, c)] s.exits.length ∧ s.exit.exits = s.exits ++ [.submitting] := by
  cases hs.phase with
  | closed _ hnone => rw [hring] at hnone; cases hnone
  | ending done stage _ _ hexits' _ hstage =>
    refine absurd hexits (not_noExit hexits' ?_)
    obtain rfl | rfl := hstage <;> simp
  | joined done _ _ hexits' => exact absurd hexits (not_noExit hexits' (by simp))
  | running hrun _ hworker hthread _ =>
    have hexit : s.exit.exits = s.exits ++ [.submitting] := by simp [exit, hring, hworker]
    refine ⟨?_, hexit⟩
    simp only [exit, hring, if_true, hworker]
    refine ⟨⟨rfl, rfl, hthread, rfl, ha.range, fun j hj => ?_, ha.posted, fun j d hmem => ?_⟩,
      hs.alive.trans hring, .inl (by simp)⟩
    · exact (hs.workerCalls j hj).imp_right fun h => h.2
    · cases List.mem_singleton.mp hmem
      exact ⟨hc, hother⟩

theorem Rounds.getRequest {e i : Nat} {type : RequestType} {fd : Fd}
    (hs : s.Rounds [(i, .checked type fd)] e) (hfree : s.life.manager.freeRequests ≠ []) :
    ∃ r t, machine.step s (.life (.getRequest i)) = some t ∧
      t.Rounds [(i, .cleared type fd r)] e ∧ t.exits = s.exits := by
  obtain ⟨hi, hother⟩ := hs.kept i (.checked type fd) (by simp)
  obtain ⟨r, rest, hrest⟩ := List.exists_cons_of_ne_nil hfree
  obtain ⟨m, hget⟩ : ∃ m, s.life.manager.getRequest = some (r, m) := by
    simp only [Manager.getRequest, hrest]
    exact ⟨_, rfl⟩
  obtain ⟨t, ht⟩ : ∃ t, s.lifeStep (.getRequest i) = some t := by
    simp only [lifeStep, mayMove, if_true, LifeCycle.step, LifeCycle.getRequest, hi, hget,
      Option.map_some]
    exact ⟨_, rfl⟩
  have hframe := lifeStep_frame ht
  have hlife := hframe.life
  simp only [LifeCycle.step, LifeCycle.getRequest, hi, hget, Option.some.injEq] at hlife
  have hcalls : t.life.calls = s.life.calls.set i (.cleared type fd r) := by
    rw [← hlife]
    rfl
  have hworkerCalls : t.workerCalls = s.workerCalls := hframe.workerCalls
  refine ⟨r, t, ht, ⟨⟨?_, hframe.ringInitialized.trans hs.ringInitialized,
    hframe.thread.trans hs.thread, rfl, fun j hj => ?_, fun j hj => ?_, fun p hp => ?_,
    fun j d hmem => ?_⟩, hframe.ringAlive.trans hs.alive, ?_⟩, hframe.exits⟩
  · exact (LifeCycle.step_isRunning hframe.life).trans hs.isRunning
  · rw [hcalls, List.length_set]
    exact hs.range j (hworkerCalls ▸ hj)
  · refine (hs.workerCalls j (hworkerCalls ▸ hj)).imp hframe.finished (Exists.imp fun x hx => ?_)
    rw [← hlife]
    exact hx
  · have hcq : t.life.cq = s.life.cq := by
      rw [← hlife]
      rfl
    have hposted : t.exitPosted = s.exitPosted := hframe.exitPosted
    rw [hcq]
    exact hs.posted p (hposted ▸ hp)
  · cases List.mem_singleton.mp hmem
    rw [hcalls, hworkerCalls]
    exact ⟨List.getElem?_set_self (List.getElem?_eq_some_iff.mp hi).1, hother⟩
  · rw [hframe.exits]
    exact hs.stage.imp_right fun hsent => Nat.lt_of_lt_of_le hsent hframe.exitInflight

theorem Rounds.holding {e i : Nat} {c : Stage} (hs : s.Rounds [(i, c)] e)
    (hinside : c.inside = true) (hfree : s.life.manager.freeRequests ≠ []) :
    ∃ bs t c', machine.run s bs = some t ∧ machine.Every (fun s a _ => s.Exclusive a) s bs ∧
      t.Rounds [(i, c')] e ∧ c'.holding = true ∧ t.exits = s.exits := by
  cases c with
  | checked type fd =>
    obtain ⟨r, t, ht, hrounds, hexits⟩ := hs.getRequest hfree
    exact ⟨[.life (.getRequest i)], t, _, machine.run_cons.mpr ⟨t, ht, rfl⟩,
      fun _ _ => ⟨trivial, trivial⟩, hrounds, rfl, hexits⟩
  | _ => exact ⟨[], s, _, rfl, trivial, hs, hinside, rfl⟩

/-- An `Exit` that begins alone, with a request still free, can lead to no misuse just when no
call but those of the worker's callback is inside. -/
theorem exit_safe_iff {as : List ManagerAct} (h : machine.run created as = some s)
    (hx : machine.Every (fun s a _ => s.Exclusive a) created as)
    (hring : s.ringInitialized = true) (hexits : s.NoExit)
    (hfree : s.life.manager.freeRequests ≠ []) :
    (∀ bs t, machine.run s (.exit :: bs) = some t →
      machine.Every (fun s a _ => s.Exclusive a) s.exit bs → t.misuses = []) ↔
      ∀ i, s.inside i = true → i ∈ s.workerCalls := by
  obtain ⟨hs, ha⟩ := run_answered h hx
  constructor
  · intro hsafe i hi
    by_contra hother
    obtain ⟨c, hc, hinside⟩ := LifeCycle.any_getElem?.mp hi
    obtain ⟨hrounds, hbegun⟩ := exit_rounds hs ha hring hexits hc hother
    have hfree' : s.exit.life.manager.freeRequests ≠ [] := by simpa [exit, hring] using hfree
    obtain ⟨bs, u, c', hrun, hbs, hu, hholding, hsame⟩ := hrounds.holding hinside hfree'
    obtain ⟨cs, v, hrun', hends, -, hkept⟩ := hu.returns (by simp [hsame, hbegun])
    obtain ⟨hcall, hdangling⟩ := hkept i c' (by simp) hholding
    obtain ⟨a, t, hstep, hmisuses⟩ := dangling_misuse hcall hholding hdangling
    refine hmisuses (hsafe (bs ++ (cs ++ [.life a])) t ?_ ?_)
    · exact machine.run_cons.mpr ⟨s.exit, rfl, machine.run_append.mpr ⟨u, hrun,
        machine.run_append.mpr ⟨v, hrun', machine.run_cons.mpr ⟨t, hstep, rfl⟩⟩⟩⟩
    · refine machine.every_append.mpr ⟨hbs, fun w hw => ?_⟩
      obtain rfl : u = w := Option.some.inj (hrun.symm.trans hw)
      exact machine.every_append.mpr ⟨every_exclusive hends, fun _ _ _ _ => ⟨trivial, trivial⟩⟩
  · intro hinside bs t hrun hbs
    refine run_orderly (machine.run_append.mpr ⟨s, h, hrun⟩)
      (machine.every_append.mpr ⟨hx, fun u hu => ?_⟩) |>.misuses
    obtain rfl : s = u := Option.some.inj (h.symm.trans hu)
    have hexit : machine.step s .exit = some s.exit := rfl
    exact (machine.every_cons hexit).mpr ⟨⟨hexits, fun _ => hinside⟩, hbs⟩

def submissionUnderWay : List ManagerAct :=
  [.init 2 true, .life (.submitOperation .read 5), .life (.check 0)]

theorem exit_safe_iff_submissionUnderWay :
    ∃ s, machine.run created submissionUnderWay = some s ∧
      ¬ ∀ bs t, machine.run s (.exit :: bs) = some t →
        machine.Every (fun s a _ => s.Exclusive a) s.exit bs → t.misuses = [] := by
  have hrun : machine.run created submissionUnderWay = some _ := rfl
  refine ⟨_, hrun, fun hsafe => ?_⟩
  have hinside := (exit_safe_iff hrun (machine.every_of_check (by decide)) rfl (by decide)
    (by decide)).mp hsafe
  exact absurd (hinside 0 rfl) (by decide)

end ManagerLife

end Lmnet.IoUring
