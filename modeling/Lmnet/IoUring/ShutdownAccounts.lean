import Lmnet.IoUring.Shutdown

set_option autoImplicit false

namespace Lmnet.IoUring

namespace LifeCycle

def withPrior (s : LifeCycle) (vs : List Invocation) : LifeCycle :=
  { s with invoked := vs ++ s.invoked }

theorem step_withPrior (s : LifeCycle) (vs : List Invocation) (a : LifeAct) :
    (s.withPrior vs).step a = (s.step a).map (·.withPrior vs) := by
  cases a with
  | submitOperation type fd => rfl
  | getRequest i =>
    cases hi : s.calls[i]? with
    | none => simp [step, getRequest, withPrior, hi]
    | some c =>
      cases c with
      | checked type fd =>
        cases hget : s.manager.getRequest <;>
          simp [step, getRequest, withPrior, setCall, hi, hget]
      | _ => simp [step, getRequest, withPrior, hi]
  | check i =>
    simp only [step, check, withPrior]
    split <;> rfl
  | complete k result =>
    simp only [step, complete, withPrior]
    split <;> rfl
  | reject i | initRequest i | ring i o | putRequest i | waitCqe | workerPut
  | completeWithError i | handleCompletion =>
    simp only [step, reject, initRequest, ring, putRequest, waitCqe, workerPut, completeWithError,
      handleCompletion, withPrior]
    split
    · simp [setCall, invoke]
    · rfl

theorem CallsMove.returned {s s' : LifeCycle} (h : s.CallsMove s') {i : Nat} {accepted : Bool}
    (hi : s.calls[i]? = some (.returned accepted)) : s'.calls[i]? = some (.returned accepted) := by
  cases h with
  | same hcalls => exact hcalls ▸ hi
  | begun type fd hcalls =>
    rw [hcalls, List.getElem?_append_left (List.getElem?_eq_some_iff.mp hi).1, hi]
  | on j b c hj hcalls hunfinished _ =>
    have hne : j ≠ i := by
      rintro rfl
      rw [hi, Option.some.injEq] at hj
      rw [← hj] at hunfinished
      cases hunfinished
    rw [hcalls, List.getElem?_set_ne hne, hi]

theorem step_inRing {s s' : LifeCycle} {a : LifeAct} (h : s.step a = some s')
    (ha : SubmitSucceeds a) {j : Nat} (hj : j ∈ s'.inRing) :
    j ∈ s.inRing ∨ s'.calls[j]? = some (.returned true) := by
  cases a with
  | submitOperation type fd =>
    cases h
    exact .inl hj
  | check i =>
    obtain ⟨type, fd, -, rfl⟩ := check_cases h
    exact .inl hj
  | getRequest i =>
    simp only [step, getRequest] at h
    split at h
    · split at h
      · cases h
        exact .inl hj
      · rename_i hget
        obtain ⟨rest, -, rfl⟩ := Manager.getRequest_eq_some hget
        cases h
        exact .inl hj
    · cases h
  | ring i o =>
    obtain ⟨r, hi, rfl⟩ := ring_cases h
    cases o with
    | noSqe => exact .inl hj
    | submit ret =>
      have hret : 0 ≤ ret := ha
      have hlt : i < s.calls.length := (List.getElem?_eq_some_iff.mp hi).1
      have hmem : j ∈ s.inRing ∨ j = i := by
        simp only [inRing, Manager.ring, hret, if_true, setCall, List.map_append, List.map_cons,
          List.map_nil, List.mem_append, List.mem_singleton, List.not_mem_nil] at hj ⊢
        tauto
      obtain hmem | rfl := hmem
      · exact .inl hmem
      · right
        simp [setCall, RingOutcome.result, hret, hlt]
  | complete k result =>
    simp only [step, complete] at h
    split at h
    · rename_i q m hq
      cases h
      obtain ⟨q', hq', heq⟩ := Option.map_eq_some_iff.mp hq
      cases heq
      left
      simp only [inRing, List.map_append, List.map_cons, List.map_nil, List.mem_append,
        List.mem_singleton, List.mem_map] at hj ⊢
      obtain (hj | ⟨q', hmem, rfl⟩) | hj | rfl := hj
      · exact .inl (.inl hj)
      · exact .inl (.inr ⟨q', List.mem_of_mem_eraseIdx hmem, rfl⟩)
      · exact .inr hj
      · exact .inl (.inr ⟨q, List.mem_of_getElem? hq', rfl⟩)
    · cases h
  | waitCqe =>
    simp only [step, waitCqe] at h
    split at h
    · rename_i hcq
      cases h
      left
      simp only [inRing, List.mem_append, hcq, List.map_cons, List.mem_cons] at hj ⊢
      tauto
    · cases h
  | reject i | initRequest i | completeWithError i | putRequest i | handleCompletion
  | workerPut =>
    simp only [step, reject, initRequest, completeWithError, putRequest, handleCompletion,
      workerPut] at h
    split at h
    · cases h
      exact .inl hj
    · cases h

end LifeCycle

namespace ManagerLife

/-- The life cycle as if the callbacks of the operations that were lost had been called. -/
def settled (s : ManagerLife) : LifeCycle := s.life.withPrior (s.lost.map fun i => ⟨i, i, 0⟩)

/-- Every operation is accounted for, and only accepted ones are in the ring or lost. -/
structure Accounted (s : ManagerLife) : Prop where
  sound : s.settled.Sound
  accepted : ∀ i, i ∈ s.inRing ∨ i ∈ s.lost → s.life.calls[i]? = some (.returned true)

def SubmitSucceeds : ManagerAct → Prop
  | .life a => LifeCycle.SubmitSucceeds a
  | _ => True

variable {s t : ManagerLife}

theorem accounted_created : created.Accounted := by
  refine ⟨⟨fun r => ?_, rfl, fun r i hb => ?_, fun i => rfl, by simp [settled, created,
    LifeCycle.withPrior]⟩, by simp [inRing, LifeCycle.inRing, created]⟩
  · simp [LifeCycle.places, Manager.references, settled, created, LifeCycle.withPrior, Worker.holds]
  · cases hb <;> simp_all [settled, created, LifeCycle.withPrior]

/-- A move that leaves the calls, the ring and the requests alone. -/
theorem Accounted.of_life (ha : s.Accounted) (isRunning : Bool)
    (hlife : t.life = { s.life with manager := { s.life.manager with isRunning := isRunning } })
    (hlost : t.lost = s.lost) : t.Accounted := by
  obtain ⟨⟨hplaces, hprepared, hbound, haccounts, hresults⟩, haccepted⟩ := ha
  refine ⟨?_, ?_⟩
  · rw [settled, hlost, hlife]
    refine ⟨hplaces, hprepared, fun r i hb => hbound r i ?_, haccounts, hresults⟩
    exact hb.of_parts (fun c hj hkind => .of_call hj hkind) (fun hm => .inflight hm)
      (fun _ hm => .posted _ hm) fun _ hw => .handling _ hw
  · rw [inRing, LifeCycle.inRing, hlost, hlife]
    exact haccepted

theorem Quiet.not_inside (h : s.Quiet) {i : Nat} {c : Stage} (hc : s.life.calls[i]? = some c) :
    c.inside = false := by
  have hcall := h.calls i
  rwa [inside, hc] at hcall

theorem Quiet.countP_holds (h : s.Quiet) (r : Nat) :
    s.life.calls.countP (fun c => c.holds r) = 0 := by
  refine List.countP_eq_zero.mpr fun c hc hholds => ?_
  obtain ⟨i, hi⟩ := List.getElem?_of_mem hc
  have hnone := h.not_inside hi
  cases c <;> first | cases hholds | cases hnone

theorem Accounted.cleared (ha : s.Accounted) (hquiet : s.Quiet)
    (hcalls : t.life.calls = s.life.calls) (hworker : t.life.worker = .waiting)
    (hinvoked : t.life.invoked = s.life.invoked) (hlost : t.lost = s.lost ++ s.inRing)
    (hempty : t.inRing = [])
    (hfree : ∀ r, t.life.manager.freeRequests.count r =
      if r < t.life.manager.requestPool.length then 1 else 0) : t.Accounted := by
  have hparts : t.life.manager.prepared = [] ∧ t.life.manager.inflight = [] ∧ t.life.cq = [] := by
    simp only [inRing, LifeCycle.inRing, List.append_eq_nil_iff, List.map_eq_nil_iff] at hempty
    exact ⟨hempty.1.1, hempty.1.2, hempty.2⟩
  obtain ⟨hprepared, hinflight, hcq⟩ := hparts
  refine ⟨⟨fun r => ?_, hprepared, fun r i hb => ?_, fun i => ?_, fun v hv => ?_⟩, fun i hi => ?_⟩
  · simpa [LifeCycle.places, Manager.references, settled, LifeCycle.withPrior, hprepared,
      hinflight, hcq, hworker, Worker.holds, hcalls, hquiet.countP_holds] using hfree r
  · cases hb with
    | prepared hi => cases hquiet.not_inside (hcalls ▸ hi)
    | failed error hi => cases hquiet.not_inside (hcalls ▸ hi)
    | inflight hm => simp [settled, LifeCycle.withPrior, hinflight] at hm
    | posted result hm => simp [settled, LifeCycle.withPrior, hcq] at hm
    | handling result hw => simp [settled, LifeCycle.withPrior, hworker] at hw
  · have hone := ha.sound.accounts i
    simp only [LifeCycle.accounts, settled, LifeCycle.withPrior, hprepared, hinflight, hcq,
      hworker, hcalls, hinvoked, hlost, hquiet.worker, inRing,
      LifeCycle.inRing, Worker.pending, List.map_append,
      List.map_map, List.countP_append, List.countP_map, List.countP_nil] at hone ⊢
    rw [← hone]
    simp only [Function.comp_def]
    omega
  · simp only [settled, LifeCycle.withPrior, hinvoked] at hv
    obtain hv | hv := List.mem_append.mp hv
    · obtain ⟨i, -, rfl⟩ := List.mem_map.mp hv
      rfl
    · exact ha.sound.results v (List.mem_append_right _ hv)
  · rw [hempty, hlost, List.mem_append] at hi
    rw [hcalls]
    exact ha.accepted i (hi.resolve_left List.not_mem_nil).symm

theorem LifeFrame.accounted {a : LifeAct} (h : s.LifeFrame a t) (ha : s.Accounted)
    (hsubmit : LifeCycle.SubmitSucceeds a) : t.Accounted := by
  have hsettled : s.settled.step a = some t.settled := by
    rw [settled, LifeCycle.step_withPrior, h.life, settled, h.lost]
    rfl
  refine ⟨LifeCycle.step_sound ha.sound hsubmit hsettled, fun i hi => ?_⟩
  have hcalls := LifeCycle.step_callsMove h.life
  rw [h.lost] at hi
  obtain hi | hi := hi
  · obtain hin | hdone := LifeCycle.step_inRing h.life hsubmit hi
    · exact hcalls.returned (ha.accepted i (.inl hin))
    · exact hdone
  · exact hcalls.returned (ha.accepted i (.inr hi))

theorem submitFromCallback_accounted {type : RequestType} {fd : Fd} (ha : s.Accounted)
    (h : s.submitFromCallback type fd = some t) : t.Accounted := by
  unfold submitFromCallback at h
  split at h
  · cases h
    have hcalls : s.life.CallsMove { s.life with calls := s.life.calls ++ [.begun type fd] } :=
      .begun type fd rfl
    exact ⟨LifeCycle.submitOperation_sound type fd ha.sound,
      fun i hi => hcalls.returned (ha.accepted i hi)⟩
  · cases h

theorem submitExit_life {e : Nat} {round : ExitRound} (hprepared : s.life.manager.prepared = [])
    (h : s.submitExit e round = some t) : t.life = s.life ∧ t.lost = s.lost := by
  have hflush : ∀ u : ManagerLife, u.life = s.life → u.lost = s.lost →
      u.flush.life = s.life ∧ u.flush.lost = s.lost := by
    intro u hlife hlost
    simp only [flush, handOver, hlife, hlost, hprepared, List.append_nil, and_true]
    rw [← hprepared]
  have hagain : ∀ u : ManagerLife, (u.tryAgain e).life = u.life ∧ (u.tryAgain e).lost = u.lost := by
    intro u
    unfold tryAgain
    split <;> exact ⟨rfl, rfl⟩
  unfold submitExit at h
  split at h
  · cases round with
    | noSqe ret =>
      obtain ⟨-, h⟩ := Option.ite_none_right_eq_some.mp h
      cases h
      rw [(hagain _).1, (hagain _).2]
      split
      · exact hflush _ rfl rfl
      · exact ⟨rfl, rfl⟩
    | submit ret =>
      obtain ⟨-, h⟩ := Option.ite_none_left_eq_some.mp h
      simp only at h
      split at h
      · cases h
        exact hflush _ rfl rfl
      · cases h
        exact hagain _
  · cases h

theorem count_init (entries r : Nat) :
    (Manager.init entries : Manager Nat).freeRequests.count r =
      if r < (Manager.init entries : Manager Nat).requestPool.length then 1 else 0 := by
  simp [Manager.init, List.count_range]

theorem init_accounted (hs : s.Orderly) (ha : s.Accounted) (hexits : s.NoExit) (entries : Nat)
    (initialized : Bool) : (s.init entries initialized).Accounted := by
  cases hrun : s.isRunning with
  | true =>
    have hsame : s.init entries initialized = s := by simp [init, hrun]
    rw [hsame]
    exact ha
  | false =>
    obtain ⟨-, -, hquiet, hempty⟩ := hs.closed hrun hexits
    cases initialized with
    | true =>
      simp only [init, hrun, Bool.false_eq_true, if_false, if_true]
      exact ha.cleared hquiet rfl rfl rfl rfl rfl (count_init entries)
    | false =>
      simp only [init, hrun, Bool.false_eq_true, if_false]
      exact ha.cleared hquiet rfl hquiet.worker rfl (by simp [hempty, dropPool]) hempty
        fun r => rfl

/-- `Exit` releases the ring when the worker is joined and nobody holds a request. -/
theorem Orderly.quiet {e : Nat} (hs : s.Orderly) (hc : s.exits[e]? = some .releasing) :
    s.Quiet := by
  have hnot : ¬ s.NoExit := fun h => by cases h _ (List.mem_of_getElem? hc)
  cases hs.phase with
  | closed _ _ _ hexits => exact absurd hexits hnot
  | running _ _ _ _ hexits => exact absurd hexits hnot
  | ending done stage _ _ hexits hdone hstage =>
    obtain ⟨-, rfl⟩ := current_exit hexits hdone hc (by simp)
    obtain h | h := hstage <;> cases h
  | joined done _ _ _ _ _ hquiet => exact hquiet

theorem release_accounted {e : Nat} (hs : s.Orderly) (ha : s.Accounted)
    (h : s.release e = some t) : t.Accounted := by
  unfold release at h
  split at h
  · rename_i hc
    cases h
    have hquiet := hs.quiet hc
    exact ha.cleared hquiet rfl hquiet.worker rfl rfl rfl fun r => rfl
  · cases h

theorem step_accounted {a : ManagerAct} (hs : s.Orderly) (ha : s.Accounted)
    (h : s.step a = some t) (hx : s.Exclusive a) (hsubmit : SubmitSucceeds a) : t.Accounted := by
  cases a with
  | life a => exact (lifeStep_frame h).accounted ha hsubmit
  | submitFromCallback type fd => exact submitFromCallback_accounted ha h
  | init entries initialized =>
    cases h
    exact init_accounted hs ha hx entries initialized
  | exit =>
    cases h
    unfold exit
    split
    · exact ha.of_life false rfl rfl
    · exact ha.of_life _ rfl rfl
  | submitExit e round =>
    obtain ⟨hlife, hlost⟩ := submitExit_life ha.sound.prepared h
    exact ha.of_life s.life.manager.isRunning hlife hlost
  | completeExit | takeExit | join e =>
    simp only [step, completeExit, takeExit, join] at h
    split at h
    · cases h
      try exact ha.of_life _ rfl rfl
    · cases h
      try exact ha.of_life _ rfl rfl
  | release e => exact release_accounted hs ha h

theorem run_accounted {as : List ManagerAct} (h : machine.run created as = some t)
    (hx : machine.Every (fun s a _ => s.Exclusive a) created as)
    (hsubmit : ∀ a ∈ as, SubmitSucceeds a) : t.Orderly ∧ t.Accounted :=
  machine.run_invariant_of_every (I := fun s => s.Orderly ∧ s.Accounted)
    (fun _ _ _ hs ha hx => ⟨step_orderly hs.1 ha hx.2, step_accounted hs.1 hs.2 ha hx.2 hx.1⟩)
    ⟨orderly_created, accounted_created⟩ (machine.every_and hsubmit hx) h

/-- When `Exit` has returned, every operation whose submission has returned has had its callback
called exactly once, with its own result, or was lost with the ring; which only an operation
that was accepted can be. -/
theorem exit_accounted {as : List ManagerAct} (h : machine.run created as = some t)
    (hx : machine.Every (fun s a _ => s.Exclusive a) created as)
    (hsubmit : ∀ a ∈ as, SubmitSucceeds a) (hrun : t.isRunning = false) (hexits : t.NoExit) :
    (∀ v ∈ t.life.invoked, v.callback = v.operation) ∧
      ∀ i accepted, t.life.calls[i]? = some (.returned accepted) →
        t.life.invoked.countP (·.callback == i) + t.lost.count i = 1 ∧
          (i ∈ t.lost → accepted = true) := by
  obtain ⟨hs, ha⟩ := run_accounted h hx hsubmit
  refine ⟨fun v hv => ha.sound.results v (List.mem_append_right _ hv), fun i accepted hi => ?_⟩
  obtain ⟨-, -, hquiet, hempty⟩ := hs.closed hrun hexits
  simp only [inRing, LifeCycle.inRing, List.append_eq_nil_iff, List.map_eq_nil_iff] at hempty
  have hone := ha.sound.accounts i
  simp only [LifeCycle.accounts, settled, LifeCycle.withPrior, hi, hempty, hquiet.worker,
    Worker.pending, Stage.pending, Option.any_some, List.countP_append, List.countP_map,
    List.countP_nil, (List.getElem?_eq_some_iff.mp hi).1, if_true, Bool.toNat_false] at hone
  refine ⟨?_, fun hlost => ?_⟩
  · rw [List.count, Nat.add_comm]
    simpa [Function.comp_def] using hone
  · have haccepted := ha.accepted i (.inr hlost)
    rw [hi] at haccepted
    cases haccepted
    rfl

/-- The read that a callback submits during `Exit` is accepted, and is what the ring loses. -/
theorem exit_accounted_exitDuringCallback :
    ∃ t, machine.run created (exitDuringCallback.take 22) = some t ∧ t.lost = [1] ∧
      ∀ i accepted, t.life.calls[i]? = some (.returned accepted) →
        t.life.invoked.countP (·.callback == i) + t.lost.count i = 1 ∧
          (i ∈ t.lost → accepted = true) := by
  have hrun : machine.run created (exitDuringCallback.take 22) = some _ := rfl
  refine ⟨_, hrun, rfl, (exit_accounted hrun (machine.every_of_check (by decide)) ?_ rfl
    (by decide)).2⟩
  simp [exitDuringCallback, SubmitSucceeds, LifeCycle.SubmitSucceeds, RingOutcome.Succeeds]

end ManagerLife

end Lmnet.IoUring
