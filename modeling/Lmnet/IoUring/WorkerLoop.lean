import Lmnet.IoUring.Manager
import Lmnet.Lib.Machine

/-!
The worker loop of `IoUringManager` around a component: its callbacks, the
operations they submit, and the callbacks that a failed submission calls at
once. What is still to run is a stack of frames; a step runs the one on top.
-/

set_option autoImplicit false

namespace Lmnet.IoUring

/-- What a component's code does next: submit an operation, or run some more of
its own code. -/
inductive Call (κ φ : Type) where
  | submit (type : RequestType) (fd : Fd) (op : κ)
  | code (f : φ)
  deriving DecidableEq, Repr

inductive Frame (κ φ : Type) where
  | invoke (op : κ) (result : Int)
  | putRequest (r : Nat)
  | call (c : Call κ φ)
  deriving DecidableEq, Repr

/-- A user of the manager. `onFail` is what follows a submission that returns
false, `kernel` the effect of an operation that the kernel carries out with this
result, and `api` marks the code that applications call. -/
structure Component (κ φ σ : Type) where
  callback : σ → κ → Int → σ × List (Call κ φ)
  onFail : κ → List φ
  code : σ → φ → σ × List (Call κ φ)
  kernel : σ → κ → Int → Option σ
  api : φ → Bool

structure Loop (κ φ σ : Type) where
  manager : Manager κ
  cq : List (Sqe κ × Int)
  stack : List (Frame κ φ)
  state : σ

inductive LoopAct (φ : Type) where
  | kernel (k : Nat) (result : Int)
  | worker
  | call (f : φ)
  | frame (o : RingOutcome)
  deriving DecidableEq, Repr

def LoopAct.Succeeds {φ : Type} : LoopAct φ → Prop
  | .frame o => o.Succeeds
  | _ => True

namespace Loop

variable {κ φ σ : Type}

def failFrames (comp : Component κ φ σ) (op : κ) (error : Int) (r : Option Nat) :
    List (Frame κ φ) :=
  .invoke op error :: (r.map Frame.putRequest).toList ++
    ((comp.onFail op).map Call.code).map Frame.call

/-- One round of `Run`: the completion's callback, by the request it names, and
then `PutRequest`. -/
def worker (s : Loop κ φ σ) : Option (Loop κ φ σ) :=
  match s.stack, s.cq with
  | [], (q, result) :: rest =>
      some { s with
        cq := rest
        stack := ((s.manager.callbackAt q.userData).map fun op => Frame.invoke op result).toList ++
          [.putRequest q.userData] }
  | _, _ => none

def frame (comp : Component κ φ σ) (s : Loop κ φ σ) (o : RingOutcome) : Option (Loop κ φ σ) :=
  match s.stack with
  | [] => none
  | .invoke op result :: rest =>
      some { s with
        state := (comp.callback s.state op result).1
        stack := (comp.callback s.state op result).2.map .call ++ rest }
  | .putRequest r :: rest => some { s with manager := s.manager.putRequest r, stack := rest }
  | .call (.code f) :: rest =>
      some { s with
        state := (comp.code s.state f).1
        stack := (comp.code s.state f).2.map .call ++ rest }
  | .call (.submit type fd op) :: rest =>
      match s.manager.submitOperation type fd op o with
      | (m, none) => some { s with manager := m, stack := rest }
      | (m, some (error, r)) =>
          some { s with manager := m, stack := failFrames comp op error r ++ rest }

/-- An application's call may come at any point and runs to its end before the
worker goes on. -/
def step (comp : Component κ φ σ) (s : Loop κ φ σ) : LoopAct φ → Option (Loop κ φ σ)
  | .kernel k result =>
      match s.manager.complete k with
      | none => none
      | some (q, m) =>
          (comp.kernel s.state q.op result).map fun st =>
            { s with manager := m, cq := s.cq ++ [(q, result)], state := st }
  | .worker => s.worker
  | .call f => if comp.api f then some { s with stack := .call (.code f) :: s.stack } else none
  | .frame o => s.frame comp o

def Frame.puts (r : Nat) : Frame κ φ → Bool
  | .putRequest r' => r' == r
  | _ => false

def places (s : Loop κ φ σ) (r : Nat) : Nat :=
  s.manager.references r + s.cq.countP (·.1.userData == r) + s.stack.countP (Frame.puts r)

structure Sound (s : Loop κ φ σ) : Prop where
  places : ∀ r, s.places r = if r < s.manager.requestPool.length then 1 else 0
  prepared : s.manager.prepared = []
  inflight : ∀ q ∈ s.manager.inflight, s.manager.callbackAt q.userData = some q.op
  posted : ∀ c ∈ s.cq, s.manager.callbackAt c.1.userData = some c.1.op

theorem sound_init (entries : Nat) (st : σ) :
    (⟨Manager.init entries, [], [], st⟩ : Loop κ φ σ).Sound := by
  refine ⟨fun r => ?_, rfl, ?_, ?_⟩
  · have hrefs := Manager.references_init (κ := κ) entries r
    simpa [Loop.places, Manager.init] using hrefs
  · simp [Manager.init]
  · simp

theorem puts_calls (r : Nat) (cs : List (Call κ φ)) :
    (cs.map Frame.call).countP (Frame.puts r) = 0 := by
  induction cs with
  | nil => rfl
  | cons c cs ih =>
    rw [List.map_cons, List.countP_cons, ih]
    rfl

theorem puts_failFrames (comp : Component κ φ σ) (x : Nat) (op : κ) (error : Int)
    (r : Option Nat) :
    (failFrames comp op error r).countP (Frame.puts x) = (r.any (· == x)).toNat := by
  have hcalls := puts_calls x ((comp.onFail op).map (Call.code (κ := κ)))
  rw [failFrames, List.cons_append, List.countP_cons, List.countP_append, hcalls]
  cases r with
  | none => simp [Frame.puts]
  | some r => cases hx : r == x <;> simp [Frame.puts, hx]

inductive Moves (comp : Component κ φ σ) (s : Loop κ φ σ) : LoopAct φ → Loop κ φ σ → Prop where
  | kernel {k : Nat} {result : Int} {q : Sqe κ} {st : σ} {m : Manager κ}
      (hq : s.manager.inflight[k]? = some q) (hst : comp.kernel s.state q.op result = some st)
      (hm : m = { s.manager with inflight := s.manager.inflight.eraseIdx k }) :
      Moves comp s (.kernel k result) ⟨m, s.cq ++ [(q, result)], s.stack, st⟩
  | worker {q : Sqe κ} {result : Int} {rest : List (Sqe κ × Int)} (hstack : s.stack = [])
      (hcq : s.cq = (q, result) :: rest) :
      Moves comp s .worker
        ⟨s.manager, rest, [.invoke q.op result, .putRequest q.userData], s.state⟩
  | call {f : φ} (hapi : comp.api f = true) :
      Moves comp s (.call f) ⟨s.manager, s.cq, .call (.code f) :: s.stack, s.state⟩
  | invoke {o : RingOutcome} {op : κ} {result : Int} {rest : List (Frame κ φ)}
      (hstack : s.stack = .invoke op result :: rest) :
      Moves comp s (.frame o) ⟨s.manager, s.cq,
        (comp.callback s.state op result).2.map .call ++ rest, (comp.callback s.state op result).1⟩
  | putRequest {o : RingOutcome} {r : Nat} {rest : List (Frame κ φ)}
      (hstack : s.stack = .putRequest r :: rest) :
      Moves comp s (.frame o) ⟨s.manager.putRequest r, s.cq, rest, s.state⟩
  | code {o : RingOutcome} {f : φ} {rest : List (Frame κ φ)}
      (hstack : s.stack = .call (.code f) :: rest) :
      Moves comp s (.frame o) ⟨s.manager, s.cq,
        (comp.code s.state f).2.map .call ++ rest, (comp.code s.state f).1⟩
  | accepted {o : RingOutcome} {type : RequestType} {fd : Fd} {op : κ}
      {rest : List (Frame κ φ)} {r : Nat} {m : Manager κ}
      (hstack : s.stack = .call (.submit type fd op) :: rest)
      (hsubmit : s.manager.submitOperation type fd op o = (m, none))
      (hinflight : m.inflight = s.manager.inflight ++ [⟨r, op⟩]) :
      Moves comp s (.frame o) ⟨m, s.cq, rest, s.state⟩
  | refused {o : RingOutcome} {type : RequestType} {fd : Fd} {op : κ}
      {rest : List (Frame κ φ)} {error : Int} {r : Option Nat} {m : Manager κ}
      (hstack : s.stack = .call (.submit type fd op) :: rest)
      (hsubmit : s.manager.submitOperation type fd op o = (m, some (error, r)))
      (herror : error = -ESHUTDOWN ∨ error = -ENOMEM)
      (hinflight : m.inflight = s.manager.inflight) :
      Moves comp s (.frame o) ⟨m, s.cq, failFrames comp op error r ++ rest, s.state⟩

theorem Sound.frame {s : Loop κ φ σ} {stack : List (Frame κ φ)} {st : σ} (h : s.Sound)
    (hputs : ∀ r, stack.countP (Frame.puts r) = s.stack.countP (Frame.puts r)) :
    (⟨s.manager, s.cq, stack, st⟩ : Loop κ φ σ).Sound := by
  refine ⟨fun r => ?_, h.prepared, h.inflight, h.posted⟩
  simpa only [Loop.places, hputs r] using h.places r

theorem Sound.not_free {s : Loop κ φ σ} {q : Sqe κ} {r : Nat} (h : s.Sound)
    (hq : q ∈ s.manager.inflight ∨ ∃ result, (q, result) ∈ s.cq)
    (hfree : 0 < s.manager.freeRequests.count r) : r ≠ q.userData := by
  rintro rfl
  have hle : s.places q.userData ≤ 1 := by
    rw [h.places]
    split <;> omega
  simp only [Loop.places, Manager.references] at hle
  rcases hq with hm | ⟨result, hm⟩
  · have hpos : 0 < s.manager.inflight.countP (·.userData == q.userData) :=
      List.countP_pos_iff.mpr ⟨q, hm, by simp⟩
    omega
  · have hpos : 0 < s.cq.countP (·.1.userData == q.userData) :=
      List.countP_pos_iff.mpr ⟨(q, result), hm, by simp⟩
    omega

theorem Sound.lt_of_free {s : Loop κ φ σ} {r : Nat} (h : s.Sound)
    (hfree : 0 < s.manager.freeRequests.count r) : r < s.manager.requestPool.length := by
  by_contra hge
  have hzero := h.places r
  rw [if_neg hge] at hzero
  simp only [Loop.places, Manager.references] at hzero
  omega

theorem kernel_moves {comp : Component κ φ σ} {s s' : Loop κ φ σ} {k : Nat} {result : Int}
    (h : s.Sound) (hs : s.step comp (.kernel k result) = some s') :
    Moves comp s (.kernel k result) s' ∧ s'.Sound := by
  simp only [step] at hs
  split at hs
  · cases hs
  · rename_i q m hcomplete
    obtain ⟨st, hst, rfl⟩ := Option.map_eq_some_iff.mp hs
    have hrefs := Manager.references_complete hcomplete
    obtain ⟨q', hq, heq⟩ := Option.map_eq_some_iff.mp hcomplete
    cases heq
    refine ⟨.kernel hq hst rfl, fun r => ?_, h.prepared, fun q' hm => ?_, fun c hm => ?_⟩
    · have hr := h.places r
      have hrefs' := hrefs r
      simp only [places, List.countP_append, List.countP_singleton] at hr ⊢
      cases hx : q.userData == r <;> simp [hx] at hrefs' ⊢ <;> omega
    · exact h.inflight q' (List.mem_of_mem_eraseIdx hm)
    · rcases List.mem_append.mp hm with hm | hm
      · exact h.posted c hm
      · obtain rfl := List.mem_singleton.mp hm
        exact h.inflight q (List.mem_of_getElem? hq)

theorem worker_moves {comp : Component κ φ σ} {s s' : Loop κ φ σ} (h : s.Sound)
    (hs : s.worker = some s') : Moves comp s .worker s' ∧ s'.Sound := by
  unfold worker at hs
  split at hs
  · rename_i q result rest hstack hcq
    have hcallback := h.posted (q, result) (hcq ▸ List.mem_cons_self)
    simp only [hcallback, Option.map_some, Option.toList_some, List.cons_append,
      List.nil_append, Option.some.injEq] at hs
    subst hs
    refine ⟨.worker hstack hcq, fun r => ?_, h.prepared, h.inflight, fun c hm => ?_⟩
    · have hr := h.places r
      simp only [places, hstack, hcq, List.countP_cons_toNat, List.countP_nil, Frame.puts,
        Bool.toNat_false] at hr ⊢
      omega
    · exact h.posted c (hcq ▸ List.mem_cons_of_mem _ hm)
  · cases hs

theorem submit_moves {comp : Component κ φ σ} {s s' : Loop κ φ σ} {o : RingOutcome}
    {type : RequestType} {fd : Fd} {op : κ} {rest : List (Frame κ φ)}
    (h : s.Sound) (ho : o.Succeeds) (hstack : s.stack = .call (.submit type fd op) :: rest)
    (hs : s.frame comp o = some s') : Moves comp s (.frame o) s' ∧ s'.Sound := by
  have hcases := Manager.submitOperation_cases type fd op h.prepared ho
  have hputs : ∀ r, s.stack.countP (Frame.puts r) = rest.countP (Frame.puts r) := by
    intro r
    simp [hstack, Frame.puts]
  simp only [frame, hstack] at hs
  generalize hsub : s.manager.submitOperation type fd op o = out at hcases hs
  cases hcases with
  | accepted r m hfree hrefs hinflight hcallback hother hpool hprepared =>
    cases hs
    refine ⟨.accepted hstack hsub hinflight, fun x => ?_, hprepared, fun q hm => ?_,
      fun c hm => ?_⟩
    · have hx := h.places x
      simp only [places, hputs x] at hx
      simp only [places, hrefs x, hpool]
      exact hx
    · rw [hinflight] at hm
      rcases List.mem_append.mp hm with hm | hm
      · exact (hother _ (h.not_free (.inl hm) hfree)).trans (h.inflight q hm)
      · obtain rfl := List.mem_singleton.mp hm
        exact hcallback (h.lt_of_free hfree)
    · exact (hother _ (h.not_free (.inr ⟨c.2, hm⟩) hfree)).trans (h.posted c hm)
  | refused error hshut hfull =>
    cases hs
    refine ⟨.refused hstack hsub hshut rfl, h.frame fun r => ?_⟩
    rw [List.countP_append, puts_failFrames, hputs r]
    simp
  | noEntry r m hfree hrefs hinflight hother hpool hprepared =>
    cases hs
    refine ⟨.refused hstack hsub (.inr rfl) hinflight, fun x => ?_, hprepared, fun q hm => ?_,
      fun c hm => ?_⟩
    · have hx := h.places x
      have hrx := hrefs x
      simp only [places, hputs x] at hx
      simp only [places, hpool, List.countP_append, puts_failFrames, Option.any_some]
      omega
    · rw [hinflight] at hm
      exact (hother _ (h.not_free (.inl hm) hfree)).trans (h.inflight q hm)
    · exact (hother _ (h.not_free (.inr ⟨c.2, hm⟩) hfree)).trans (h.posted c hm)

/-- Soundness is kept, and each step is one of the moves. -/
theorem step_moves {comp : Component κ φ σ} {s s' : Loop κ φ σ} {a : LoopAct φ}
    (h : s.Sound) (ha : a.Succeeds) (hs : s.step comp a = some s') :
    Moves comp s a s' ∧ s'.Sound := by
  cases a with
  | kernel k result => exact kernel_moves h hs
  | worker => exact worker_moves h hs
  | call f =>
    simp only [step] at hs
    split at hs
    · rename_i hapi
      cases hs
      exact ⟨.call hapi, h.frame fun r => by simp [Frame.puts]⟩
    · cases hs
  | frame o =>
    rcases hstack : s.stack with _ | ⟨f, rest⟩
    · simp [step, frame, hstack] at hs
    · cases f with
      | invoke op result =>
        simp only [step, frame, hstack, Option.some.injEq] at hs
        subst hs
        exact ⟨.invoke hstack, h.frame fun r => by
          simp [hstack, List.countP_append, Frame.puts]⟩
      | putRequest r =>
        simp only [step, frame, hstack, Option.some.injEq] at hs
        subst hs
        refine ⟨.putRequest hstack, fun x => ?_, h.prepared, h.inflight, h.posted⟩
        have hx := h.places x
        have hrefs := s.manager.references_putRequest r x
        simp only [places, hstack, List.countP_cons_toNat, Frame.puts] at hx
        simp only [places, hrefs]
        have hpool : (s.manager.putRequest r).requestPool = s.manager.requestPool := rfl
        rw [hpool, ← hx]
        omega
      | call c =>
        cases c with
        | code f =>
          simp only [step, frame, hstack, Option.some.injEq] at hs
          subst hs
          exact ⟨.code hstack, h.frame fun r => by
            simp [hstack, List.countP_append, Frame.puts]⟩
        | submit type fd op => exact submit_moves h ha hstack hs

end Loop

section Holds

variable {κ φ σ : Type}

def Call.Holds (P : κ → Prop) (Q : φ → Prop) : Call κ φ → Prop
  | .submit _ _ op => P op
  | .code f => Q f

def Frame.Holds (P : κ → Prop) (Q : φ → Prop) : Frame κ φ → Prop
  | .invoke op _ => P op
  | .putRequest _ => True
  | .call c => c.Holds P Q

structure Loop.Holds (P : κ → Prop) (Q : φ → Prop) (s : Loop κ φ σ) : Prop where
  inflight : ∀ q ∈ s.manager.inflight, P q.op
  posted : ∀ c ∈ s.cq, P c.1.op
  stack : ∀ f ∈ s.stack, f.Holds P Q

def Grows (P : σ → κ → Prop) (Q : σ → φ → Prop) (st st' : σ) : Prop :=
  (∀ op, P st op → P st' op) ∧ ∀ f, Q st f → Q st' f

structure Component.Keeps (comp : Component κ φ σ) (P : σ → κ → Prop) (Q : σ → φ → Prop) :
    Prop where
  callback : ∀ {st op result}, P st op → Grows P Q st (comp.callback st op result).1 ∧
    ∀ c ∈ (comp.callback st op result).2,
      c.Holds (P (comp.callback st op result).1) (Q (comp.callback st op result).1)
  onFail : ∀ {st op f}, P st op → f ∈ comp.onFail op → Q st f
  code : ∀ {st f}, Q st f → Grows P Q st (comp.code st f).1 ∧
    ∀ c ∈ (comp.code st f).2, c.Holds (P (comp.code st f).1) (Q (comp.code st f).1)
  kernel : ∀ {st op result st'}, comp.kernel st op result = some st' → Grows P Q st st'
  api : ∀ {st f}, comp.api f = true → Q st f

variable {P : σ → κ → Prop} {Q : σ → φ → Prop}

theorem Grows.refl (st : σ) : Grows P Q st st := ⟨fun _ h => h, fun _ h => h⟩

theorem Grows.frame {st st' : σ} (h : Grows P Q st st') {f : Frame κ φ}
    (hf : f.Holds (P st) (Q st)) : f.Holds (P st') (Q st') := by
  match f with
  | .invoke op _ => exact h.1 op hf
  | .putRequest _ => trivial
  | .call (.submit _ _ op) => exact h.1 op hf
  | .call (.code f) => exact h.2 f hf

namespace Loop

variable {comp : Component κ φ σ} {s s' : Loop κ φ σ} {a : LoopAct φ}

theorem Holds.calls (h : s.Holds (P s.state) (Q s.state)) {st : σ} {f : Frame κ φ}
    {rest : List (Frame κ φ)} {cs : List (Call κ φ)} (hstack : s.stack = f :: rest)
    (hgrows : Grows P Q s.state st) (hcs : ∀ c ∈ cs, c.Holds (P st) (Q st)) :
    Loop.Holds (P st) (Q st) ⟨s.manager, s.cq, cs.map .call ++ rest, st⟩ := by
  refine ⟨fun q hq => hgrows.1 _ (h.inflight q hq), fun c hc => hgrows.1 _ (h.posted c hc), ?_⟩
  intro g hg
  obtain hg | hg := List.mem_append.mp hg
  · obtain ⟨c, hc, rfl⟩ := List.mem_map.mp hg
    exact hcs c hc
  · exact hgrows.frame (h.stack g (hstack ▸ List.mem_cons_of_mem f hg))

/-- What a component keeps holds of everything after each step. -/
theorem Holds.moves (hkeeps : comp.Keeps P Q) (h : s.Holds (P s.state) (Q s.state))
    (hmoves : Moves comp s a s') : s'.Holds (P s'.state) (Q s'.state) := by
  cases hmoves with
  | @kernel k result q st m hq hst hm =>
    subst hm
    have hgrows := hkeeps.kernel hst
    refine ⟨fun q' hq' => ?_, fun c hc => ?_, fun f hf => hgrows.frame (h.stack f hf)⟩
    · exact hgrows.1 _ (h.inflight q' (List.mem_of_mem_eraseIdx hq'))
    · obtain hc | hc := List.mem_append.mp hc
      · exact hgrows.1 _ (h.posted c hc)
      · rw [List.mem_singleton.mp hc]
        exact hgrows.1 _ (h.inflight q (List.mem_of_getElem? hq))
  | @worker q result rest hstack hcq =>
    have hq := h.posted (q, result) (hcq ▸ List.mem_cons_self)
    refine ⟨h.inflight, fun c hc => h.posted c (hcq ▸ List.mem_cons_of_mem _ hc), ?_⟩
    simp only [List.forall_mem_cons]
    exact ⟨hq, trivial, by simp⟩
  | @call f hapi =>
    exact ⟨h.inflight, h.posted, List.forall_mem_cons.mpr ⟨hkeeps.api hapi, h.stack⟩⟩
  | @invoke o op result rest hstack =>
    have hop := h.stack _ (hstack ▸ List.mem_cons_self)
    obtain ⟨hgrows, hcalls⟩ : Grows P Q s.state (comp.callback s.state op result).1 ∧
        ∀ c ∈ (comp.callback s.state op result).2, c.Holds _ _ := hkeeps.callback hop
    exact h.calls hstack hgrows hcalls
  | putRequest hstack =>
    exact ⟨h.inflight, h.posted, fun f hf => h.stack f (hstack ▸ List.mem_cons_of_mem _ hf)⟩
  | @code o f rest hstack =>
    have hf := h.stack _ (hstack ▸ List.mem_cons_self)
    obtain ⟨hgrows, hcalls⟩ := hkeeps.code hf
    exact h.calls hstack hgrows hcalls
  | @accepted o type fd op rest r m hstack hsubmit hinflight =>
    have hop := h.stack _ (hstack ▸ List.mem_cons_self)
    refine ⟨fun q hq => ?_, h.posted,
      fun f hf => h.stack f (hstack ▸ List.mem_cons_of_mem _ hf)⟩
    rw [hinflight] at hq
    obtain hq | hq := List.mem_append.mp hq
    · exact h.inflight q hq
    · rw [List.mem_singleton.mp hq]
      exact hop
  | @refused o type fd op rest error r m hstack hsubmit herror hinflight =>
    have hop := h.stack _ (hstack ▸ List.mem_cons_self)
    refine ⟨fun q hq => h.inflight q (hinflight ▸ hq), h.posted, fun f hf => ?_⟩
    obtain hf | hf := List.mem_append.mp hf
    · obtain rfl | hf := List.mem_cons.mp hf
      · exact hop
      · obtain hf | hf := List.mem_append.mp hf
        · obtain ⟨r', -, rfl⟩ := Option.map_eq_some_iff.mp (Option.mem_toList.mp hf)
          trivial
        · obtain ⟨g, hg, rfl⟩ := List.mem_map.mp (List.map_map ▸ hf)
          exact hkeeps.onFail hop hg
    · exact h.stack f (hstack ▸ List.mem_cons_of_mem _ hf)

end Loop

end Holds

end Lmnet.IoUring
