import Lmnet.IoUring.Tally
import Lmnet.Lib.Machine

/-!
An operation that its own completion submits again, for as long as its component
runs. It is one operation at every moment, until a result breaks the chain.
-/

set_option autoImplicit false

namespace Lmnet.IoUring

def Component.machine {κ φ σ : Type} (comp : Component κ φ σ) (init : Loop κ φ σ → Prop) :
    Machine (Loop κ φ σ) (LoopAct φ) where
  init := init
  step := fun s a => s.step comp a

/-- `op` marks the operation and `code` what leads from its completion to its
next submission; `breaks` are the results after which there is none although the
component runs on. -/
structure Chain {κ φ σ : Type} (comp : Component κ φ σ) where
  running : σ → Bool
  op : κ → Bool
  breaks : κ → Int → Bool
  code : φ → Bool

namespace Chain

variable {κ φ σ : Type} {comp : Component κ φ σ} (c : Chain comp)

def tally : Tally κ φ :=
  ⟨c.op, c.op, fun o _ => c.op o, fun o result => c.op o && !c.breaks o result, c.code⟩

/-- The component keeps the chain: while it runs on, what links the chain is
replaced by another link. -/
structure Lawful : Prop where
  kernel : ∀ {st o result st'}, comp.kernel st o result = some st' →
    c.running st' = c.running st
  callback : ∀ {st o result}, c.running (comp.callback st o result).1 = true →
    c.running st = true ∧
      c.tally.calls (comp.callback st o result).2 = (c.tally.invoke o result).toNat
  run : ∀ {st f}, c.running (comp.code st f).1 = true →
    c.running st = true ∧ c.tally.calls (comp.code st f).2 = (c.code f).toNat
  api : ∀ {f}, comp.api f = true → c.code f = false
  onFail : ∀ {o f}, f ∈ comp.onFail o → c.code f = false

def outstanding (s : Loop κ φ σ) : Nat :=
  s.manager.inflight.countP (fun q => c.op q.op) + s.cq.countP (fun p => c.op p.1.op)

/-- No completion that the worker takes breaks the chain, and no failure to
submit does. -/
def Continues (s : Loop κ φ σ) : LoopAct φ → Prop
  | .worker => ∀ q result rest, s.cq = (q, result) :: rest → c.op q.op = true →
      c.breaks q.op result = false
  | .frame o => ∀ type fd op rest m error r, s.stack = .call (.submit type fd op) :: rest →
      c.op op = true → s.manager.submitOperation type fd op o = (m, some (error, r)) →
      c.breaks op error = false
  | _ => True

structure Single (s : Loop κ φ σ) : Prop where
  sound : s.Sound
  count : c.running s.state = true → c.tally.count s ≤ 1

def Linked (s : Loop κ φ σ) : Prop := c.running s.state = true ∧ c.tally.count s = 1

theorem calls_onFail {c : Chain comp} (hc : c.Lawful) (o : κ) :
    c.tally.calls ((comp.onFail o).map .code) = 0 := by
  rw [Tally.calls, List.countP_map, List.countP_eq_zero]
  intro f hf
  simpa [Tally.call, tally] using hc.onFail hf

/-- One step of a component that still runs after it: the count stays, unless
the chain breaks. -/
theorem count_step {c : Chain comp} (hc : c.Lawful) {s s' : Loop κ φ σ} {a : LoopAct φ}
    (h : s.Sound) (ha : a.Succeeds) (hs : s.step comp a = some s')
    (hrun : c.running s'.state = true) :
    c.running s.state = true ∧
      ((c.Continues s a ∧ c.tally.count s' = c.tally.count s) ∨
        (¬ c.Continues s a ∧ c.tally.count s' + 1 = c.tally.count s)) := by
  obtain ⟨hmoves, -⟩ := Loop.step_moves h ha hs
  cases hmoves with
  | @kernel k result q st m hq hst hm =>
    subst hm
    have hcount := c.tally.count_kernel result st hq
    refine ⟨(hc.kernel hst) ▸ hrun, .inl ⟨trivial, ?_⟩⟩
    simp only [tally] at hcount ⊢
    omega
  | @worker q result rest hstack hcq =>
    have hcount := c.tally.count_worker hstack hcq
    refine ⟨hrun, ?_⟩
    by_cases hbreak : c.op q.op = true ∧ c.breaks q.op result = true
    · refine .inr ⟨fun hcont => ?_, ?_⟩
      · rw [hcont q result rest hcq hbreak.1] at hbreak
        exact absurd hbreak.2 Bool.false_ne_true
      · simp only [tally, hbreak, Bool.not_true, Bool.and_false, Bool.toNat_false,
          Bool.toNat_true] at hcount ⊢
        omega
    · refine .inl ⟨?_, ?_⟩
      · rintro q' result' rest' hcq' hop
        rw [hcq] at hcq'
        cases hcq'
        exact Bool.eq_false_iff.mpr fun hb => hbreak ⟨hop, hb⟩
      · have hsame : (c.op q.op && !c.breaks q.op result) = c.op q.op := by
          cases hop : c.op q.op
          · rfl
          · simpa [hop] using hbreak
        simp only [tally, hsame] at hcount ⊢
        omega
  | @call f hapi =>
    have hcount := c.tally.count_call (s := s) f
    have hcode : c.tally.code f = false := hc.api hapi
    rw [hcode] at hcount
    exact ⟨hrun, .inl ⟨trivial, hcount⟩⟩
  | @invoke o op result rest hstack =>
    obtain ⟨hrun', hcalls⟩ := hc.callback hrun
    have hcount := c.tally.count_invoke (comp.callback s.state op result).2
      (comp.callback s.state op result).1 hstack
    refine ⟨hrun', .inl ⟨?_, by omega⟩⟩
    rintro type fd op' rest' m error r hstack' - -
    rw [hstack] at hstack'
    cases hstack'
  | @putRequest o r rest hstack =>
    refine ⟨hrun, .inl ⟨?_, c.tally.count_putRequest hstack⟩⟩
    rintro type fd op' rest' m error r hstack' - -
    rw [hstack] at hstack'
    cases hstack'
  | @code o f rest hstack =>
    obtain ⟨hrun', hcalls⟩ := hc.run hrun
    have hcount := c.tally.count_code (comp.code s.state f).2 (comp.code s.state f).1 hstack
    have hcode : c.tally.code f = c.code f := rfl
    rw [hcode] at hcount
    refine ⟨hrun', .inl ⟨?_, by omega⟩⟩
    rintro type fd op' rest' m error r hstack' - -
    rw [hstack] at hstack'
    cases hstack'
  | @accepted o type fd op rest r m hstack hsubmit hinflight =>
    have hcount := c.tally.count_accepted hstack hinflight
    refine ⟨hrun, .inl ⟨?_, ?_⟩⟩
    · rintro type' fd' op' rest' m' error r' hstack' - hsubmit'
      rw [hstack] at hstack'
      cases hstack'
      rw [hsubmit] at hsubmit'
      cases hsubmit'
    · simp only [tally] at hcount ⊢
      omega
  | @refused o type fd op rest error r m hstack hsubmit herror hinflight =>
    have hcount := c.tally.count_refused comp error r hstack hinflight
    have hfail := calls_onFail hc op
    refine ⟨hrun, ?_⟩
    by_cases hbreak : c.op op = true ∧ c.breaks op error = true
    · refine .inr ⟨fun hcont => ?_, ?_⟩
      · rw [hcont _ _ _ _ _ _ _ hstack hbreak.1 hsubmit] at hbreak
        exact absurd hbreak.2 Bool.false_ne_true
      · simp only [tally, hbreak, Bool.not_true, Bool.and_false, Bool.toNat_false,
          Bool.toNat_true] at hcount hfail ⊢
        omega
    · refine .inl ⟨?_, ?_⟩
      · rintro type' fd' op' rest' m' error' r' hstack' hop hsubmit'
        rw [hstack] at hstack'
        cases hstack'
        rw [hsubmit] at hsubmit'
        cases hsubmit'
        exact Bool.eq_false_iff.mpr fun hb => hbreak ⟨hop, hb⟩
      · have hsame : (c.op op && !c.breaks op error) = c.op op := by
          cases hop : c.op op
          · rfl
          · simpa [hop] using hbreak
        simp only [tally, hsame] at hcount hfail ⊢
        omega

theorem Single.step {c : Chain comp} (hc : c.Lawful) {s s' : Loop κ φ σ} {a : LoopAct φ}
    (h : c.Single s) (ha : a.Succeeds) (hs : s.step comp a = some s') : c.Single s' := by
  refine ⟨(Loop.step_moves h.sound ha hs).2, fun hrun => ?_⟩
  obtain ⟨hrun', hcount⟩ := count_step hc h.sound ha hs hrun
  have hle := h.count hrun'
  omega

/-- A chain that is whole after a step was whole before it, and went on. -/
theorem Linked.of_step {c : Chain comp} (hc : c.Lawful) {s s' : Loop κ φ σ} {a : LoopAct φ}
    (h : c.Single s) (ha : a.Succeeds) (hs : s.step comp a = some s') (hlinked : c.Linked s') :
    c.Linked s ∧ c.Continues s a := by
  obtain ⟨hrun, hcount⟩ := count_step hc h.sound ha hs hlinked.1
  have hle := h.count hrun
  have hone := hlinked.2
  rcases hcount with ⟨hcont, hsame⟩ | ⟨-, hbroken⟩
  · exact ⟨⟨hrun, by omega⟩, hcont⟩
  · omega

theorem Linked.step {c : Chain comp} (hc : c.Lawful) {s s' : Loop κ φ σ} {a : LoopAct φ}
    (h : s.Sound) (ha : a.Succeeds) (hs : s.step comp a = some s')
    (hcont : c.Continues s a) (hlinked : c.running s.state = true → c.Linked s)
    (hrun : c.running s'.state = true) : c.Linked s' := by
  obtain ⟨hrun', hcount⟩ := count_step hc h ha hs hrun
  have hone := (hlinked hrun').2
  rcases hcount with ⟨-, hsame⟩ | ⟨hbroken, -⟩
  · exact ⟨hrun, by omega⟩
  · exact absurd hcont hbroken

/-- Over a run after which the component still runs: the chain is whole if and
only if nothing on the way broke it. -/
theorem linked_run_iff {c : Chain comp} (hc : c.Lawful) {init : Loop κ φ σ → Prop}
    {s t : Loop κ φ σ} {as : List (LoopAct φ)} (hs : c.Single s) (hlinked : c.Linked s)
    (hsubmit : ∀ a ∈ as, a.Succeeds) (h : (comp.machine init).run s as = some t)
    (hrun : c.running t.state = true) :
    c.Linked t ↔ (comp.machine init).Every (fun s a _ => c.Continues s a) s as := by
  constructor
  · intro hlinked
    exact ((comp.machine init).every_of_final (A := LoopAct.Succeeds) (I := c.Single)
      (fun _ _ _ ha hI hstep => hI.step hc ha hstep)
      (fun _ _ _ ha hI hstep hQ => hQ.of_step hc hI ha hstep) hsubmit hs h hlinked).2
  · intro hevery
    have hboth := (comp.machine init).every_and hsubmit hevery
    exact ((comp.machine init).run_invariant_of_every
      (I := fun s => c.Single s ∧ (c.running s.state = true → c.Linked s))
      (fun _ _ _ hI hstep hC => ⟨hI.1.step hc hC.1 hstep,
        Linked.step hc hI.1.sound hC.1 hstep hC.2 hI.2⟩)
      ⟨hs, fun _ => hlinked⟩ hboth h).2 hrun

theorem Single.run {c : Chain comp} (hc : c.Lawful) {init : Loop κ φ σ → Prop}
    {s t : Loop κ φ σ} {as : List (LoopAct φ)} (hs : c.Single s)
    (hsubmit : ∀ a ∈ as, a.Succeeds) (h : (comp.machine init).run s as = some t) :
    c.Single t :=
  (comp.machine init).run_invariant_of_every (I := c.Single)
    (fun _ _ _ hI hstep hC => hI.step hc hC hstep) hs
    (((comp.machine init).every_label h).mpr hsubmit) h

/-- Between two rounds of the loop only an operation can link the chain. -/
theorem linked_iff_outstanding {s : Loop κ φ σ} (hstack : s.stack = [])
    (hrun : c.running s.state = true) : c.Linked s ↔ c.outstanding s = 1 := by
  have hcount : c.tally.count s = c.outstanding s := by
    rw [Tally.count, hstack, List.countP_nil]
    rfl
  rw [Linked, hcount]
  exact ⟨fun h => h.2, fun h => ⟨hrun, h⟩⟩

/-- The first submission, once accepted, is the chain. -/
theorem linked_of_accepted {s : Loop κ φ σ} (hc : c.Lawful) (hsound : s.Sound)
    (hrun : c.running s.state = true) (hzero : c.tally.count s = 0) {type : RequestType} {fd : Fd}
    {op : κ} {o : RingOutcome} {m : Manager κ} (hop : c.op op = true)
    (hsub : s.manager.submitOperation type fd op o = (m, none)) :
    ({ s with manager := m } : Loop κ φ σ).Sound ∧ c.Linked { s with manager := m } := by
  let s₁ : Loop κ φ σ := { s with stack := .call (.submit type fd op) :: s.stack }
  have hsound₁ : s₁.Sound := hsound.frame fun r => by simp [Loop.Frame.puts]
  have hstep : s₁.step comp (.frame o) = some { s with manager := m } := by
    simp [s₁, Loop.step, Loop.frame, hsub]
  have ho : (LoopAct.frame o : LoopAct φ).Succeeds := Manager.succeeds_of_accepted hsub
  have hone : c.tally.count s₁ = 1 := by
    have hcount : c.tally.count s₁ = c.tally.count s + (c.op op).toNat := by
      simp only [s₁, Tally.count, List.countP_cons_toNat, Tally.frame, Tally.call_submit, tally]
      omega
    rw [hcount, hzero, hop]
    rfl
  have hcont : c.Continues s₁ (.frame o) := by
    rintro type' fd' op' rest m' error r hstack - hsub'
    cases hstack
    have hnone := hsub.symm.trans hsub'
    cases hnone
  exact ⟨(Loop.step_moves hsound₁ ho hstep).2,
    Linked.step hc hsound₁ ho hstep hcont (fun _ => ⟨hrun, hone⟩) hrun⟩

theorem single_of_linked {s : Loop κ φ σ} (hsound : s.Sound) (h : c.Linked s) : c.Single s :=
  ⟨hsound, fun _ => Nat.le_of_eq h.2⟩

end Chain

end Lmnet.IoUring
