import Mathlib.Data.List.Basic

/-!
Labelled machines and their finite runs. A label carries every choice of the
environment, so one step is a partial function and a run can be evaluated.
-/

set_option autoImplicit false

universe u v w

/-- A machine has a set of starting states and a partial step; `none` says that
the label is not enabled. -/
structure Machine (σ : Type u) (α : Type v) where
  init : σ → Prop
  step : σ → α → Option σ

namespace Machine

variable {σ : Type u} {α : Type v} {τ : Type w} (m : Machine σ α)

def run : σ → List α → Option σ
  | s, [] => some s
  | s, a :: as => (m.step s a).bind fun s' => run s' as

@[simp] theorem run_nil (s : σ) : m.run s [] = some s := rfl

theorem run_cons {s t : σ} {a : α} {as : List α} :
    m.run s (a :: as) = some t ↔ ∃ s', m.step s a = some s' ∧ m.run s' as = some t := by
  simp [run, Option.bind_eq_some_iff]

theorem run_append {s t : σ} {as bs : List α} :
    m.run s (as ++ bs) = some t ↔ ∃ s', m.run s as = some s' ∧ m.run s' bs = some t := by
  induction as generalizing s with
  | nil => simp
  | cons a as ih =>
    simp only [List.cons_append, run_cons, ih]
    constructor
    · rintro ⟨s₁, hs, s₂, has, hbs⟩
      exact ⟨s₂, ⟨s₁, hs, has⟩, hbs⟩
    · rintro ⟨s₂, ⟨s₁, hs, has⟩, hbs⟩
      exact ⟨s₁, hs, s₂, has, hbs⟩

theorem run_invariant {I : σ → Prop}
    (hstep : ∀ s a s', I s → m.step s a = some s' → I s')
    {s t : σ} {as : List α} (hs : I s) (h : m.run s as = some t) : I t := by
  induction as generalizing s with
  | nil =>
    cases h
    exact hs
  | cons a as ih =>
    obtain ⟨s', ha, has⟩ := m.run_cons.mp h
    exact ih (hstep s a s' hs ha) has

/-- `Every P s as`: each transition taken along `as` from `s` satisfies `P`. -/
def Every (P : σ → α → σ → Prop) : σ → List α → Prop
  | _, [] => True
  | s, a :: as => ∀ s', m.step s a = some s' → P s a s' ∧ Every P s' as

@[simp] theorem every_nil (P : σ → α → σ → Prop) (s : σ) : m.Every P s [] := trivial

theorem every_cons {P : σ → α → σ → Prop} {s s' : σ} {a : α} {as : List α}
    (h : m.step s a = some s') : m.Every P s (a :: as) ↔ P s a s' ∧ m.Every P s' as := by
  simp [Every, h]

theorem every_at {P : σ → α → σ → Prop} {s u t : σ} {a : α} {as bs : List α}
    (hrun : m.run s as = some u) (hstep : m.step u a = some t)
    (h : m.Every P s (as ++ a :: bs)) : P u a t := by
  induction as generalizing s with
  | nil =>
    cases hrun
    exact (h t hstep).1
  | cons b as ih =>
    obtain ⟨s', hb, has⟩ := m.run_cons.mp hrun
    exact ih has (h s' hb).2

theorem every_append {P : σ → α → σ → Prop} {s : σ} {as bs : List α} :
    m.Every P s (as ++ bs) ↔ m.Every P s as ∧ ∀ t, m.run s as = some t → m.Every P t bs := by
  induction as generalizing s with
  | nil => simp
  | cons a as ih =>
    simp only [List.cons_append, Every, ih, run_cons]
    constructor
    · intro h
      refine ⟨fun s' ha => ⟨(h s' ha).1, (h s' ha).2.1⟩, ?_⟩
      rintro t ⟨s', ha, has⟩
      exact (h s' ha).2.2 t has
    · intro h s' ha
      exact ⟨(h.1 s' ha).1, (h.1 s' ha).2, fun t has => h.2 t ⟨s', ha, has⟩⟩

theorem every_of_mem {P : σ → α → σ → Prop} {s : σ} {as : List α}
    (h : ∀ a ∈ as, ∀ s s', P s a s') : m.Every P s as := by
  induction as generalizing s with
  | nil => trivial
  | cons a as ih =>
    exact fun s' _ => ⟨h a List.mem_cons_self s s', ih fun b hb => h b (List.mem_cons_of_mem a hb)⟩

/-- Along a run that goes through, a property of the labels holds of each of them. -/
theorem every_label {C : α → Prop} {s t : σ} {as : List α} (h : m.run s as = some t) :
    m.Every (fun _ a _ => C a) s as ↔ ∀ a ∈ as, C a := by
  induction as generalizing s with
  | nil => simp
  | cons a as ih =>
    obtain ⟨s', ha, has⟩ := m.run_cons.mp h
    rw [m.every_cons ha, ih has, List.forall_mem_cons]

/-- `Every` for a property of labels and states that can be evaluated. -/
def check (C : σ → α → Prop) [∀ s a, Decidable (C s a)] : σ → List α → Bool
  | _, [] => true
  | s, a :: as => decide (C s a) && (m.step s a).all fun s' => check C s' as

theorem every_of_check {C : σ → α → Prop} [∀ s a, Decidable (C s a)] {s : σ} {as : List α}
    (h : m.check C s as = true) : m.Every (fun s a _ => C s a) s as := by
  induction as generalizing s with
  | nil => trivial
  | cons a as ih =>
    intro s' ha
    simp only [check, ha, Option.all_some, Bool.and_eq_true, decide_eq_true_eq] at h
    exact ⟨h.1, ih h.2⟩

theorem every_and {P : σ → α → σ → Prop} {Q : α → Prop} {s : σ} {as : List α}
    (hQ : ∀ a ∈ as, Q a) (hP : m.Every P s as) :
    m.Every (fun s a s' => Q a ∧ P s a s') s as := by
  induction as generalizing s with
  | nil => trivial
  | cons a as ih =>
    intro s' ha
    obtain ⟨hp, hrest⟩ := hP s' ha
    exact ⟨⟨hQ a List.mem_cons_self, hp⟩, ih (fun b hb => hQ b (List.mem_cons_of_mem a hb)) hrest⟩

theorem every_congr {P Q : σ → α → σ → Prop} {A : α → Prop}
    (h : ∀ s a s', A a → (P s a s' ↔ Q s a s')) {s : σ} {as : List α} (hA : ∀ a ∈ as, A a) :
    m.Every P s as ↔ m.Every Q s as := by
  induction as generalizing s with
  | nil => exact Iff.rfl
  | cons a as ih =>
    have hhead := h s a
    have htail := fun s' => ih (s := s') fun b hb => hA b (List.mem_cons_of_mem a hb)
    simp only [Every, htail, h s a _ (hA a List.mem_cons_self)]

/-- An invariant that a transition keeps whenever it meets `C`, and under which
`C` yields `P`, turns a run of `C`-steps into a run of `P`-steps. -/
theorem every_of_every {I : σ → Prop} {C P : σ → α → σ → Prop}
    (hkeep : ∀ s a s', I s → m.step s a = some s' → C s a s' → I s' ∧ P s a s')
    {s : σ} {as : List α} (hs : I s) (hC : m.Every C s as) : m.Every P s as := by
  induction as generalizing s with
  | nil => trivial
  | cons a as ih =>
    intro s' ha
    obtain ⟨hc, hrest⟩ := hC s' ha
    obtain ⟨hs', hp⟩ := hkeep s a s' hs ha hc
    exact ⟨hp, ih hs' hrest⟩

/-- What each transition gives under an invariant holds of every transition of a run. -/
theorem every_of_invariant {I : σ → Prop} {P : σ → α → σ → Prop}
    (hkeep : ∀ s a s', I s → m.step s a = some s' → I s' ∧ P s a s')
    {s : σ} {as : List α} (hs : I s) : m.Every P s as := by
  induction as generalizing s with
  | nil => trivial
  | cons a as ih =>
    intro s' ha
    obtain ⟨hs', hp⟩ := hkeep s a s' hs ha
    exact ⟨hp, ih hs'⟩

/-- Two step properties that agree under an invariant kept by either of them
hold along the same runs. -/
theorem every_iff_every {I : σ → Prop} {C P : σ → α → σ → Prop}
    (hkeep : ∀ s a s', I s → m.step s a = some s' → C s a s' → I s' ∧ P s a s')
    (hback : ∀ s a s', I s → m.step s a = some s' → P s a s' → C s a s')
    {s : σ} {as : List α} (hs : I s) : m.Every P s as ↔ m.Every C s as := by
  refine ⟨fun hP => ?_, m.every_of_every hkeep hs⟩
  refine m.every_of_every (I := I) (fun s a s' h ha hp => ?_) hs hP
  have hc := hback s a s' h ha hp
  exact ⟨(hkeep s a s' h ha hc).1, hc⟩

/-- A property of the last state that each transition hands back to the state
before it, together with `C`, held all along the run. -/
theorem every_of_final {A : α → Prop} {I Q : σ → Prop} {C : σ → α → σ → Prop}
    (hkeep : ∀ s a s', A a → I s → m.step s a = some s' → I s')
    (hback : ∀ s a s', A a → I s → m.step s a = some s' → Q s' → Q s ∧ C s a s')
    {s t : σ} {as : List α} (hA : ∀ a ∈ as, A a) (hs : I s) (h : m.run s as = some t)
    (hQ : Q t) : Q s ∧ m.Every C s as := by
  induction as generalizing s with
  | nil =>
    cases h
    exact ⟨hQ, trivial⟩
  | cons a as ih =>
    obtain ⟨s', ha, has⟩ := m.run_cons.mp h
    have hAa := hA a List.mem_cons_self
    have hAs := fun b hb => hA b (List.mem_cons_of_mem a hb)
    obtain ⟨hQ', hrest⟩ := ih hAs (hkeep s a s' hAa hs ha) has
    obtain ⟨hq, hc⟩ := hback s a s' hAa hs ha hQ'
    exact ⟨hq, (m.every_cons ha).mpr ⟨hc, hrest⟩⟩

/-- A property that a transition leaves standing just when it meets `C` holds at the end of
a run just when it held at the start and `C` all along. -/
theorem final_iff_every {I Q : σ → Prop} {C : σ → α → σ → Prop}
    (hkeep : ∀ s a s', I s → m.step s a = some s' → I s')
    (hiff : ∀ s a s', I s → m.step s a = some s' → (Q s' ↔ Q s ∧ C s a s'))
    {s t : σ} {as : List α} (hs : I s) (h : m.run s as = some t) :
    Q t ↔ Q s ∧ m.Every C s as := by
  induction as generalizing s with
  | nil =>
    cases h
    simp
  | cons a as ih =>
    obtain ⟨s', ha, has⟩ := m.run_cons.mp h
    rw [ih (hkeep s a s' hs ha) has, hiff s a s' hs ha, m.every_cons ha, and_assoc]

/-- The state at the end of a run whose steps all meet `C` satisfies the
invariant that `C`-steps keep. -/
theorem run_invariant_of_every {I : σ → Prop} {C : σ → α → σ → Prop}
    (hkeep : ∀ s a s', I s → m.step s a = some s' → C s a s' → I s')
    {s t : σ} {as : List α} (hs : I s) (hC : m.Every C s as)
    (h : m.run s as = some t) : I t := by
  induction as generalizing s with
  | nil =>
    cases h
    exact hs
  | cons a as ih =>
    obtain ⟨s', ha, has⟩ := m.run_cons.mp h
    obtain ⟨hc, hrest⟩ := hC s' ha
    exact ih (hkeep s a s' hs ha hc) hrest has

/-- A map of states under which every step of `m` is the run of `n` that `lab`
names for its label carries whole runs over. -/
theorem run_simulation {β : Type*} (n : Machine τ β) {I : σ → Prop} (abs : σ → τ)
    (lab : α → List β)
    (hstep : ∀ s a s', I s → m.step s a = some s' →
      I s' ∧ n.run (abs s) (lab a) = some (abs s'))
    {s t : σ} {as : List α} (hs : I s) (h : m.run s as = some t) :
    n.run (abs s) (as.flatMap lab) = some (abs t) := by
  induction as generalizing s with
  | nil =>
    cases h
    rfl
  | cons a as ih =>
    obtain ⟨s', ha, has⟩ := m.run_cons.mp h
    obtain ⟨hs', hlab⟩ := hstep s a s' hs ha
    exact n.run_append.mpr ⟨_, hlab, ih hs' has⟩

/-- A relation under which every step of `m` is matched by some run of `n` matches whole runs. -/
theorem run_matched {β : Type*} (n : Machine τ β) {R : σ → τ → Prop}
    (hstep : ∀ s a s' t, R s t → m.step s a = some s' → ∃ bs t', n.run t bs = some t' ∧ R s' t')
    {s s' : σ} {t : τ} {as : List α} (hR : R s t) (h : m.run s as = some s') :
    ∃ bs t', n.run t bs = some t' ∧ R s' t' := by
  induction as generalizing s t with
  | nil =>
    cases h
    exact ⟨[], t, rfl, hR⟩
  | cons a as ih =>
    obtain ⟨s₁, ha, has⟩ := m.run_cons.mp h
    obtain ⟨bs, t₁, hbs, hR₁⟩ := hstep s a s₁ t hR ha
    obtain ⟨cs, t₂, hcs, hR₂⟩ := ih hR₁ has
    exact ⟨bs ++ cs, t₂, n.run_append.mpr ⟨t₁, hbs, hcs⟩, hR₂⟩

end Machine
