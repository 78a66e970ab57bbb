import Lmnet.Lib.Machine

/-!
Goals that stay within reach: where a measure can be brought down one step at a time until
the goal is met, there is a run to the goal, and the measure bounds its length.
-/

set_option autoImplicit false

universe u v

namespace Machine

variable {σ : Type u} {α : Type v} (m : Machine σ α)

/-- `P` is what the steps that bring the measure down have in common. -/
theorem exists_run_of_progress {I G : σ → Prop} {P : σ → α → σ → Prop} (μ : σ → Nat)
    (hprogress : ∀ s, I s → ¬ G s → ∃ a s', m.step s a = some s' ∧ P s a s' ∧ I s' ∧ μ s' < μ s)
    {s : σ} (hs : I s) :
    ∃ as t, as.length ≤ μ s ∧ m.run s as = some t ∧ m.Every P s as ∧ I t ∧ G t := by
  induction hμ : μ s using Nat.strongRecOn generalizing s with
  | ind n ih =>
    subst hμ
    by_cases hG : G s
    · exact ⟨[], s, Nat.zero_le _, rfl, trivial, hs, hG⟩
    · obtain ⟨a, s', hstep, hP, hs', hlt⟩ := hprogress s hs hG
      obtain ⟨as, t, hlength, hrun, hevery, ht, hGt⟩ := ih (μ s') hlt hs' rfl
      refine ⟨a :: as, t, ?_, ?_, (m.every_cons hstep).mpr ⟨hP, hevery⟩, ht, hGt⟩
      · rw [List.length_cons]
        omega
      · exact m.run_cons.mpr ⟨s', hstep, hrun⟩

end Machine
