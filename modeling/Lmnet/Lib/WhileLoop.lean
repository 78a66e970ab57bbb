import Mathlib.Init

/-!
Loops whose body either takes the state a round further or finds nothing more to do, and
the bound on the rounds under which a loop with a bound does the same.
-/

set_option autoImplicit false

universe u

/-- The loop with this body goes from the first state to the second and stops there. -/
inductive WhileLoop {σ : Type u} (body : σ → Option σ) : σ → σ → Prop
  | done {s : σ} (h : body s = none) : WhileLoop body s s
  | round {s s' t : σ} (h : body s = some s') (rest : WhileLoop body s' t) : WhileLoop body s t

namespace WhileLoop

variable {σ : Type u} {body : σ → Option σ} {s t : σ}

def iterate (body : σ → Option σ) : Nat → σ → σ
  | 0, s => s
  | fuel + 1, s =>
      match body s with
      | none => s
      | some s' => iterate body fuel s'

theorem iterate_succ (fuel : Nat) (s : σ) :
    iterate body (fuel + 1) s = ((body s).map (iterate body fuel)).getD s := by
  rw [iterate]
  cases body s <;> rfl

theorem exit (h : WhileLoop body s t) : body t = none := by
  induction h with
  | done h => exact h
  | round _ _ ih => exact ih

theorem unique {u : σ} (h : WhileLoop body s t) (h' : WhileLoop body s u) : t = u := by
  induction h with
  | done hnone =>
    cases h' with
    | done => rfl
    | round hsome => cases hnone.symm.trans hsome
  | round hsome _ ih =>
    cases h' with
    | done hnone => cases hnone.symm.trans hsome
    | round hsome' rest =>
      cases hsome.symm.trans hsome'
      exact ih rest

/-- What every round keeps, the loop keeps. -/
theorem keeps {P : σ → Prop} (hround : ∀ s s', P s → body s = some s' → P s')
    (h : WhileLoop body s t) (hs : P s) : P t := by
  induction h with
  | done => exact hs
  | round hsome _ ih => exact ih (hround _ _ hs hsome)

theorem measure_le (μ : σ → Nat) (hround : ∀ s s', body s = some s' → μ s' < μ s)
    (h : WhileLoop body s t) : μ t ≤ μ s := by
  induction h with
  | done => exact Nat.le_refl _
  | round hsome _ ih => exact Nat.le_of_lt (Nat.lt_of_le_of_lt ih (hround _ _ hsome))

theorem measure_lt (μ : σ → Nat) (hround : ∀ s s', body s = some s' → μ s' < μ s)
    (h : WhileLoop body s t) (hgo : body s ≠ none) : μ t < μ s := by
  cases h with
  | done hnone => exact absurd hnone hgo
  | round hsome rest => exact Nat.lt_of_le_of_lt (measure_le μ hround rest) (hround _ _ hsome)

/-- A loop each round of which makes a measure smaller stops, and a bound of that many
rounds does not change where. -/
theorem of_measure (μ : σ → Nat) (hround : ∀ s s', body s = some s' → μ s' < μ s) {fuel : Nat}
    (hfuel : μ s ≤ fuel) : WhileLoop body s (iterate body fuel s) := by
  induction fuel generalizing s with
  | zero =>
    refine .done (Option.eq_none_iff_forall_ne_some.mpr fun s' hs' => ?_)
    have hlt := hround s s' hs'
    omega
  | succ fuel ih =>
    rw [iterate_succ]
    cases hbody : body s with
    | none => exact .done hbody
    | some s' =>
      have hlt := hround s s' hbody
      exact .round hbody (ih (by omega))

end WhileLoop
