import Mathlib.Data.List.Basic
import Mathlib.Order.Lattice
import Mathlib.Tactic.Tauto

/-!
Stretches: the members of a list that are reached from one of them by going to the next
value again and again without leaving the list. What is left when a stretch is taken out.
-/

set_option autoImplicit false

universe u v

/-- From `a` to `b` through members of `ks`, both included. -/
inductive Stretch {κ : Type u} (next : κ → κ) (ks : List κ) : κ → κ → Prop
  | here {a : κ} (h : a ∈ ks) : Stretch next ks a a
  | next {a b : κ} (h : a ∈ ks) (rest : Stretch next ks (next a) b) : Stretch next ks a b

namespace Stretch

variable {κ : Type u} {next : κ → κ} {ks ls : List κ} {a b c n : κ}

theorem mem_left (h : Stretch next ks a b) : a ∈ ks := by
  cases h with
  | here h => exact h
  | next h => exact h

theorem trans (h : Stretch next ks a b) (h' : Stretch next ks b c) : Stretch next ks a c := by
  induction h with
  | here => exact h'
  | next hmem _ ih => exact .next hmem (ih h')

theorem mono (h : Stretch next ks a b) (hsub : ks ⊆ ls) : Stretch next ls a b := by
  induction h with
  | here h => exact .here (hsub h)
  | next h _ ih => exact .next (hsub h) ih

theorem of_forall (h : Stretch next ks a b)
    (hmem : ∀ i, Stretch next ks i b → i ∈ ls) : Stretch next ls a b := by
  induction h with
  | here h => exact .here (hmem _ (.here h))
  | next h rest ih => exact .next (hmem _ (.next h rest)) (ih hmem)

section Erase

variable [DecidableEq κ]

theorem erase (h : Stretch next ks a b) (hb : b ≠ n) :
    Stretch next (ks.filter fun k => decide (k ≠ n)) a b ∨
      Stretch next (ks.filter fun k => decide (k ≠ n)) (next n) b := by
  induction h with
  | here h => exact .inl (.here (List.mem_filter.mpr ⟨h, decide_eq_true hb⟩))
  | @next a b h rest ih =>
    refine (ih hb).elim (fun hrest => ?_) .inr
    by_cases ha : a = n
    · subst ha
      exact .inr hrest
    · exact .inl (.next (List.mem_filter.mpr ⟨h, decide_eq_true ha⟩) hrest)

theorem iff_erase : Stretch next ks n b ↔
    n ∈ ks ∧ (b = n ∨ Stretch next (ks.filter fun k => decide (k ≠ n)) (next n) b) := by
  constructor
  · intro h
    refine ⟨h.mem_left, ?_⟩
    by_cases hb : b = n
    · exact .inl hb
    · refine .inr ((h.erase hb).elim (fun h' => ?_) id)
      have hn := (List.mem_filter.mp h'.mem_left).2
      simp at hn
  · rintro ⟨hn, rfl | h⟩
    · exact .here hn
    · exact .next hn (h.mono (List.filter_subset_self ks))

def find (next : κ → κ) : Nat → List κ → κ → κ → Bool
  | 0, _, _, _ => false
  | fuel + 1, ks, a, b =>
      decide (a ∈ ks) &&
        (decide (b = a) || find next fuel (ks.filter fun k => decide (k ≠ a)) (next a) b)

theorem find_iff {fuel : Nat} (hfuel : ks.length ≤ fuel) :
    find next fuel ks a b = true ↔ Stretch next ks a b := by
  induction fuel generalizing ks a with
  | zero =>
    obtain rfl := List.length_eq_zero_iff.mp (Nat.le_zero.mp hfuel)
    simp only [find, Bool.false_eq_true, false_iff]
    exact fun h => List.not_mem_nil h.mem_left
  | succ fuel ih =>
    rw [find, iff_erase, Bool.and_eq_true, Bool.or_eq_true, decide_eq_true_iff,
      decide_eq_true_iff]
    refine and_congr_right fun ha => or_congr_right (ih ?_)
    have hlt := List.length_filter_lt_length_iff_exists
      (p := fun k => decide (k ≠ a)) (l := ks) |>.mpr ⟨a, ha, by simp⟩
    omega

instance decidable (next : κ → κ) (ks : List κ) (a b : κ) : Decidable (Stretch next ks a b) :=
  decidable_of_iff _ (find_iff (Nat.le_refl ks.length))

end Erase

section Order

variable [LinearOrder κ]

/-- In an order in which nothing lies between a value and the next, whatever lies between
two members of a stretch is one. -/
theorem between (hnext : ∀ a b : κ, a < b → next a ≤ b) (h : Stretch next ks a b) (hac : a ≤ c)
    (hcb : c ≤ b) : Stretch next ks a c ∧ Stretch next ks c b := by
  induction h with
  | here h =>
    obtain rfl := le_antisymm hac hcb
    exact ⟨.here h, .here h⟩
  | @next a b h rest ih =>
    rcases hac.eq_or_lt with rfl | hlt
    · exact ⟨.here h, .next h rest⟩
    · obtain ⟨h₁, h₂⟩ := ih (hnext a c hlt) hcb
      exact ⟨.next h h₁, h₂⟩

end Order

end Stretch

section Leave

variable {κ : Type u} {ν : Type v} [LinearOrder κ] {next : κ → κ} {es : List (κ × ν)} {n : κ}
  {e : κ × ν}

/-- The entries left when the stretch from `n` on is taken out. -/
def leave (next : κ → κ) (es : List (κ × ν)) (n : κ) : List (κ × ν) :=
  es.filter fun e => decide (¬ Stretch next (es.map Prod.fst) n e.1)

/-- The entries from the beginning of the stretch on that `k` belongs to. -/
def fromStretch (next : κ → κ) (es : List (κ × ν)) (k : κ) : List (κ × ν) :=
  es.filter fun e => decide (k ≤ e.1 ∨ Stretch next (es.map Prod.fst) e.1 k)

theorem mem_leave : e ∈ leave next es n ↔ e ∈ es ∧ ¬ Stretch next (es.map Prod.fst) n e.1 := by
  rw [leave, List.mem_filter, decide_eq_true_iff]

theorem leave_eq_self (h : n ∉ es.map Prod.fst) : leave next es n = es :=
  List.filter_eq_self.mpr fun _ _ => decide_eq_true fun hstretch => h hstretch.mem_left

theorem leave_erase (h : n ∈ es.map Prod.fst) :
    leave next (es.filter fun e => decide (e.1 ≠ n)) (next n) = leave next es n := by
  have hkeys : (es.filter fun e => decide (e.1 ≠ n)).map Prod.fst =
      (es.map Prod.fst).filter fun k => decide (k ≠ n) := by
    rw [List.filter_map]
    rfl
  rw [leave, leave, List.filter_filter, hkeys]
  refine List.filter_congr fun e he => ?_
  have hstretch : Stretch next (es.map Prod.fst) n e.1 ↔ _ := Stretch.iff_erase
  rw [← Bool.decide_and, decide_eq_decide, hstretch]
  tauto

theorem leave_sublist : (leave next es n).Sublist es := List.filter_sublist

theorem fromStretch_of_stretch (hnext : ∀ a b : κ, a < b → next a ≤ b)
    (hmin : ∀ e ∈ es, n ≤ e.1) {k : κ} (h : Stretch next (es.map Prod.fst) n k) :
    fromStretch next es k = es := by
  refine List.filter_eq_self.mpr fun e he => decide_eq_true ?_
  rcases le_or_gt k e.1 with hle | hlt
  · exact .inl hle
  · exact .inr (h.between hnext (hmin e he) hlt.le).2

theorem fromStretch_leave (hnext : ∀ a b : κ, a < b → next a ≤ b) (hmin : ∀ e ∈ es, n ≤ e.1)
    {k : κ} (hk : k ∈ es.map Prod.fst) (h : ¬ Stretch next (es.map Prod.fst) n k) :
    fromStretch next (leave next es n) k = fromStretch next es k := by
  have hle : n ≤ k := by
    obtain ⟨e, he, rfl⟩ := List.mem_map.mp hk
    exact hmin e he
  have hsub : (leave next es n).map Prod.fst ⊆ es.map Prod.fst :=
    (leave_sublist.map Prod.fst).subset
  rw [fromStretch, fromStretch]
  conv_lhs => rw [leave]
  rw [List.filter_filter]
  refine List.filter_congr fun e he => ?_
  rw [← Bool.decide_and, decide_eq_decide]
  constructor
  · rintro ⟨hafter | hstretch, -⟩
    · exact .inl hafter
    · exact .inr (hstretch.mono hsub)
  · intro hor
    have hout : ¬ Stretch next (es.map Prod.fst) n e.1 := by
      intro hin
      rcases hor with hafter | hstretch
      · exact h (hin.between hnext hle hafter).1
      · exact h (hin.trans hstretch)
    refine ⟨hor.imp_right fun hstretch => hstretch.of_forall fun i hi => ?_, hout⟩
    obtain ⟨e', he', rfl⟩ := List.mem_map.mp hi.mem_left
    exact List.mem_map_of_mem (mem_leave.mpr ⟨he', fun hin => h (hin.trans hi)⟩)

end Leave
