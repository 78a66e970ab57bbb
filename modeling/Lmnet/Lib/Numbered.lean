import Mathlib.Data.List.Basic

/-!
A stream put together from numbered pieces, in which each element knows the piece it
comes from: equality with the concatenation then says that no piece is inside another.
-/

set_option autoImplicit false

namespace Numbered

variable {α : Type*}

def mark (i : Nat) (xs : List α) : List (Nat × α) := xs.map fun x => (i, x)

def line : Nat → List (List α) → List (Nat × α)
  | _, [] => []
  | i, xs :: xss => mark i xs ++ line (i + 1) xss

@[simp] theorem mark_nil (i : Nat) : mark i ([] : List α) = [] := rfl

@[simp] theorem mark_append (i : Nat) (xs ys : List α) :
    mark i (xs ++ ys) = mark i xs ++ mark i ys := by simp [mark]

@[simp] theorem length_mark (i : Nat) (xs : List α) : (mark i xs).length = xs.length := by
  simp [mark]

theorem fst_of_mem_mark {i : Nat} {xs : List α} {x : Nat × α} (h : x ∈ mark i xs) : x.1 = i := by
  obtain ⟨a, -, rfl⟩ := List.mem_map.mp h
  rfl

theorem mark_take_drop (i n : Nat) (xs : List α) :
    mark i (xs.take n) ++ mark i (xs.drop n) = mark i xs := by
  rw [← mark_append, List.take_append_drop]

theorem line_append (i : Nat) (xss yss : List (List α)) :
    line i (xss ++ yss) = line i xss ++ line (i + xss.length) yss := by
  induction xss generalizing i with
  | nil => rfl
  | cons xs xss ih =>
    have hlen : i + 1 + xss.length = i + (xss.length + 1) := by omega
    simp [line, ih, hlen]

theorem line_concat (xss : List (List α)) (xs : List α) :
    line 0 (xss ++ [xs]) = line 0 xss ++ mark xss.length xs := by
  simp [line_append, line]

theorem le_fst_of_mem_line {i : Nat} {xss : List (List α)} {x : Nat × α} (h : x ∈ line i xss) :
    i ≤ x.1 := by
  induction xss generalizing i with
  | nil => simp [line] at h
  | cons xs xss ih =>
    rcases List.mem_append.mp h with h | h
    · exact Nat.le_of_eq (fst_of_mem_mark h).symm
    · have hle := ih h
      omega

theorem line_sorted (i : Nat) (xss : List (List α)) :
    (line i xss).Pairwise fun x y => x.1 ≤ y.1 := by
  induction xss generalizing i with
  | nil => exact .nil
  | cons xs xss ih =>
    refine List.pairwise_append.mpr ⟨?_, ih (i + 1), fun x hx y hy => ?_⟩
    · refine List.pairwise_of_forall_mem_list fun x hx y hy => ?_
      have hsame : x.1 = y.1 := by rw [fst_of_mem_mark hx, fst_of_mem_mark hy]
      exact Nat.le_of_eq hsame
    · have hle := le_fst_of_mem_line hy
      rw [fst_of_mem_mark hx]
      omega

theorem eq_of_between {xss : List (List α)} {l m r : List (Nat × α)} {x y z : Nat × α}
    (h : l ++ m ++ r = line 0 xss) (hx : x ∈ l) (hy : y ∈ m) (hz : z ∈ r) (hxz : x.1 = z.1) :
    y.1 = x.1 := by
  have hsorted := line_sorted 0 xss
  rw [← h] at hsorted
  obtain ⟨hlm, -, hr⟩ := List.pairwise_append.mp hsorted
  have hxy := (List.pairwise_append.mp hlm).2.2 x hx y hy
  have hyz := hr y (List.mem_append_right l hy) z hz
  omega

end Numbered
