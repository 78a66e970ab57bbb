import Mathlib.Data.List.Basic

set_option autoImplicit false

namespace List

variable {α : Type*} {p : α → Bool} {l : List α} {i : Nat} {a b : α}

theorem getElem?_singleton_eq_some (h : [a][i]? = some b) : i = 0 ∧ b = a := by
  rw [List.getElem?_singleton] at h
  split at h
  · rename_i hi
    exact ⟨hi, by simpa using h.symm⟩
  · cases h

theorem getElem?_concat_some (h : (l ++ [a])[i]? = some b) :
    l[i]? = some b ∨ (i = l.length ∧ b = a) := by
  rw [List.getElem?_append] at h
  split at h
  · exact .inl h
  · rename_i hlt
    obtain ⟨hi, hb⟩ := getElem?_singleton_eq_some h
    exact .inr ⟨by omega, hb⟩

theorem getElem?_set_some {j : Nat} (h : (l.set i a)[j]? = some b) :
    (i = j ∧ b = a) ∨ (i ≠ j ∧ l[j]? = some b) := by
  by_cases hij : i = j
  · subst hij
    rw [List.getElem?_set] at h
    simp only [if_true] at h
    split at h
    · exact .inl ⟨rfl, by simpa using h.symm⟩
    · cases h
  · rw [List.getElem?_set_ne hij] at h
    exact .inr ⟨hij, h⟩

theorem modify_concat_length (f : α → α) : (l ++ [a]).modify l.length f = l ++ [f a] := by
  induction l with
  | nil => rfl
  | cons x l ih => simpa [List.modify_cons] using ih

theorem exists_eraseIdx (h : l[i]? = some a) :
    ∃ front back, l = front ++ a :: back ∧ l.eraseIdx i = front ++ back := by
  obtain ⟨hi, rfl⟩ := List.getElem?_eq_some_iff.mp h
  refine ⟨l.take i, l.drop (i + 1), ?_, List.eraseIdx_eq_take_drop_succ l i⟩
  rw [List.getElem_cons_drop, List.take_append_drop]

theorem eq_or_mem_eraseIdx (h : l[i]? = some a) (hb : b ∈ l) : b = a ∨ b ∈ l.eraseIdx i := by
  obtain ⟨front, back, hl, herased⟩ := exists_eraseIdx h
  rw [herased]
  rw [hl] at hb
  obtain hb | hb := List.mem_append.mp hb
  · exact .inr (List.mem_append_left back hb)
  · exact (List.mem_cons.mp hb).imp_right (List.mem_append_right front)

theorem countP_cons_toNat : (a :: l).countP p = l.countP p + (p a).toNat := by
  rw [List.countP_cons]
  cases p a <;> rfl

theorem countP_set_add (h : l[i]? = some b) :
    (l.set i a).countP p + (p b).toNat = l.countP p + (p a).toNat := by
  obtain ⟨hi, rfl⟩ := List.getElem?_eq_some_iff.mp h
  rw [List.countP_set hi]
  by_cases hp : p l[i] = true
  · have hpos : 0 < l.countP p := List.countP_pos_iff.mpr ⟨_, List.getElem_mem hi, hp⟩
    cases p a <;> simp [hp] <;> omega
  · cases p a <;> simp [hp]

theorem countP_eraseIdx_add (h : l[i]? = some b) :
    (l.eraseIdx i).countP p + (p b).toNat = l.countP p := by
  induction l generalizing i with
  | nil => simp at h
  | cons x xs ih =>
    cases i with
    | zero =>
      simp only [List.getElem?_cons_zero, Option.some.injEq] at h
      subst h
      cases hp : p x <;> simp [hp]
    | succ i =>
      have hi := ih (by simpa using h)
      simp only [List.eraseIdx_cons_succ, List.countP_cons]
      omega

theorem countP_pos_of_getElem? (h : l[i]? = some b) (hp : p b = true) : 0 < l.countP p :=
  List.countP_pos_iff.mpr ⟨b, List.mem_of_getElem? h, hp⟩

theorem two_le_countP {j : Nat} (hi : l[i]? = some a) (hj : l[j]? = some b) (hne : j ≠ i)
    (ha : p a = true) (hb : p b = true) : 2 ≤ l.countP p := by
  have herase := countP_eraseIdx_add (p := p) hi
  have hmem : b ∈ l.eraseIdx i := List.mem_eraseIdx_iff_getElem?.mpr ⟨j, hne, hj⟩
  have hpos : 0 < (l.eraseIdx i).countP p := List.countP_pos_iff.mpr ⟨b, hmem, hb⟩
  simp only [ha, Bool.toNat_true] at herase
  omega

section FilterMap

variable {β : Type*} {f : α → Option β} {q : β → Bool}

theorem countP_toList_toNat (o : Option β) : o.toList.countP q = ((o.map q).getD false).toNat := by
  cases o with
  | none => rfl
  | some b => cases h : q b <;> simp [h]

theorem countP_filterMap_set_add (h : l[i]? = some b) :
    ((l.set i a).filterMap f).countP q + (f b).toList.countP q =
      (l.filterMap f).countP q + (f a).toList.countP q := by
  rw [List.countP_filterMap, List.countP_filterMap, countP_toList_toNat, countP_toList_toNat]
  exact countP_set_add (p := fun x => ((f x).map q).getD false) h

theorem countP_filterMap_eraseIdx_add (h : l[i]? = some b) :
    ((l.eraseIdx i).filterMap f).countP q + (f b).toList.countP q =
      (l.filterMap f).countP q := by
  rw [List.countP_filterMap, List.countP_filterMap, countP_toList_toNat]
  exact countP_eraseIdx_add (p := fun x => ((f x).map q).getD false) h

end FilterMap

theorem length_flatMap_take_le (ls : List (List α)) (n : Nat) :
    (ls.flatMap (List.take n)).length ≤ ls.flatten.length := by
  induction ls with
  | nil => simp
  | cons l ls ih =>
    simp only [List.flatMap_cons, List.flatten_cons, List.length_append, List.length_take]
    omega

theorem flatMap_take_eq_flatten_iff (ls : List (List α)) (n : Nat) :
    ls.flatMap (List.take n) = ls.flatten ↔ ∀ l ∈ ls, l.length ≤ n := by
  induction ls with
  | nil => simp
  | cons l ls ih =>
    rw [List.flatMap_cons, List.flatten_cons, List.forall_mem_cons, ← ih]
    constructor
    · intro h
      have hlen := congrArg List.length h
      have hle := length_flatMap_take_le ls n
      simp only [List.length_append, List.length_take] at hlen
      have hl : l.length ≤ n := by omega
      rw [List.take_of_length_le hl] at h
      exact ⟨hl, List.append_cancel_left h⟩
    · rintro ⟨hl, hrest⟩
      rw [List.take_of_length_le hl, hrest]

end List
