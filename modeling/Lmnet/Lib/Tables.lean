import Mathlib.Data.List.AList

set_option autoImplicit false

namespace AList

variable {α : Type*} {β : Type*} [DecidableEq α]

theorem lookup_insert_eq_ite (m : AList fun _ : α => β) (a a' : α) (b : β) :
    (m.insert a b).lookup a' = if a' = a then some b else m.lookup a' := by
  split
  · rename_i h
    rw [h, lookup_insert]
  · rename_i h
    exact lookup_insert_ne h

theorem lookup_erase_eq_ite (m : AList fun _ : α => β) (a a' : α) :
    (m.erase a).lookup a' = if a' = a then none else m.lookup a' := by
  split
  · rename_i h
    rw [h, lookup_erase]
  · rename_i h
    exact lookup_erase_ne h

theorem lookup_insert_cases {m : AList fun _ : α => β} {a a' : α} {b b' : β}
    (h : (m.insert a b).lookup a' = some b') :
    (a' = a ∧ b' = b) ∨ (a' ≠ a ∧ m.lookup a' = some b') := by
  by_cases hne : a' = a
  · subst hne
    rw [lookup_insert, Option.some.injEq] at h
    exact .inl ⟨rfl, h.symm⟩
  · rw [lookup_insert_ne hne] at h
    exact .inr ⟨hne, h⟩

theorem lookup_of_lookup_erase {m : AList fun _ : α => β} {a a' : α} {b : β}
    (h : (m.erase a).lookup a' = some b) : a' ≠ a ∧ m.lookup a' = some b := by
  have hne : a' ≠ a := by
    rintro rfl
    rw [lookup_erase] at h
    cases h
  rw [lookup_erase_ne hne] at h
  exact ⟨hne, h⟩

theorem lookup_erase_cases {m : AList fun _ : α => β} {a a' : α} {b b' : β}
    (hb : m.lookup a = some b) (hb' : m.lookup a' = some b') :
    (a' = a ∧ b' = b) ∨ (m.erase a).lookup a' = some b' := by
  by_cases hne : a' = a
  · subst hne
    rw [hb, Option.some.injEq] at hb'
    exact .inl ⟨rfl, hb'.symm⟩
  · exact .inr ((lookup_erase_ne hne).trans hb')

theorem erase_of_notMem {m : AList fun _ : α => β} {a : α} (h : a ∉ m) : m.erase a = m :=
  AList.ext (List.kerase_of_notMem_keys h)

theorem erase_insert_of_notMem {m : AList fun _ : α => β} {a : α} (b : β) (h : a ∉ m) :
    (m.insert a b).erase a = m := by
  refine AList.ext ?_
  show List.kerase a (m.insert a b).entries = m.entries
  rw [entries_insert_of_notMem h]
  exact List.kerase_cons_eq rfl

end AList
