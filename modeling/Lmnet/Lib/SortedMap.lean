import Mathlib.Data.List.Basic
import Mathlib.Order.Lattice
import Mathlib.Tactic.Tauto

set_option autoImplicit false

universe u v

structure SortedMap (κ : Type u) (ν : Type v) [LinearOrder κ] where
  entries : List (κ × ν)
  sorted : (entries.map Prod.fst).Pairwise (· < ·)

namespace SortedMap

variable {κ : Type u} {ν : Type v} [LinearOrder κ]

def keys (m : SortedMap κ ν) : List κ := m.entries.map Prod.fst

def size (m : SortedMap κ ν) : Nat := m.entries.length

def empty : SortedMap κ ν := ⟨[], List.Pairwise.nil⟩

def min? (m : SortedMap κ ν) : Option (κ × ν) := m.entries.head?

def find? (m : SortedMap κ ν) (k : κ) : Option ν :=
  (m.entries.find? fun e => decide (e.1 = k)).map Prod.snd

def insertEntry (k : κ) (v : ν) : List (κ × ν) → List (κ × ν)
  | [] => [(k, v)]
  | e :: es =>
      if k < e.1 then (k, v) :: e :: es
      else if k = e.1 then (k, v) :: es
      else e :: insertEntry k v es

theorem mem_keys_insertEntry {k j : κ} {v : ν} {es : List (κ × ν)} :
    j ∈ (insertEntry k v es).map Prod.fst ↔ j = k ∨ j ∈ es.map Prod.fst := by
  induction es with
  | nil => simp [insertEntry]
  | cons e es ih =>
    unfold insertEntry
    split
    · simp
    · split
      · rename_i hk
        simp [hk]
      · simp only [List.map_cons, List.mem_cons, ih]
        tauto

theorem sorted_insertEntry {k : κ} {v : ν} {es : List (κ × ν)}
    (h : (es.map Prod.fst).Pairwise (· < ·)) :
    ((insertEntry k v es).map Prod.fst).Pairwise (· < ·) := by
  induction es with
  | nil => simp [insertEntry]
  | cons e es ih =>
    obtain ⟨hlt, hes⟩ := List.pairwise_cons.mp h
    unfold insertEntry
    split
    · rename_i hk
      refine List.pairwise_cons.mpr ⟨fun j hj => ?_, h⟩
      rcases List.mem_cons.mp hj with rfl | hj
      · exact hk
      · exact lt_trans hk (hlt j hj)
    · split
      · rename_i hk
        exact List.pairwise_cons.mpr ⟨fun j hj => hk ▸ hlt j hj, hes⟩
      · rename_i hnlt hne
        refine List.pairwise_cons.mpr ⟨fun j hj => ?_, ih hes⟩
        rcases mem_keys_insertEntry.mp hj with rfl | hj
        · exact lt_of_le_of_ne (not_lt.mp hnlt) (Ne.symm hne)
        · exact hlt j hj

/-- `m[k] = v`. -/
def insert (m : SortedMap κ ν) (k : κ) (v : ν) : SortedMap κ ν :=
  ⟨insertEntry k v m.entries, sorted_insertEntry m.sorted⟩

def erase (m : SortedMap κ ν) (k : κ) : SortedMap κ ν :=
  ⟨m.entries.filter fun e => decide (e.1 ≠ k),
    m.sorted.sublist (List.filter_sublist.map Prod.fst)⟩

@[simp] theorem mem_keys_insert {m : SortedMap κ ν} {k j : κ} {v : ν} :
    j ∈ (m.insert k v).keys ↔ j = k ∨ j ∈ m.keys := mem_keys_insertEntry

theorem sorted_keys (m : SortedMap κ ν) : m.keys.Pairwise (· < ·) := m.sorted

theorem keys_erase {m : SortedMap κ ν} {k : κ} :
    (m.erase k).keys = m.keys.filter fun j => decide (j ≠ k) := by
  simp [keys, erase, List.filter_map, Function.comp_def]

@[simp] theorem mem_keys_erase {m : SortedMap κ ν} {k j : κ} :
    j ∈ (m.erase k).keys ↔ j ≠ k ∧ j ∈ m.keys := by
  simp [keys_erase, and_comm]

theorem find?_eq_none {m : SortedMap κ ν} {k : κ} : m.find? k = none ↔ k ∉ m.keys := by
  simp only [find?, keys, Option.map_eq_none_iff, List.find?_eq_none, List.mem_map]
  constructor
  · rintro h ⟨e, he, rfl⟩
    exact h e he (by simp)
  · intro h e he hk
    exact h ⟨e, he, by simpa using hk⟩

theorem mem_keys_of_find? {m : SortedMap κ ν} {k : κ} {v : ν} (h : m.find? k = some v) :
    k ∈ m.keys := by
  by_contra hk
  rw [find?_eq_none.mpr hk] at h
  cases h

theorem mem_keys_of_min? {m : SortedMap κ ν} {k : κ} {v : ν} (h : m.min? = some (k, v)) :
    k ∈ m.keys :=
  List.mem_map.mpr ⟨_, List.mem_of_head? h, rfl⟩

theorem le_of_min? {m : SortedMap κ ν} {k j : κ} {v : ν} (h : m.min? = some (k, v))
    (hj : j ∈ m.keys) : k ≤ j := by
  obtain ⟨entries, sorted⟩ := m
  cases entries with
  | nil => cases h
  | cons e es =>
    cases h
    rcases List.mem_cons.mp hj with rfl | hj
    · exact le_refl _
    · exact le_of_lt ((List.pairwise_cons.mp sorted).1 j hj)

theorem min?_eq_none {m : SortedMap κ ν} : m.min? = none ↔ m.size = 0 := by
  simp [min?, size]

theorem min?_erase {m : SortedMap κ ν} {k j : κ} {v : ν} (h : m.min? = some (k, v))
    (hne : k ≠ j) : (m.erase j).min? = some (k, v) := by
  obtain ⟨entries, sorted⟩ := m
  cases entries with
  | nil => cases h
  | cons e es =>
    cases h
    simp [min?, erase, hne]

theorem size_eq_length_keys (m : SortedMap κ ν) : m.size = m.keys.length := by
  simp [size, keys]

theorem size_erase_lt {m : SortedMap κ ν} {k : κ} (h : k ∈ m.keys) :
    (m.erase k).size < m.size := by
  obtain ⟨e, he, rfl⟩ := List.mem_map.mp h
  exact List.length_filter_lt_length_iff_exists.mpr ⟨e, he, by simp⟩

theorem entries_perm_of_find? {m : SortedMap κ ν} {k : κ} {v : ν} (h : m.find? k = some v) :
    m.entries.Perm ((k, v) :: (m.erase k).entries) := by
  obtain ⟨entries, sorted⟩ := m
  simp only [find?, erase] at h ⊢
  induction entries with
  | nil => cases h
  | cons e es ih =>
    obtain ⟨hlt, hes⟩ := List.pairwise_cons.mp sorted
    by_cases hk : e.1 = k
    · obtain ⟨j, w⟩ := e
      subst hk
      have hw : w = v := by simpa using h
      have hrest : es.filter (fun e => decide (e.1 ≠ j)) = es :=
        List.filter_eq_self.mpr fun e he =>
          decide_eq_true (ne_of_gt (hlt e.1 (List.mem_map_of_mem he)))
      rw [hw, List.filter_cons_of_neg (by simp), hrest]
    · rw [List.find?_cons_of_neg (by simpa using hk)] at h
      rw [List.filter_cons_of_pos (by simpa using hk)]
      exact ((ih hes h).cons e).trans (List.Perm.swap _ _ _)

theorem entries_insert_perm {m : SortedMap κ ν} {k : κ} (v : ν) (h : k ∉ m.keys) :
    (m.insert k v).entries.Perm ((k, v) :: m.entries) := by
  obtain ⟨entries, sorted⟩ := m
  simp only [insert, keys] at h ⊢
  induction entries with
  | nil => exact .refl _
  | cons e es ih =>
    rw [List.map_cons, List.mem_cons, not_or] at h
    unfold insertEntry
    split
    · exact .refl _
    · rw [if_neg h.1]
      exact ((ih (List.pairwise_cons.mp sorted).2 h.2).cons e).trans (List.Perm.swap _ _ _)

end SortedMap
