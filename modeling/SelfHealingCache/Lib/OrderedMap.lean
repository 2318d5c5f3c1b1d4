import Mathlib.Data.List.Sort
import Mathlib.Data.List.Nodup

/-!
# Ordered maps

A map kept as its strictly ascending entry list: the abstract content of
a balanced search tree. The ascending order is a FIELD, so an ill-formed
map cannot be built, and two maps with the same entries are equal
(`ext_mem`) whatever the history that produced them.
-/

/-- A finite map as its strictly ascending list of entries. -/
structure OrderedMap (κ ν : Type*) [LinearOrder κ] where
  entries : List (κ × ν)
  sorted : entries.Pairwise fun a b => a.1 < b.1

namespace OrderedMap

variable {κ ν : Type*} [LinearOrder κ]

/-- The map with no entry. -/
def empty : OrderedMap κ ν := ⟨[], .nil⟩

/-- `insert` on the entry list: replace the entry at `k`, or place a new
one in order. -/
def insertList (k : κ) (v : ν) : List (κ × ν) → List (κ × ν)
  | [] => [(k, v)]
  | e :: es =>
      if k < e.1 then (k, v) :: e :: es
      else if k = e.1 then (k, v) :: es
      else e :: insertList k v es

/-- In an ascending list, the entries after `insertList` are the new one
and the old ones at other keys. -/
theorem mem_insertList {k : κ} {v : ν} {es : List (κ × ν)} {e : κ × ν}
    (hs : es.Pairwise fun a b => a.1 < b.1) :
    e ∈ insertList k v es ↔ e = (k, v) ∨ (e.1 ≠ k ∧ e ∈ es) := by
  induction es with
  | nil => simp [insertList]
  | cons f es ih =>
      obtain ⟨hf, hes⟩ := List.pairwise_cons.mp hs
      rw [insertList]
      split_ifs with hlt heq
      · -- the new key is below everything, so no old entry sits at it
        have hne : ∀ g ∈ f :: es, g.1 ≠ k := by
          intro g hg
          rcases List.mem_cons.mp hg with rfl | hg
          · exact hlt.ne'
          · exact (hlt.trans (hf g hg)).ne'
        rw [List.mem_cons]
        exact or_congr_right ⟨fun h => ⟨hne e h, h⟩, And.right⟩
      · have hne : ∀ g ∈ es, g.1 ≠ k := fun g hg => heq ▸ (hf g hg).ne'
        rw [List.mem_cons, List.mem_cons]
        constructor
        · rintro (h | h)
          · exact .inl h
          · exact .inr ⟨hne e h, .inr h⟩
        · rintro (h | ⟨hk, rfl | h⟩)
          · exact .inl h
          · exact absurd heq.symm hk
          · exact .inr h
      · rw [List.mem_cons, List.mem_cons, ih hes]
        constructor
        · rintro (rfl | h | ⟨hk, h⟩)
          · exact .inr ⟨fun h => heq h.symm, .inl rfl⟩
          · exact .inl h
          · exact .inr ⟨hk, .inr h⟩
        · rintro (h | ⟨hk, h | h⟩)
          · exact .inr (.inl h)
          · exact .inl h
          · exact .inr (.inr ⟨hk, h⟩)

theorem sorted_insertList {k : κ} {v : ν} {es : List (κ × ν)}
    (hs : es.Pairwise fun a b => a.1 < b.1) :
    (insertList k v es).Pairwise fun a b => a.1 < b.1 := by
  induction es with
  | nil => simp [insertList]
  | cons f es ih =>
      obtain ⟨hf, hes⟩ := List.pairwise_cons.mp hs
      rw [insertList]
      split_ifs with hlt heq
      · refine List.pairwise_cons.mpr ⟨fun g hg => ?_, hs⟩
        rcases List.mem_cons.mp hg with rfl | hg
        · exact hlt
        · exact hlt.trans (hf g hg)
      · exact List.pairwise_cons.mpr ⟨fun g hg => heq ▸ hf g hg, hes⟩
      · refine List.pairwise_cons.mpr ⟨fun g hg => ?_, ih hes⟩
        rcases (mem_insertList hes).mp hg with rfl | ⟨_, hg⟩
        · exact lt_of_le_of_ne (not_lt.mp hlt) (fun h => heq h.symm)
        · exact hf g hg

/-- Insert, replacing what stands at `k`. -/
def insert (m : OrderedMap κ ν) (k : κ) (v : ν) : OrderedMap κ ν :=
  ⟨insertList k v m.entries, sorted_insertList m.sorted⟩

/-- Keep the entries satisfying `p`. -/
def retain (m : OrderedMap κ ν) (p : κ → ν → Bool) : OrderedMap κ ν :=
  ⟨m.entries.filter fun e => p e.1 e.2, m.sorted.filter _⟩

/-- The entries at keys `lo` and above, ascending. -/
def rangeFrom (m : OrderedMap κ ν) (lo : κ) : List (κ × ν) :=
  m.entries.filter fun e => lo ≤ e.1

theorem mem_insert {m : OrderedMap κ ν} {k : κ} {v : ν} {e : κ × ν} :
    e ∈ (m.insert k v).entries ↔ e = (k, v) ∨ (e.1 ≠ k ∧ e ∈ m.entries) :=
  mem_insertList m.sorted

theorem mem_retain {m : OrderedMap κ ν} {p : κ → ν → Bool} {e : κ × ν} :
    e ∈ (m.retain p).entries ↔ e ∈ m.entries ∧ p e.1 e.2 := by
  simp [retain]

@[simp] theorem rangeFrom_retain (m : OrderedMap κ ν) (p : κ → ν → Bool) (lo : κ) :
    (m.retain p).rangeFrom lo = (m.rangeFrom lo).filter fun e => p e.1 e.2 := by
  simp [retain, rangeFrom, List.filter_filter, Bool.and_comm]

/-- **Extensionality**: the history of a map is invisible, only its
entries count. -/
theorem ext_mem {m n : OrderedMap κ ν} (h : ∀ e, e ∈ m.entries ↔ e ∈ n.entries) : m = n := by
  have hnodup : ∀ l : OrderedMap κ ν, l.entries.Nodup := by
    intro l
    apply l.sorted.imp
    intro a b hab heq
    subst heq
    exact lt_irrefl _ hab
  have hperm : m.entries.Perm n.entries :=
    (List.perm_ext_iff_of_nodup (hnodup m) (hnodup n)).mpr h
  have heq : m.entries = n.entries :=
    hperm.eq_of_pairwise (fun a b _ _ hab hba => absurd (hab.trans hba) (lt_irrefl _))
      m.sorted n.sorted
  cases m
  cases n
  cases heq
  rfl

end OrderedMap
