import Mathlib.Data.List.Basic
import Mathlib.Data.List.Infix
import Mathlib.Data.List.Nodup
import Mathlib.Order.MinMax

/-!
# Walking a list: first occurrences and bounded selection

Facts about lists that a clockwise walk rests on. The list of FIRST
occurrences commutes with filtering (dropping some elements from the
walk drops them from its distinct elements and disturbs nothing else).
The labels of a list that ascends in some key come, at their first
occurrences, in the order of the LEAST key each of them has. And a
bounded selection (look at `c` candidates, keep those passing a
test, stop at `r`) is STABLE: after deleting elements and shrinking the
test, everything selected ahead of a surviving element had been selected
before.
-/

namespace ListWalk

variable {α : Type*}

/-! ## First occurrences -/

section Distinct

variable [DecidableEq α]

theorem eraseDups_filter (p : α → Bool) (l : List α) :
    (l.filter p).eraseDups = l.eraseDups.filter p := by
  match l with
  | [] => simp
  | a :: l =>
      have ih := eraseDups_filter p (l.filter fun b => !b == a)
      rw [List.eraseDups_cons]
      by_cases hp : p a
      · rw [List.filter_cons_of_pos hp, List.filter_cons_of_pos hp, List.eraseDups_cons, ← ih]
        simp only [List.filter_filter, Bool.and_comm]
      · rw [List.filter_cons_of_neg hp, List.filter_cons_of_neg hp, ← ih, List.filter_filter]
        -- every copy of `a` fails `p` already, so dropping them first changes nothing
        congr 1
        apply List.filter_congr
        intro b _
        by_cases hb : b = a
        · subst hb; simp [hp]
        · simp [hb]
  termination_by l.length
  decreasing_by exact Nat.lt_succ_of_le (List.length_filter_le _ _)

theorem nodup_eraseDups (l : List α) : l.eraseDups.Nodup := by
  match l with
  | [] => simp
  | a :: l =>
      rw [List.eraseDups_cons, List.nodup_cons]
      exact ⟨by simp [List.mem_eraseDups], nodup_eraseDups (l.filter fun b => !b == a)⟩
  termination_by l.length
  decreasing_by exact Nat.lt_succ_of_le (List.length_filter_le _ _)

/-- What has been walked over already adds nothing. -/
theorem eraseDups_append_of_subset {l l' : List α} (h : ∀ a ∈ l', a ∈ l) :
    (l ++ l').eraseDups = l.eraseDups := by
  have hnil : l'.removeAll l = [] := by
    rw [List.removeAll, List.filter_eq_nil_iff]
    intro a ha
    simp [h a ha]
  rw [List.eraseDups_append, hnil, List.eraseDups_nil, List.append_nil]

end Distinct

/-! ## Labels in the order of their least key -/

section Labels

variable {β κ : Type*} [DecidableEq β] [LinearOrder κ] {key : α → κ} {label : α → β}

/-- Core's laws of `min`, from the linear order. -/
theorem lawfulOrderMin : Std.LawfulOrderMin κ where
  min_eq_or := min_choice
  le_min_iff _ _ _ := le_min_iff

/-- The least key among the elements labelled `b`. -/
def least (key : α → κ) (label : α → β) (l : List α) (b : β) : Option κ :=
  ((l.filter fun a => label a = b).map key).min?

theorem least_eq_some {l : List α} {b : β} {k : κ} :
    least key label l b = some k
      ↔ (∃ a ∈ l, label a = b ∧ key a = k) ∧ ∀ a ∈ l, label a = b → k ≤ key a := by
  have : Std.LawfulOrderMin κ := lawfulOrderMin
  rw [least, List.min?_eq_some_iff]
  constructor
  · rintro ⟨hk, hle⟩
    obtain ⟨a, ha, hak⟩ := List.mem_map.mp hk
    obtain ⟨hal, hab⟩ := List.mem_filter.mp ha
    refine ⟨⟨a, hal, by simpa using hab, hak⟩, fun c hc hcb => ?_⟩
    exact hle (key c) (List.mem_map_of_mem (List.mem_filter.mpr ⟨hc, by simpa using hcb⟩))
  · rintro ⟨⟨a, hal, hab, hak⟩, hle⟩
    refine ⟨List.mem_map.mpr ⟨a, List.mem_filter.mpr ⟨hal, by simpa using hab⟩, hak⟩, ?_⟩
    intro k' hk'
    obtain ⟨c, hc, rfl⟩ := List.mem_map.mp hk'
    obtain ⟨hcl, hcb⟩ := List.mem_filter.mp hc
    exact hle c hcl (by simpa using hcb)

/-- The least key does not depend on the order of the list. -/
theorem least_congr {l l' : List α} {b : β}
    (h : ∀ a, label a = b → (a ∈ l ↔ a ∈ l')) :
    least key label l b = least key label l' b := by
  apply Option.ext
  intro k
  rw [least_eq_some, least_eq_some]
  constructor
  · rintro ⟨⟨a, ha, hab, hak⟩, hle⟩
    exact ⟨⟨a, (h a hab).mp ha, hab, hak⟩, fun c hc hcb => hle c ((h c hcb).mpr hc) hcb⟩
  · rintro ⟨⟨a, ha, hab, hak⟩, hle⟩
    exact ⟨⟨a, (h a hab).mpr ha, hab, hak⟩, fun c hc hcb => hle c ((h c hcb).mp hc) hcb⟩

/-- `b` has an element nearer than every element of `c`. -/
def Nearer (key : α → κ) (label : α → β) (l : List α) (b c : β) : Prop :=
  ∃ j k, least key label l b = some j ∧ least key label l c = some k ∧ j < k

theorem Nearer.irrefl {l : List α} {b : β} (h : Nearer key label l b b) : False := by
  obtain ⟨j, k, hj, hk, hlt⟩ := h
  rw [hj] at hk
  cases hk
  exact lt_irrefl j hlt

theorem Nearer.asymm {l : List α} {b c : β} (h : Nearer key label l b c)
    (h' : Nearer key label l c b) : False := by
  obtain ⟨j, k, hj, hk, hlt⟩ := h
  obtain ⟨k', j', hk', hj', hlt'⟩ := h'
  rw [hj] at hj'
  rw [hk] at hk'
  cases hj'
  cases hk'
  exact lt_asymm hlt hlt'

/-- A label that occurs has a least key. -/
theorem exists_least (key : α → κ) (label : α → β) {l : List α} {a : α} (h : a ∈ l) :
    ∃ k, least key label l (label a) = some k := by
  have hin : key a ∈ (l.filter fun x => label x = label a).map key :=
    List.mem_map_of_mem (List.mem_filter.mpr ⟨h, by simp⟩)
  exact Option.isSome_iff_exists.mp (List.isSome_min?_of_ne_nil (List.ne_nil_of_mem hin))

/-- In an ascending list the head has the least key of its label. -/
theorem least_cons_self {a : α} {l : List α} (h : ∀ b ∈ l, key a < key b) :
    least key label (a :: l) (label a) = some (key a) := by
  rw [least_eq_some]
  refine ⟨⟨a, List.mem_cons_self, rfl, rfl⟩, fun b hb _ => ?_⟩
  rcases List.mem_cons.mp hb with rfl | hb
  · exact le_refl _
  · exact (h b hb).le

/-- Away from the label of the head, a list and its filtered tail have the
same elements. -/
theorem least_filter_tail {a : α} {l : List α} {c : β} (hc : c ≠ label a) :
    least key label (l.filter fun b => !label b == label a) c = least key label (a :: l) c := by
  apply least_congr
  intro b hb
  have hba : b ≠ a := by
    intro heq
    rw [heq] at hb
    exact hc hb.symm
  simp [hba, hb, hc]

/-- **First occurrences in an ascending list are ordered by least key.** -/
theorem pairwise_eraseDups_map (l : List α) (h : l.Pairwise fun a b => key a < key b) :
    (l.map label).eraseDups.Pairwise (Nearer key label l) := by
  -- by the length: `eraseDups` goes on with a filtered tail
  match l with
  | [] => simp
  | a :: l =>
      obtain ⟨ha, hl⟩ := List.pairwise_cons.mp h
      have ih := pairwise_eraseDups_map (l.filter fun b => !label b == label a) (hl.filter _)
      have hfilter : (l.map label).filter (fun b => !b == label a)
          = (l.filter fun b => !label b == label a).map label := by
        rw [List.filter_map]
        rfl
      have hmem : ∀ c ∈ ((l.filter fun b => !label b == label a).map label).eraseDups,
          c ≠ label a ∧ ∃ b ∈ l, label b = c := by
        intro c hc
        rw [List.mem_eraseDups, List.mem_map] at hc
        obtain ⟨b, hb, rfl⟩ := hc
        obtain ⟨hbl, hba⟩ := List.mem_filter.mp hb
        exact ⟨by simpa using hba, b, hbl, rfl⟩
      rw [List.map_cons, List.eraseDups_cons, hfilter, List.pairwise_cons]
      constructor
      · intro c hc
        obtain ⟨hca, b, hb, rfl⟩ := hmem c hc
        obtain ⟨k, hk⟩ := exists_least key label (List.mem_cons_of_mem a hb)
        refine ⟨key a, k, least_cons_self ha, hk, ?_⟩
        obtain ⟨⟨x, hx, hxc, rfl⟩, -⟩ := least_eq_some.mp hk
        rcases List.mem_cons.mp hx with rfl | hx
        · exact absurd hxc.symm hca
        · exact ha x hx
      · apply ih.imp_of_mem
        intro b c hb hc hbc
        obtain ⟨j, k, hj, hk, hlt⟩ := hbc
        rw [least_filter_tail (hmem b hb).1] at hj
        rw [least_filter_tail (hmem c hc).1] at hk
        exact ⟨j, k, hj, hk, hlt⟩
  termination_by l.length
  decreasing_by exact Nat.lt_succ_of_le (List.length_filter_le _ _)

end Labels

/-! ## Bounded selection -/

/-- Look at the first `c` elements, keep those passing `p`, at most `r`. -/
def select (c : Nat) (p : α → Bool) (r : Nat) (l : List α) : List α :=
  ((l.take c).filter p).take r

/-- An element is selected exactly when it passes the test and neither
bound is used up by the elements ahead of it; the selection then starts
with the passing elements ahead of it. -/
theorem select_append_cons {c r : Nat} {p : α → Bool} {A B : List α} {a : α}
    (hc : A.length < c) (hp : p a) (hr : (A.filter p).length < r) :
    ∃ B', select c p r (A ++ a :: B) = A.filter p ++ a :: B' := by
  have htake : (A ++ a :: B).take c = A ++ a :: B.take (c - A.length - 1) := by
    rw [List.take_append, List.take_of_length_le (by omega)]
    congr 1
    rw [show c - A.length = (c - A.length - 1) + 1 by omega, List.take_succ_cons]
    simp
  rw [select, htake, List.filter_append, List.filter_cons_of_pos hp, List.take_append,
    List.take_of_length_le (by omega),
    show r - (A.filter p).length = (r - (A.filter p).length - 1) + 1 by omega,
    List.take_succ_cons]
  exact ⟨_, rfl⟩

/-- **When the first bound costs nothing**: enough elements pass among
those looked at, or none passes among the others. -/
theorem select_eq_take_filter {c r : Nat} {p : α → Bool} {l : List α} :
    select c p r l = (l.filter p).take r
      ↔ r ≤ ((l.take c).filter p).length ∨ ∀ a ∈ l.drop c, p a = false := by
  have hsplit : l.filter p = (l.take c).filter p ++ (l.drop c).filter p := by
    rw [← List.filter_append, List.take_append_drop]
  rw [select, hsplit, List.take_append, eq_comm, List.append_right_eq_self, List.take_eq_nil_iff,
    List.filter_eq_nil_iff, Nat.sub_eq_zero_iff_le]
  simp

theorem bounds_of_mem_select {c r : Nat} {p : α → Bool} {A B : List α} {a : α}
    (hA : a ∉ A) (h : a ∈ select c p r (A ++ a :: B)) :
    A.length < c ∧ p a ∧ (A.filter p).length < r := by
  have hpa : p a := (List.mem_filter.mp (List.mem_of_mem_take h)).2
  have hc : A.length < c := by
    by_contra hc
    have hmem := (List.mem_filter.mp (List.mem_of_mem_take h)).1
    rw [List.take_append_of_le_length (by omega)] at hmem
    exact hA (List.mem_of_mem_take hmem)
  refine ⟨hc, hpa, ?_⟩
  by_contra hr
  -- the passing elements ahead of `a` already fill the selection
  have hpre : (A.filter p).take r = select c p r (A ++ a :: B) := by
    rw [select, List.take_append, List.take_of_length_le (by omega : A.length ≤ c),
      List.filter_append, List.take_append_of_le_length (by omega)]
  rw [← hpre] at h
  exact hA (List.mem_filter.mp (List.mem_of_mem_take h)).1

/-- **Stability of the selection.** Delete elements (`keep`) and shrink
the test (`p'` implies `p`): a selected element that survives both is
selected again, and everything ahead of it had been selected before. -/
theorem select_stable {c r : Nat} {p p' keep : α → Bool} {l : List α} {a : α}
    (hnodup : l.Nodup) (hshrink : ∀ b, p' b → p b)
    (hmem : a ∈ select c p r l) (hkeep : keep a) (hp' : p' a) :
    ∃ A' B', select c p' r (l.filter keep) = A' ++ a :: B'
      ∧ ∀ b ∈ A', b ∈ select c p r l := by
  have hl : a ∈ l := List.mem_of_mem_take (List.mem_filter.mp (List.mem_of_mem_take hmem)).1
  obtain ⟨A, B, rfl⟩ := List.append_of_mem hl
  have hA : a ∉ A := fun h =>
    (List.nodup_append.mp hnodup).2.2 a h a (by simp) rfl
  obtain ⟨hc, hpa, hr⟩ := bounds_of_mem_select hA hmem
  have hsub : ((A.filter keep).filter p').length ≤ (A.filter p).length := by
    rw [List.filter_filter]
    exact (List.monotone_filter_right A fun b hb => hshrink b (by simp_all)).length_le
  obtain ⟨B', hB'⟩ := select_append_cons (c := c) (r := r) (p := p') (A := A.filter keep)
    (B := B.filter keep) (a := a)
    (Nat.lt_of_le_of_lt (List.length_filter_le _ _) hc) hp' (Nat.lt_of_le_of_lt hsub hr)
  refine ⟨_, B', by rw [← hB', List.filter_append, List.filter_cons_of_pos hkeep], ?_⟩
  intro b hb
  obtain ⟨hbA, hb'⟩ := List.mem_filter.mp hb
  obtain ⟨B'', hB''⟩ := select_append_cons (B := B) hc hpa hr
  rw [hB'']
  exact List.mem_append_left _
    (List.mem_filter.mpr ⟨(List.mem_filter.mp hbA).1, hshrink b hb'⟩)

/-! ## Cutting a list short and filtering it -/

/-- Filtering what a cut left gives a beginning of the cut of what the
filter left. -/
theorem filter_take_prefix (p : α → Bool) (l : List α) (n : Nat) :
    (l.take n).filter p <+: (l.filter p).take n := by
  rw [List.prefix_take_iff]
  constructor
  · refine ⟨(l.drop n).filter p, ?_⟩
    rw [← List.filter_append, List.take_append_drop]
  · calc ((l.take n).filter p).length ≤ (l.take n).length := List.length_filter_le _ _
      _ ≤ n := List.length_take_le n l

/-- The cut costs the filtered list at most what it costs the list. -/
theorem length_filter_take_add (p : α → Bool) (l : List α) (n : Nat) :
    (l.filter p).length ≤ ((l.take n).filter p).length + (l.length - n) := by
  have hsplit : l.filter p = (l.take n).filter p ++ (l.drop n).filter p := by
    rw [← List.filter_append, List.take_append_drop]
  have hdrop : ((l.drop n).filter p).length ≤ l.length - n := by
    rw [← List.length_drop]
    exact List.length_filter_le _ _
  rw [hsplit, List.length_append]
  omega

/-- Filtering a selection gives a beginning of the selection from what the
filter left. -/
theorem prefix_filter_select (c : Nat) (p : α → Bool) (r : Nat) (q : α → Bool) (l : List α) :
    (select c p r l).filter q <+: select c p r (l.filter q) := by
  have hfirst := filter_take_prefix q l c
  have hcut : ((l.take c).filter p).filter q <+: ((l.filter q).take c).filter p := by
    rw [List.filter_filter]
    simp only [Bool.and_comm]
    rw [← List.filter_filter]
    exact hfirst.filter p
  have hlast := filter_take_prefix q ((l.take c).filter p) r
  exact hlast.trans (hcut.take r)

end ListWalk
