import Mathlib.Data.List.Basic
import Mathlib.Data.List.Infix

/-!
# Lines ended by a two-symbol mark

`cut x y` splits a list at the FIRST occurrence of `x` directly followed
by `y`. What stands before it is free of the mark, and any list free of
the mark comes back from its own concatenation with mark and rest, so a
line is determined by the text it stands at the head of.
-/

namespace Delimited

variable {α : Type*} {x y : α}

/-- The mark occurs nowhere. -/
def Free (x y : α) (l : List α) : Prop := ¬ [x, y] <:+: l

theorem free_nil : Free x y [] := by
  intro h
  cases List.infix_nil.mp h

theorem free_cons_iff {a : α} {l : List α} :
    Free x y (a :: l) ↔ ¬ (a = x ∧ l.head? = some y) ∧ Free x y l := by
  rw [Free, List.infix_cons_iff, not_or, Free]
  apply and_congr_left
  intro _
  rw [List.cons_prefix_cons]
  cases l with
  | nil => simp
  | cons b l => simp [eq_comm]

/-- Without the first symbol there is no mark. -/
theorem free_of_not_mem {l : List α} (h : x ∉ l) : Free x y l := by
  intro hin
  exact h (hin.subset List.mem_cons_self)

/-- A symbol that does not end the mark completes none. -/
theorem Free.append_singleton {a : α} {l : List α} (h : Free x y l) (ha : a ≠ y) :
    Free x y (l ++ [a]) := by
  induction l with
  | nil => simp [free_cons_iff, free_nil]
  | cons b l ih =>
      obtain ⟨hb, hl⟩ := free_cons_iff.mp h
      rw [List.cons_append, free_cons_iff]
      refine ⟨?_, ih hl⟩
      cases l with
      | nil => simpa using fun _ => ha
      | cons c l => simpa using hb

/-- A mark at a known place. -/
theorem eq_take_append_mark {l : List α} {k : Nat} (hx : l[k]? = some x)
    (hy : l[k + 1]? = some y) : l = l.take k ++ x :: y :: l.drop (k + 2) := by
  obtain ⟨hk, hx⟩ := List.getElem?_eq_some_iff.mp hx
  obtain ⟨hk', hy⟩ := List.getElem?_eq_some_iff.mp hy
  rw [← hx, ← hy, ← List.drop_eq_getElem_cons, ← List.drop_eq_getElem_cons, List.take_append_drop]

theorem getElem?_mark (l rest : List α) :
    (l ++ x :: y :: rest)[l.length]? = some x ∧ (l ++ x :: y :: rest)[l.length + 1]? = some y := by
  rw [List.getElem?_append_right (Nat.le_refl _), List.getElem?_append_right (Nat.le_succ _)]
  simp

variable [DecidableEq α]

instance (l : List α) : Decidable (Free x y l) := inferInstanceAs (Decidable (¬ _))

def cut (x y : α) : List α → Option (List α × List α)
  | [] => none
  | [_] => none
  | a :: b :: rest =>
      if a = x ∧ b = y then some ([], rest)
      else (cut x y (b :: rest)).map fun p => (a :: p.1, p.2)

theorem cut_append_mark (hne : x ≠ y) {line : List α} (hfree : Free x y line) (rest : List α) :
    cut x y (line ++ x :: y :: rest) = some (line, rest) := by
  induction line with
  | nil => simp [cut]
  | cons a line ih =>
      obtain ⟨hhead, hfree⟩ := free_cons_iff.mp hfree
      have htail := ih hfree
      cases line with
      | nil =>
          -- the last symbol of the line and the first of the mark
          rw [List.nil_append] at htail
          rw [List.cons_append, List.nil_append, cut, if_neg (fun h => hne h.2), htail]
          rfl
      | cons b line =>
          have hnot : ¬ (a = x ∧ b = y) := by simpa using hhead
          rw [List.cons_append] at htail
          rw [List.cons_append, List.cons_append, cut, if_neg hnot, htail]
          rfl

theorem eq_of_cut {l line rest : List α} (h : cut x y l = some (line, rest)) :
    l = line ++ x :: y :: rest ∧ Free x y line := by
  induction l generalizing line with
  | nil => cases h
  | cons a l ih =>
      cases l with
      | nil => cases h
      | cons b l =>
          rw [cut] at h
          split_ifs at h with hmark
          · cases h
            rw [hmark.1, hmark.2]
            exact ⟨rfl, free_nil⟩
          · obtain ⟨p, hp, heq⟩ := Option.map_eq_some_iff.mp h
            obtain ⟨line', rest'⟩ := p
            cases heq
            obtain ⟨hl, hfree⟩ := ih hp
            refine ⟨by rw [hl]; rfl, free_cons_iff.mpr ⟨?_, hfree⟩⟩
            intro ⟨ha, hhead⟩
            cases line' with
            | nil => cases hhead
            | cons c line' =>
                cases hhead
                cases hl
                exact hmark ⟨ha, rfl⟩

theorem free_of_cut_eq_none {l : List α} (h : cut x y l = none) : Free x y l := by
  induction l with
  | nil => exact free_nil
  | cons a l ih =>
      cases l with
      | nil => simp [free_cons_iff, free_nil]
      | cons b l =>
          rw [cut] at h
          split_ifs at h with hmark
          rw [free_cons_iff]
          exact ⟨by simpa using hmark, ih (Option.map_eq_none_iff.mp h)⟩

/-- More text behind does not move the cut. -/
theorem cut_append (hne : x ≠ y) {l line rest : List α} (h : cut x y l = some (line, rest))
    (more : List α) : cut x y (l ++ more) = some (line, rest ++ more) := by
  obtain ⟨hl, hfree⟩ := eq_of_cut h
  rw [hl, List.append_assoc, List.cons_append, List.cons_append]
  exact cut_append_mark hne hfree _

/-- Searching the positions one by one finds the cut. -/
theorem find?_range_eq_cut (l : List α) :
    (List.range (l.length - 1)).find? (fun i => l[i]? = some x ∧ l[i + 1]? = some y)
      = (cut x y l).map (·.1.length) := by
  induction l with
  | nil => rfl
  | cons a l ih =>
      cases l with
      | nil => rfl
      | cons b l =>
          have hlen : (a :: b :: l).length - 1 = ((b :: l).length - 1) + 1 := rfl
          rw [hlen, List.range_succ_eq_map, List.find?_cons, List.find?_map, cut]
          by_cases hmark : a = x ∧ b = y
          · simp [hmark]
          · rw [if_neg hmark, Option.map_map]
            have hfirst : decide ((a :: b :: l)[0]? = some x ∧ (a :: b :: l)[0 + 1]? = some y)
                = false := by
              simpa using hmark
            rw [hfirst]
            have hshift : ((fun i => decide ((a :: b :: l)[i]? = some x
                ∧ (a :: b :: l)[i + 1]? = some y)) ∘ Nat.succ)
                = fun i => decide ((b :: l)[i]? = some x ∧ (b :: l)[i + 1]? = some y) := by
              funext i
              simp
            rw [hshift, ih, Option.map_map]
            rfl

end Delimited
