import Mathlib.Order.WithBot
import Mathlib.Order.BoundedOrder.Lattice
import Mathlib.Data.List.Basic

/-!
# Join folds

A replica that keeps, for every key, the join of everything it has been
told about that key is insensitive to the order, the grouping and the
repetition of the reports. This module is that argument, once, over any
key type and any join-semilattice: `reported` is the join of what a list
of reports says about a key, and `foldl_view` is the rule that turns a
per-report step lemma into the whole fold.
-/

namespace JoinFold

variable {κ α : Type*} [DecidableEq κ] [SemilatticeSup α]

/-- The join of everything `es` says about `k`; `⊥` when it says
nothing. -/
def reported : List (κ × α) → κ → WithBot α
  | [], _ => ⊥
  | e :: es, k => (if e.1 = k then (e.2 : WithBot α) else ⊥) ⊔ reported es k

@[simp] theorem reported_nil (k : κ) : reported ([] : List (κ × α)) k = ⊥ := rfl

@[simp] theorem reported_cons (e : κ × α) (es : List (κ × α)) (k : κ) :
    reported (e :: es) k
      = (if e.1 = k then (e.2 : WithBot α) else ⊥) ⊔ reported es k := rfl

/-- A list that says nothing about `k` contributes `⊥`. -/
theorem reported_eq_bot {es : List (κ × α)} {k : κ}
    (h : ∀ e ∈ es, e.1 ≠ k) : reported es k = ⊥ := by
  induction es with
  | nil => rfl
  | cons e es ih =>
      rw [reported_cons, if_neg (h e (by simp)),
        ih (fun e' he' => h e' (by simp [he'])), sup_bot_eq]

/-- A list whose reports about `k` all say `a`, and that has one,
contributes `a`. -/
theorem reported_eq_coe {es : List (κ × α)} {k : κ} {a : α}
    (hmem : (k, a) ∈ es) (huniq : ∀ e ∈ es, e.1 = k → e.2 = a) :
    reported es k = (a : WithBot α) := by
  induction es with
  | nil => cases hmem
  | cons e es ih =>
      rw [reported_cons]
      have hrest : ∀ e' ∈ es, e'.1 = k → e'.2 = a :=
        fun e' he' => huniq e' (by simp [he'])
      by_cases hk : e.1 = k
      · rw [if_pos hk, huniq e (by simp) hk]
        by_cases hin : (k, a) ∈ es
        · rw [ih hin hrest, sup_idem]
        · have hbot : reported es k = ⊥ := by
            apply reported_eq_bot
            intro e' he' hk'
            have : e' = (k, a) := by
              rw [← hrest e' he' hk', ← hk']
            exact hin (this ▸ he')
          rw [hbot, sup_bot_eq]
      · have hin : (k, a) ∈ es := by
          rcases List.mem_cons.mp hmem with h | h
          · exact absurd (by rw [← h]) hk
          · exact h
        rw [if_neg hk, bot_sup_eq, ih hin hrest]

/-! ## The fold rule -/

/-- **The fold rule.** If every step joins its own report into what is
viewed at `k` and keeps the side condition `I`, the whole fold joins all
reports about `k`. -/
theorem foldl_view {σ ε : Type*} (I : σ → Prop) (view : σ → WithBot α)
    {step : σ → ε → σ} {item : ε → κ × α} {k : κ} {es : List ε} {s : σ} (hs : I s)
    (hstep : ∀ s, I s → ∀ e ∈ es, I (step s e)
      ∧ view (step s e) = view s ⊔ reported [item e] k) :
    view (es.foldl step s) = view s ⊔ reported (es.map item) k := by
  induction es generalizing s with
  | nil => simp
  | cons e es ih =>
      obtain ⟨hI, hview⟩ := hstep s hs e (by simp)
      rw [List.foldl_cons, ih hI (fun s' hs' e' he' => hstep s' hs' e' (by simp [he'])), hview]
      simp [sup_assoc]

end JoinFold
