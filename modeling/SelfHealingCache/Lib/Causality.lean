import SelfHealingCache.Lib.Trace
import Mathlib.Order.Bounds.Basic

/-!
# Causality

Knowledge sits at PLACES (processes, messages in flight) and an event may
carry what one place has to another: `flows e p q`. `Reaches flows es p q`
is the happens-before relation of a run: what `p` has when the events
`es` begin has a way to `q` by their end. It looks at the events alone.

`know s p` is what place `p` knows in state `s`, in a linear order. If
events never lose knowledge and hand it on where they flow, whatever
reaches a place is known there (`know_le_of_reaches`); if they make none
up either, a place knows the greatest of what its causal past knew, and
nothing else (`isGreatest_know`).
-/

namespace Causality

variable {σ ε π α : Type*}

/-- The causal past, event by event. -/
def Reaches (flows : ε → π → π → Prop) : List ε → π → π → Prop
  | [], p, q => p = q
  | e :: es, p, q => Reaches flows es p q ∨ ∃ r, flows e p r ∧ Reaches flows es r q

section Know

variable [Preorder α]

/-- Steps satisfying `C` lose no knowledge and hand it on where they
flow. -/
structure Spreads (step : σ → ε → Option σ) (flows : ε → π → π → Prop) (know : σ → π → α)
    (C : σ → ε → Prop) : Prop where
  keep : ∀ s e t p, C s e → step s e = some t → know s p ≤ know t p
  flow : ∀ s e t p q, C s e → step s e = some t → flows e p q → know s p ≤ know t q

/-- And make none up: what a place knows afterwards it knew before, or a
place it flows from did. -/
structure Relays (step : σ → ε → Option σ) (flows : ε → π → π → Prop) (know : σ → π → α)
    (C : σ → ε → Prop) : Prop extends Spreads step flows know C where
  source : ∀ s e t q, C s e → step s e = some t →
    know t q = know s q ∨ ∃ p, flows e p q ∧ know t q = know s p

variable {step : σ → ε → Option σ} {flows : ε → π → π → Prop} {know : σ → π → α}
  {C : σ → ε → Prop} {s t : σ} {es : List ε} {p q : π}

/-- **What reaches a place is known there.** -/
theorem Spreads.know_le_of_reaches (h : Spreads step flows know C)
    (hrun : Trace.exec step s es = some t) (hC : Trace.Along step C s es)
    (hreach : Reaches flows es p q) : know s p ≤ know t q := by
  induction es generalizing s p with
  | nil =>
      cases hrun
      obtain rfl : p = q := hreach
      exact le_rfl
  | cons e es ih =>
      obtain ⟨u, hu, hut⟩ := Trace.exec_cons.mp hrun
      obtain ⟨hc, hrest⟩ := hC u hu
      rcases hreach with hlater | ⟨r, hflow, hlater⟩
      · exact (h.keep s e u p hc hu).trans (ih hut hrest hlater)
      · exact (h.flow s e u p r hc hu hflow).trans (ih hut hrest hlater)

/-- **A place knows the greatest of its causal past.** -/
theorem Relays.isGreatest_know (h : Relays step flows know C)
    (hrun : Trace.exec step s es = some t) (hC : Trace.Along step C s es) (q : π) :
    IsGreatest {v | ∃ p, Reaches flows es p q ∧ know s p = v} (know t q) := by
  constructor
  · induction es generalizing s with
    | nil =>
        cases hrun
        exact ⟨q, rfl, rfl⟩
    | cons e es ih =>
        obtain ⟨u, hu, hut⟩ := Trace.exec_cons.mp hrun
        obtain ⟨hc, hrest⟩ := hC u hu
        obtain ⟨r, hreach, hr⟩ := ih hut hrest
        rcases h.source s e u r hc hu with hkept | ⟨p, hflow, hfrom⟩
        · exact ⟨r, .inl hreach, hkept.symm.trans hr⟩
        · exact ⟨p, .inr ⟨r, hflow, hreach⟩, hfrom.symm.trans hr⟩
  · rintro v ⟨p, hreach, rfl⟩
    exact h.know_le_of_reaches hrun hC hreach

end Know

end Causality
