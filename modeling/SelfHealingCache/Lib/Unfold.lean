import Mathlib.Logic.Function.Iterate

/-!
# Unfolding a recursion

A recursive function is its body `F` applied to itself. `F^[k] p` is the
body unfolded `k` times, with `p` in place of the calls below. When every
call is on a smaller argument, `p` stops mattering as soon as `k` exceeds
the size (`iterate_eq_iterate`): no call is that deep, so the recursion
ends, and a function that satisfies the equation is what it computes
(`iterate_eq`).
-/

namespace Unfold

variable {α β : Type*} {F : (α → β) → α → β} {size : α → Nat}

/-- At `a` the body asks for smaller arguments only. -/
def Shrinks (size : α → Nat) (F : (α → β) → α → β) (a : α) : Prop :=
  ∀ p q : α → β, (∀ b, size b < size a → p b = q b) → F p a = F q a

theorem iterate_eq_iterate {a : α} (hF : ∀ b, size b ≤ size a → Shrinks size F b) (p q : α → β)
    {k k' : Nat} (h : size a < k) (h' : size a < k') : F^[k] p a = F^[k'] q a := by
  induction k generalizing k' a with
  | zero => cases h
  | succ k ih =>
      cases k' with
      | zero => cases h'
      | succ k' =>
          rw [Function.iterate_succ_apply', Function.iterate_succ_apply']
          apply hF a (Nat.le_refl _)
          intro b hb
          exact ih (fun c hc => hF c (by omega)) (by omega) (by omega)

/-- **Enough unfolding is the function.** -/
theorem iterate_eq (hF : ∀ a, Shrinks size F a) {f : α → β} (hf : ∀ a, f a = F f a) (p : α → β)
    {k : Nat} {a : α} (h : size a < k) : F^[k] p a = f a := by
  have hfix : F^[k] f = f := Function.iterate_fixed (funext fun a => (hf a).symm) k
  rw [iterate_eq_iterate (fun b _ => hF b) p f h h, hfix]

end Unfold
