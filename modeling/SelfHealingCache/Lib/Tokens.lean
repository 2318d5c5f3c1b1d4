import Mathlib.Algebra.BigOperators.Group.Finset.Piecewise
import Mathlib.Algebra.Order.BigOperators.Group.Finset

/-!
# Tokens

Holders, each with a state that is worth a number of tokens. When one
holder changes its state the total changes by the difference.
-/

namespace Tokens

variable {ι β : Type*}

/-- The tokens of the holders in `S`. -/
def total (S : Finset ι) (w : β → Nat) (f : ι → β) : Nat := ∑ i ∈ S, w (f i)

theorem total_update [DecidableEq ι] {S : Finset ι} {i : ι} (hi : i ∈ S) (w : β → Nat)
    (f : ι → β) (x : β) :
    total S w (Function.update f i x) + w (f i) = total S w f + w x := by
  have hsame : ∑ j ∈ S.erase i, w (Function.update f i x j) = ∑ j ∈ S.erase i, w (f j) := by
    apply Finset.sum_congr rfl
    intro j hj
    rw [Function.update_of_ne (Finset.ne_of_mem_erase hj)]
  have hbefore := Finset.add_sum_erase S (fun j => w (f j)) hi
  have hafter := Finset.add_sum_erase S (fun j => w (Function.update f i x j)) hi
  rw [hsame, Function.update_self] at hafter
  rw [total, total]
  omega

/-- Some of the holders have no more than all of them. -/
theorem sum_le_total {S D : Finset ι} (hsub : D ⊆ S) (w : β → Nat) (f : ι → β) :
    ∑ i ∈ D, w (f i) ≤ total S w f :=
  Finset.sum_le_sum_of_subset hsub

end Tokens
