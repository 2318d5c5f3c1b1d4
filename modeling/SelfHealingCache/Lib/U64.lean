import Mathlib.Algebra.Group.Nat.Defs
import Mathlib.Order.Defs.LinearOrder
import Mathlib.Order.Basic

/-!
# The order on 64-bit words

Core ships the comparison of `UInt64` with its decision procedures but
no order instance, so the order library does not see it. The instance
below is built on core's own `≤` and `<` (no second order appears).

Increment is the machine's: it WRAPS at `2 ^ 64`, and
`toNat_succ_of_lt` is the one place where a proof may forget that.
Subtraction wraps too, which makes `p - h` the clockwise distance from
`h` to `p` on the circle of all words.
-/

namespace U64

instance instLinearOrderUInt64 : LinearOrder UInt64 where
  le_refl := UInt64.le_refl
  le_trans _ _ _ := UInt64.le_trans
  le_antisymm _ _ := UInt64.le_antisymm
  le_total := UInt64.le_total
  lt_iff_le_not_ge a b := by
    simp only [UInt64.lt_iff_toNat_lt, UInt64.le_iff_toNat_le]
    omega
  toDecidableLE := inferInstance

/-- Below the top word, the machine increment is the mathematical one. -/
theorem toNat_succ_of_lt {a : UInt64} (h : a.toNat + 1 < 2 ^ 64) :
    (a + 1).toNat = a.toNat + 1 := by
  rw [UInt64.toNat_add, show (1 : UInt64).toNat = 1 from rfl]
  exact Nat.mod_eq_of_lt h

/-- Distances from `h` grow along the words at and above it, grow along
those below it, and are smaller on the former. -/
theorem sub_lt_sub_clockwise {h p q : UInt64}
    (hpq : (p < q ∧ (h ≤ p ↔ h ≤ q)) ∨ (h ≤ p ∧ q < h)) : p - h < q - h := by
  have hp := p.toNat_lt
  have hq := q.toNat_lt
  have hh := h.toNat_lt
  simp only [UInt64.lt_iff_toNat_lt, UInt64.le_iff_toNat_le, UInt64.toNat_sub] at hpq ⊢
  omega

end U64
