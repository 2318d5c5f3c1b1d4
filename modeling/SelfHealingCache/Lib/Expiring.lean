import Mathlib.Data.Option.Basic
import Mathlib.Order.Basic

/-!
# Maps whose entries expire

A map in which an entry that has expired may still be stored. `seen t m`
is what such a map MEANS at time `t`: its unexpired entries. Dropping
entries nobody sees changes nothing (`seen_seen`). Expiry is final
(`Lapses`), so what is seen later is decided by what is seen now
(`seen_of_le`), and maps that look the same keep looking the same.
-/

namespace Expiring

variable {κ ν τ : Type*} {live : ν → τ → Bool}

/-- The entry of `k` that can be seen at time `t`. -/
def seen (live : ν → τ → Bool) (t : τ) (m : κ → Option ν) (k : κ) : Option ν :=
  (m k).filter fun e => live e t

theorem seen_eq_some {t : τ} {m : κ → Option ν} {k : κ} {e : ν} :
    seen live t m k = some e ↔ m k = some e ∧ live e t = true := by
  rw [seen, Option.filter_eq_some_iff]

theorem seen_eq_none {t : τ} {m : κ → Option ν} {k : κ} :
    seen live t m k = none ↔ ∀ e, m k = some e → live e t = false := by
  rw [seen, Option.filter_eq_none_iff]
  simp

/-- What is seen at `k` depends on the entry at `k`. -/
theorem seen_congr {t : τ} {m n : κ → Option ν} {k : κ} (h : m k = n k) :
    seen live t m k = seen live t n k := by
  rw [seen, seen, h]

/-- Dropping what is not seen changes nothing that is seen. -/
theorem seen_seen (t : τ) (m : κ → Option ν) (k : κ) :
    seen live t (seen live t m) k = seen live t m k := by
  rw [seen, seen, Option.filter_filter]
  simp

/-! ## Time passes -/

variable [Preorder τ]

/-- What has expired stays expired. -/
def Lapses (live : ν → τ → Bool) : Prop :=
  ∀ e s t, s ≤ t → live e t = true → live e s = true

/-- What is seen later is seen now, and still live. -/
theorem seen_of_le (hl : Lapses live) {s t : τ} (h : s ≤ t) (m : κ → Option ν) (k : κ) :
    seen live t m k = (seen live s m k).filter fun e => live e t := by
  rw [seen, seen, Option.filter_filter]
  congr 1
  funext e
  cases ht : live e t with
  | false => simp
  | true => simp [hl e s t h ht]

theorem seen_eq_none_of_le (hl : Lapses live) {s t : τ} (h : s ≤ t) {m : κ → Option ν} {k : κ}
    (hs : seen live s m k = none) : seen live t m k = none := by
  rw [seen_of_le hl h, hs]
  rfl

theorem seen_congr_of_le (hl : Lapses live) {s t : τ} (h : s ≤ t) {m m' : κ → Option ν} {k : κ}
    (hs : seen live s m k = seen live s m' k) : seen live t m k = seen live t m' k := by
  rw [seen_of_le hl h, hs, ← seen_of_le hl h]

end Expiring
