import Mathlib.Algebra.Group.Nat.Defs
import Mathlib.Data.List.Basic

/-!
# Operations that may panic

Machine sums, indices, slices and allocations as functions into
`Except Panic`. An operation that cannot be carried out ends the whole
computation, as a panic does; the lemma beside each says when it is
carried out and what it gives.
-/

/-- What a panic is about. -/
inductive Panic where
  | outOfBounds
  | overflow
  | capacity
deriving DecidableEq

namespace Checked

universe u

variable {α β : Type u}

@[simp] theorem ok_bind (a : α) (f : α → Except Panic β) : (Except.ok a >>= f) = f a := rfl

@[simp] theorem error_bind (p : Panic) (f : α → Except Panic β) :
    ((Except.error p : Except Panic α) >>= f) = .error p := rfl

@[simp] theorem pure_eq (a : α) : (pure a : Except Panic α) = .ok a := rfl

/-- A computation returns when its first part does and the rest does. -/
theorem bind_eq_ok_iff {x : Except Panic α} {f : α → Except Panic β} {b : β} :
    (x >>= f) = .ok b ↔ ∃ a, x = .ok a ∧ f a = .ok b := by
  cases x with
  | error p => simp
  | ok a => simp

/-! ## Words of 64 bits -/

/-- `a + b` on `usize`. -/
def add (a b : Nat) : Except Panic Nat :=
  if a + b < 2 ^ 64 then .ok (a + b) else .error .overflow

/-- `a - b` on `usize`. -/
def sub (a b : Nat) : Except Panic Nat :=
  if b ≤ a then .ok (a - b) else .error .overflow

theorem add_eq_ok {a b : Nat} (h : a + b < 2 ^ 64) : add a b = .ok (a + b) := if_pos h

theorem sub_eq_ok {a b : Nat} (h : b ≤ a) : sub a b = .ok (a - b) := if_pos h

/-! ## Sequences -/

/-- `l[i]`. -/
def index (l : List α) (i : Nat) : Except Panic α :=
  match l[i]? with
  | some a => .ok a
  | none => .error .outOfBounds

/-- `&l[i..j]`. -/
def slice (l : List α) (i j : Nat) : Except Panic (List α) :=
  if i ≤ j ∧ j ≤ l.length then .ok ((l.take j).drop i) else .error .outOfBounds

/-- `&l[i..]`. -/
def sliceFrom (l : List α) (i : Nat) : Except Panic (List α) :=
  if i ≤ l.length then .ok (l.drop i) else .error .outOfBounds

theorem index_eq_ok {l : List α} {i : Nat} {a : α} (h : l[i]? = some a) :
    index l i = .ok a := by
  rw [index, h]

theorem slice_eq_ok {l : List α} {i j : Nat} (hij : i ≤ j) (hj : j ≤ l.length) :
    slice l i j = .ok ((l.take j).drop i) := if_pos ⟨hij, hj⟩

theorem sliceFrom_eq_ok {l : List α} {i : Nat} (h : i ≤ l.length) :
    sliceFrom l i = .ok (l.drop i) := if_pos h

/-! ## Allocation -/

/-- `isize::MAX`, the most bytes one allocation may ask for. -/
def maxBytes : Nat := 2 ^ 63 - 1

/-- `Vec::with_capacity(count)`, an element having `size` bytes. -/
def withCapacity (size count : Nat) : Except Panic Unit :=
  if count * size ≤ maxBytes then .ok () else .error .capacity

theorem withCapacity_eq_ok {size count : Nat} (h : count * size ≤ maxBytes) :
    withCapacity size count = .ok () := if_pos h

theorem withCapacity_eq_error {size count : Nat} (h : ¬ count * size ≤ maxBytes) :
    withCapacity size count = .error .capacity := if_neg h

end Checked
