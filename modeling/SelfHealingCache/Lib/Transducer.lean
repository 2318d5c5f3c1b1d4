import Mathlib.Data.List.Basic

/-!
# Machines that answer, and simulation

A machine takes one input at a time and answers it. Two machines give
the same answers when a relation between their states is kept by every
input and makes the two answers to it equal.
-/

namespace Transducer

variable {σ τ ι ο : Type*}

/-- The answers to a sequence of inputs. -/
def outputs (step : σ → ι → ο × σ) : σ → List ι → List ο
  | _, [] => []
  | s, i :: is => (step s i).1 :: outputs step (step s i).2 is

/-- `R` relates the two machines on the inputs satisfying `C`. -/
def Simulates (R : σ → τ → Prop) (C : ι → Prop) (step : σ → ι → ο × σ)
    (spec : τ → ι → ο × τ) : Prop :=
  ∀ s t i, R s t → C i → (step s i).1 = (spec t i).1 ∧ R (step s i).2 (spec t i).2

theorem Simulates.outputs_eq {R : σ → τ → Prop} {C : ι → Prop} {step : σ → ι → ο × σ}
    {spec : τ → ι → ο × τ} (h : Simulates R C step spec) {s : σ} {t : τ} (hR : R s t)
    {is : List ι} (hC : ∀ i ∈ is, C i) : outputs step s is = outputs spec t is := by
  induction is generalizing s t with
  | nil => rfl
  | cons i is ih =>
      obtain ⟨heq, hR'⟩ := h s t i hR (hC i List.mem_cons_self)
      rw [outputs, outputs, heq, ih hR' fun j hj => hC j (List.mem_cons_of_mem _ hj)]

/-- Reading only a part of each input. -/
theorem outputs_map {κ : Type*} (f : κ → ι) (step : σ → ι → ο × σ) (s : σ) (ks : List κ) :
    outputs (fun s k => step s (f k)) s ks = outputs step s (ks.map f) := by
  induction ks generalizing s with
  | nil => rfl
  | cons k ks ih => rw [List.map_cons, outputs, outputs, ih]

end Transducer
