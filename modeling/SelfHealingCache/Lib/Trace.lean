import Mathlib.Data.List.Basic

/-!
# Traces of a labelled transition system

A system is a partial step function: `step s e = none` means the event
`e` is not enabled in `s`. A trace is a list of events, `exec` runs it,
and everything nondeterministic about the system (who moves, what a
message carries, in which order a map is walked) sits in the events.

`Along` is a condition on each step of a run, read in the state the step
is taken from; `Throughout` a condition on each state it passes through.
The rules are `exec_invariant` (what one step preserves, a whole run
preserves), `throughout_iff_along` (a condition on the steps is the
EXACT condition for a property of the states) and `along_iff_along` (for
a property of the steps).
-/

namespace Trace

variable {σ ε : Type*} {step : σ → ε → Option σ}

/-- Run the events in order; `none` as soon as one is not enabled. -/
def exec (step : σ → ε → Option σ) : σ → List ε → Option σ
  | s, [] => some s
  | s, e :: es => (step s e).bind fun t => exec step t es

@[simp] theorem exec_nil (s : σ) : exec step s [] = some s := rfl

theorem exec_cons {s t : σ} {e : ε} {es : List ε} :
    exec step s (e :: es) = some t ↔ ∃ u, step s e = some u ∧ exec step u es = some t := by
  simp [exec, Option.bind_eq_some_iff]

theorem exec_append {s t : σ} {es fs : List ε} :
    exec step s (es ++ fs) = some t ↔ ∃ u, exec step s es = some u ∧ exec step u fs = some t := by
  induction es generalizing s with
  | nil => simp
  | cons e es ih =>
      rw [List.cons_append, exec_cons]
      constructor
      · rintro ⟨u, hu, h⟩
        obtain ⟨v, hv, hvt⟩ := ih.mp h
        exact ⟨v, exec_cons.mpr ⟨u, hu, hv⟩, hvt⟩
      · rintro ⟨v, hv, hvt⟩
        obtain ⟨u, hu, huv⟩ := exec_cons.mp hv
        exact ⟨u, hu, ih.mpr ⟨v, huv, hvt⟩⟩

/-- A run of a system is one of any system with more steps. -/
theorem exec_mono {step' : σ → ε → Option σ}
    (hstep : ∀ s e t, step s e = some t → step' s e = some t) {s t : σ} {es : List ε}
    (h : exec step s es = some t) : exec step' s es = some t := by
  induction es generalizing s with
  | nil => exact h
  | cons e es ih =>
      obtain ⟨u, hu, hut⟩ := exec_cons.mp h
      exact exec_cons.mpr ⟨u, hstep s e u hu, ih hut⟩

/-- Every step the run takes satisfies `C`, read in the state the step is
taken from. -/
def Along (step : σ → ε → Option σ) (C : σ → ε → Prop) : σ → List ε → Prop
  | _, [] => True
  | s, e :: es => ∀ t, step s e = some t → C s e ∧ Along step C t es

theorem along_cons {C : σ → ε → Prop} {s : σ} {e : ε} {es : List ε} :
    Along step C s (e :: es) ↔ ∀ t, step s e = some t → C s e ∧ Along step C t es :=
  Iff.rfl

theorem along_of_step {C : σ → ε → Prop} {s t : σ} {e : ε} {es : List ε}
    (hstep : step s e = some t) (hC : C s e) (h : Along step C t es) :
    Along step C s (e :: es) := by
  intro u hu
  rw [hstep] at hu
  cases hu
  exact ⟨hC, h⟩

/-- A condition on the events alone holds along the run when it holds
of every event. -/
theorem along_of_forall {P : ε → Prop} {es : List ε} (h : ∀ e ∈ es, P e) (s : σ) :
    Along step (fun _ e => P e) s es := by
  induction es generalizing s with
  | nil => trivial
  | cons e es ih =>
      exact fun t _ => ⟨h e (by simp), ih (fun e' he' => h e' (by simp [he'])) t⟩

theorem Along.mono {C D : σ → ε → Prop} (hCD : ∀ s e, C s e → D s e) {s : σ} {es : List ε}
    (h : Along step C s es) : Along step D s es := by
  induction es generalizing s with
  | nil => trivial
  | cons e es ih => exact fun t ht => ⟨hCD s e (h t ht).1, ih (h t ht).2⟩

theorem Along.and {C D : σ → ε → Prop} {s : σ} {es : List ε} (hC : Along step C s es)
    (hD : Along step D s es) : Along step (fun s e => C s e ∧ D s e) s es := by
  induction es generalizing s with
  | nil => trivial
  | cons e es ih =>
      intro t ht
      obtain ⟨hc, hC⟩ := hC t ht
      obtain ⟨hd, hD⟩ := hD t ht
      exact ⟨⟨hc, hd⟩, ih hC hD⟩

/-- What holds along a run holds of each of its steps. -/
theorem Along.at {C : σ → ε → Prop} {s u t : σ} (es : List ε) {fs : List ε} {e : ε}
    (h : Along step C s (es ++ e :: fs)) (hes : exec step s es = some u)
    (he : step u e = some t) : C u e := by
  induction es generalizing s with
  | nil =>
      cases hes
      exact (h t he).1
  | cons e' es ih =>
      obtain ⟨v, hv, hvu⟩ := exec_cons.mp hes
      exact ih (h v hv).2 hvu

/-- A condition on the steps is about each step on its own. -/
theorem along_iff_at {C : σ → ε → Prop} {s : σ} {es : List ε} :
    Along step C s es ↔ ∀ pre e post u t, es = pre ++ e :: post → exec step s pre = some u →
      step u e = some t → C u e := by
  constructor
  · intro h pre e post u t hes hpre he
    rw [hes] at h
    exact h.at pre hpre he
  · intro h
    induction es generalizing s with
    | nil => trivial
    | cons e es ih =>
        intro t ht
        refine ⟨h [] e es s t rfl rfl ht, ih fun pre e' post u v hes hpre he => ?_⟩
        exact h (e :: pre) e' post u v (by rw [hes]; rfl) (exec_cons.mpr ⟨t, ht, hpre⟩) he

/-- The steps of the first part, then those of the second. -/
theorem along_append {C : σ → ε → Prop} {s u : σ} {es fs : List ε}
    (hes : exec step s es = some u) (h : Along step C s (es ++ fs)) :
    Along step C s es ∧ Along step C u fs := by
  induction es generalizing s with
  | nil =>
      cases hes
      exact ⟨trivial, h⟩
  | cons e es ih =>
      obtain ⟨t, ht, htu⟩ := exec_cons.mp hes
      obtain ⟨hC, hrest⟩ := along_cons.mp h t ht
      obtain ⟨hfirst, hsecond⟩ := ih htu hrest
      exact ⟨along_of_step ht hC hfirst, hsecond⟩

/-- `P` holds in every state the run passes through. -/
def Throughout (step : σ → ε → Option σ) (P : σ → Prop) : σ → List ε → Prop
  | s, [] => P s
  | s, e :: es => P s ∧ ∀ t, step s e = some t → Throughout step P t es

theorem Throughout.mono {P Q : σ → Prop} (hPQ : ∀ s, P s → Q s) {s : σ} {es : List ε}
    (h : Throughout step P s es) : Throughout step Q s es := by
  induction es generalizing s with
  | nil => exact hPQ s h
  | cons e es ih => exact ⟨hPQ s h.1, fun t ht => ih (h.2 t ht)⟩

/-- `Throughout` is about the states of the prefixes. -/
theorem throughout_iff_prefix {P : σ → Prop} {s : σ} {es : List ε} :
    Throughout step P s es ↔ ∀ pre, pre <+: es → ∀ t, exec step s pre = some t → P t := by
  induction es generalizing s with
  | nil =>
      constructor
      · intro h pre hpre t ht
        rw [List.prefix_nil.mp hpre] at ht
        cases ht
        exact h
      · intro h
        exact h [] List.nil_prefix s rfl
  | cons e es ih =>
      constructor
      · intro ⟨hs, hrest⟩ pre hpre t ht
        cases pre with
        | nil =>
            cases ht
            exact hs
        | cons e' pre =>
            obtain ⟨rfl, htail⟩ := List.cons_prefix_cons.mp hpre
            obtain ⟨u, hu, hut⟩ := exec_cons.mp ht
            exact ih.mp (hrest u hu) pre htail t hut
      · intro h
        refine ⟨h [] List.nil_prefix s rfl, fun u hu => ih.mpr fun pre hpre t ht => ?_⟩
        exact h (e :: pre) (List.cons_prefix_cons.mpr ⟨rfl, hpre⟩) t (exec_cons.mpr ⟨u, hu, ht⟩)

/-- A property of every state holds at the start of every step. -/
theorem along_of_throughout {P : σ → Prop} {s : σ} {es : List ε}
    (h : Throughout step P s es) : Along step (fun s _ => P s) s es := by
  induction es generalizing s with
  | nil => trivial
  | cons e es ih => exact fun t ht => ⟨h.1, ih (h.2 t ht)⟩

/-- What every step satisfying `C` preserves holds throughout a run whose
steps all satisfy `C`. -/
theorem throughout_of_along {I : σ → Prop} {C : σ → ε → Prop}
    (hstep : ∀ s e t, I s → C s e → step s e = some t → I t)
    {s : σ} {es : List ε} (hI : I s) (hC : Along step C s es) : Throughout step I s es := by
  induction es generalizing s with
  | nil => exact hI
  | cons e es ih =>
      refine ⟨hI, fun t ht => ?_⟩
      obtain ⟨hc, hrest⟩ := hC t ht
      exact ih (hstep s e t hI hc ht) hrest

/-- **The history rule.** An invariant that may look back at the events
of the run so far: what every step satisfying `C` preserves holds after a
run whose steps all satisfy `C`. -/
theorem exec_history {I : List ε → σ → Prop} {C : σ → ε → Prop}
    (hstep : ∀ past s e t, I past s → C s e → step s e = some t → I (past ++ [e]) t)
    (past : List ε) {s t : σ} {es : List ε} (hI : I past s) (hC : Along step C s es)
    (h : exec step s es = some t) : I (past ++ es) t := by
  induction es generalizing past s with
  | nil =>
      cases h
      rw [List.append_nil]
      exact hI
  | cons e es ih =>
      obtain ⟨u, hu, hut⟩ := exec_cons.mp h
      obtain ⟨hc, hrest⟩ := along_cons.mp hC u hu
      rw [List.append_cons]
      exact ih (past ++ [e]) (hstep past s e u hI hc hu) hrest hut

/-- **The invariant rule.** What every step satisfying `C` preserves, a
run whose steps all satisfy `C` preserves. -/
theorem exec_invariant {I : σ → Prop} {C : σ → ε → Prop}
    (hstep : ∀ s e t, I s → C s e → step s e = some t → I t)
    {s t : σ} {es : List ε} (hI : I s) (hC : Along step C s es)
    (h : exec step s es = some t) : I t :=
  exec_history (I := fun _ => I) (fun _ => hstep) [] hI hC h

/-- **The blame rule.** A run that loses an invariant which only steps
satisfying `C` can break has such a step, taken while the invariant still
held. -/
theorem exists_blame {I : σ → Prop} {C : σ → ε → Prop}
    (hstep : ∀ s e t, I s → ¬ C s e → step s e = some t → I t)
    {s t : σ} {es : List ε} (hI : I s) (h : exec step s es = some t) (hlost : ¬ I t) :
    ∃ pre e post u, es = pre ++ e :: post ∧ exec step s pre = some u ∧ I u ∧ C u e := by
  by_contra hnone
  have hclean : Along step (fun u e => ¬ (I u ∧ C u e)) s es := by
    rw [along_iff_at]
    intro pre e post u t hes hpre _ ⟨hu, hC⟩
    exact hnone ⟨pre, e, post, u, hes, hpre, hu, hC⟩
  apply hlost
  refine exec_invariant (fun u e t hu hnot => ?_) hI hclean h
  exact hstep u e t hu fun hC => hnot ⟨hu, hC⟩

/-- **The balance rule.** Where a step gains one only if `g` says so, and
spends one if `c` says so, a whole run gains and spends as often as its
steps do. -/
theorem exec_balance {I : σ → Prop} {μ : σ → Nat} {c g : ε → Bool} {s t : σ} {es : List ε}
    (hstep : ∀ s e t, e ∈ es → I s → step s e = some t →
      I t ∧ μ t + (if c e then 1 else 0) ≤ μ s + if g e then 1 else 0)
    (hI : I s) (h : exec step s es = some t) :
    I t ∧ μ t + es.countP c ≤ μ s + es.countP g := by
  induction es generalizing s with
  | nil =>
      cases h
      exact ⟨hI, Nat.le_refl _⟩
  | cons e es ih =>
      obtain ⟨u, hu, hut⟩ := exec_cons.mp h
      obtain ⟨hIu, hone⟩ := hstep s e u List.mem_cons_self hI hu
      obtain ⟨hIt, hrest⟩ := ih (fun s' e' t' he' => hstep s' e' t' (List.mem_cons_of_mem _ he'))
        hIu hut
      refine ⟨hIt, ?_⟩
      rw [List.countP_cons, List.countP_cons]
      omega

/-- If steps satisfying `C` keep an invariant and a step violating `C`
breaks `P` at once, `C` holds along every run that has `P` throughout.
`H` is what is known of the steps anyway. -/
theorem Throughout.along {I P : σ → Prop} {H C : σ → ε → Prop}
    (hgood : ∀ s e t, I s → H s e → C s e → step s e = some t → I t)
    (hbad : ∀ s e t, I s → H s e → ¬ C s e → step s e = some t → ¬ P t)
    {s : σ} {es : List ε} (hI : I s) (hH : Along step H s es) (h : Throughout step P s es) :
    Along step C s es := by
  induction es generalizing s with
  | nil => trivial
  | cons e es ih =>
      intro t ht
      obtain ⟨hHs, hHrest⟩ := hH t ht
      have hrest := h.2 t ht
      have hP : P t := by
        cases es with
        | nil => exact hrest
        | cons e' es => exact hrest.1
      have hC : C s e := by
        by_contra hC
        exact hbad s e t hI hHs hC ht hP
      exact ⟨hC, ih (hgood s e t hI hHs hC ht) hHrest hrest⟩

/-- **The exactness rule.** If steps satisfying `C` keep an invariant
that gives `P`, and a step violating `C` breaks `P` at once, then `P`
holds throughout the run exactly when `C` holds along it. -/
theorem throughout_iff_along {I P : σ → Prop} {C : σ → ε → Prop}
    (hIP : ∀ s, I s → P s)
    (hgood : ∀ s e t, I s → C s e → step s e = some t → I t)
    (hbad : ∀ s e t, I s → ¬ C s e → step s e = some t → ¬ P t)
    {s : σ} (hI : I s) (es : List ε) :
    Throughout step P s es ↔ Along step C s es := by
  constructor
  · exact Throughout.along (H := fun _ _ => True) (fun s e t hs _ => hgood s e t hs)
      (fun s e t hs _ => hbad s e t hs) hI (along_of_forall (fun _ _ => trivial) s)
  · intro h
    exact (throughout_of_along hgood hI h).mono hIP

/-- **The equivalence rule.** In a run whose steps all satisfy `H`, two
conditions on steps that agree in every state of an invariant hold along
the run together, when the steps that satisfy them keep the invariant. -/
theorem along_iff_along {I : σ → Prop} {H C D : σ → ε → Prop}
    (hiff : ∀ s e t, I s → H s e → step s e = some t → (C s e ↔ D s e))
    (hstep : ∀ s e t, I s → H s e → C s e → step s e = some t → I t)
    {s : σ} {es : List ε} (hI : I s) (hH : Along step H s es) :
    Along step C s es ↔ Along step D s es := by
  induction es generalizing s with
  | nil => exact Iff.rfl
  | cons e es ih =>
      rw [along_cons, along_cons]
      constructor
      · intro h t ht
        obtain ⟨hC, hrest⟩ := h t ht
        obtain ⟨hH, hHrest⟩ := hH t ht
        exact ⟨(hiff s e t hI hH ht).mp hC, (ih (hstep s e t hI hH hC ht) hHrest).mp hrest⟩
      · intro h t ht
        obtain ⟨hD, hrest⟩ := h t ht
        obtain ⟨hH, hHrest⟩ := hH t ht
        have hC := (hiff s e t hI hH ht).mpr hD
        exact ⟨hC, (ih (hstep s e t hI hH hC ht) hHrest).mpr hrest⟩

/-! ## Passing through a state -/

/-- Some state the run passes through satisfies `P`. -/
def Visits (step : σ → ε → Option σ) (P : σ → Prop) (s : σ) (es : List ε) : Prop :=
  ∃ pre, pre <+: es ∧ ∃ t, exec step s pre = some t ∧ P t

theorem visits_of_exec {P : σ → Prop} {s t : σ} {es : List ε} (h : exec step s es = some t)
    (hP : P t) : Visits step P s es :=
  ⟨es, List.prefix_refl es, t, h, hP⟩

theorem Visits.append {P : σ → Prop} {s : σ} {es : List ε} (h : Visits step P s es)
    (fs : List ε) : Visits step P s (es ++ fs) := by
  obtain ⟨pre, hpre, hrest⟩ := h
  exact ⟨pre, hpre.trans (List.prefix_append es fs), hrest⟩

theorem exec_concat {s t u : σ} {es : List ε} {e : ε} (h : exec step s es = some t)
    (hstep : step t e = some u) : exec step s (es ++ [e]) = some u :=
  exec_append.mpr ⟨t, h, exec_cons.mpr ⟨u, hstep, rfl⟩⟩

/-! ## Simulation -/

/-- The events of another system that the steps of a run stand for: `f`
says which ones each step stands for, none or several. -/
def translate {ε' : Type*} (step : σ → ε → Option σ) (f : σ → ε → List ε') :
    σ → List ε → List ε'
  | _, [] => []
  | s, e :: es =>
      match step s e with
      | none => []
      | some t => f s e ++ translate step f t es

/-- **The simulation rule.** If every step satisfying `C` is matched by
the events it stands for, a run whose steps all satisfy `C` is. -/
theorem exec_simulates {τ ε' : Type*} {step' : τ → ε' → Option τ} {R : σ → τ → Prop}
    {C : σ → ε → Prop} {f : σ → ε → List ε'}
    (hstep : ∀ s e t a, R s a → C s e → step s e = some t →
      ∃ b, exec step' a (f s e) = some b ∧ R t b)
    {s t : σ} {a : τ} {es : List ε} (hR : R s a) (hC : Along step C s es)
    (h : exec step s es = some t) :
    ∃ b, exec step' a (translate step f s es) = some b ∧ R t b := by
  induction es generalizing s a with
  | nil =>
      cases h
      exact ⟨a, rfl, hR⟩
  | cons e es ih =>
      obtain ⟨u, hu, hut⟩ := exec_cons.mp h
      obtain ⟨hc, hrest⟩ := along_cons.mp hC u hu
      obtain ⟨b, hb, hRb⟩ := hstep s e u a hR hc hu
      obtain ⟨d, hd, hRd⟩ := ih hRb hrest hut
      refine ⟨d, ?_, hRd⟩
      simp only [translate, hu]
      exact exec_append.mpr ⟨b, hb, hd⟩

/-! ## Counting the steps that change an observation -/

/-- How many steps of the run change the observation `f`. -/
def changes {β : Type*} [DecidableEq β] (step : σ → ε → Option σ) (f : σ → β) :
    σ → List ε → Nat
  | _, [] => 0
  | s, e :: es =>
      match step s e with
      | none => 0
      | some t => (if f t = f s then 0 else 1) + changes step f t es

theorem changes_cons {β : Type*} [DecidableEq β] {f : σ → β} {s t : σ} {e : ε}
    (h : step s e = some t) (es : List ε) :
    changes step f s (e :: es) = (if f t = f s then 0 else 1) + changes step f t es := by
  simp [changes, h]

theorem changes_append {β : Type*} [DecidableEq β] {f : σ → β} {s t : σ} {es : List ε}
    (h : exec step s es = some t) (fs : List ε) :
    changes step f s (es ++ fs) = changes step f s es + changes step f t fs := by
  induction es generalizing s with
  | nil => cases h; simp [changes]
  | cons e es ih =>
      obtain ⟨u, hu, hut⟩ := exec_cons.mp h
      rw [List.cons_append, changes_cons hu, changes_cons hu, ih hut, Nat.add_assoc]

theorem changes_le_length {β : Type*} [DecidableEq β] (f : σ → β) (s : σ) (es : List ε) :
    changes step f s es ≤ es.length := by
  induction es generalizing s with
  | nil => exact Nat.zero_le _
  | cons e es ih =>
      rw [changes, List.length_cons]
      split
      · exact Nat.zero_le _
      · rename_i t _
        have htail := ih t
        split_ifs <;> omega

/-- **The counting rule.** An invariant that knows how often the
observation has changed, kept by every step as long as the count stays
below `N`. -/
theorem exec_counting {β : Type*} [DecidableEq β] {f : σ → β} {I : Nat → σ → Prop} {N : Nat}
    (hsame : ∀ n s e t, I n s → step s e = some t → f t = f s → I n t)
    (hchange : ∀ n s e t, I n s → n + 1 < N → step s e = some t → f t ≠ f s → I (n + 1) t)
    {n : Nat} {s t : σ} {es : List ε} (hI : I n s) (hN : n + changes step f s es < N)
    (h : exec step s es = some t) : I (n + changes step f s es) t := by
  induction es generalizing n s with
  | nil =>
      cases h
      exact hI
  | cons e es ih =>
      obtain ⟨u, hu, hut⟩ := exec_cons.mp h
      rw [changes_cons hu] at hN ⊢
      by_cases hf : f u = f s
      · rw [if_pos hf, Nat.zero_add] at hN ⊢
        exact ih (hsame n s e u hI hu hf) hN hut
      · rw [if_neg hf, ← Nat.add_assoc] at hN ⊢
        exact ih (hchange n s e u hI (by omega) hu hf) hN hut

end Trace
