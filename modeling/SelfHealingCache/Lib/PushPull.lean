import Mathlib.Data.Finset.Lattice.Fold
import Mathlib.Logic.Relation

/-!
# Push-pull gossip with refutation

Every node holds a row: an entry about each node, its own included. In an
exchange `a` pushes its row to `b` and `b` answers with its own. Entries
about third nodes are joined; about itself a node may answer what it
hears by raising its own entry (`refute`). A node contacts only those its
row allows it to (`contact`).

`Sound` says what a refutation must be good for: afterwards the own entry
is at least everything heard, and it may be contacted. Then two nodes
that talk twice agree, a group that agrees can be met through any one of
its members, and the result is `Gathers.heal`: nodes that can be gathered
into one group, by contacts between groups, can all be brought to agree.
`Separate` is the other side: two sides without a contact stay apart.
-/

namespace PushPull

structure Protocol (L : Type*) where
  /-- The own entry after a report about the node itself. -/
  refute : L → L → L
  /-- The node of this entry may be contacted. -/
  contact : L → Prop

variable {ι L : Type*} [DecidableEq ι] [SemilatticeSup L]

namespace Protocol

variable (P : Protocol L)

/-- What node `x` makes of a row it hears. -/
def mergeRow (x : ι) (mine theirs : ι → L) : ι → L :=
  fun w => if w = x then P.refute (mine x) (theirs x) else mine w ⊔ theirs w

/-- `a` pushes, `b` answers. -/
def exchange (V : ι → ι → L) (a b : ι) : ι → ι → L :=
  Function.update (Function.update V b (P.mergeRow b (V b) (V a))) a
    (P.mergeRow a (V a) (P.mergeRow b (V b) (V a)))

/-- An exchange between two of `R`, along a contact. -/
def Talk (R : Finset ι) (V V' : ι → ι → L) : Prop :=
  ∃ a ∈ R, ∃ b ∈ R, a ≠ b ∧ P.contact (V a b) ∧ V' = P.exchange V a b

/-- The row on which `a` and `b` agree once `a` has pushed twice. -/
def agreed (V : ι → ι → L) (a b : ι) : ι → L :=
  fun w => if w = a then P.refute (V a a) (V b a ⊔ V a a)
    else if w = b then P.refute (V b b) (V a b) else V a w ⊔ V b w

variable {P} {V : ι → ι → L} {a b w : ι}

@[simp] theorem mergeRow_self (x : ι) (mine theirs : ι → L) :
    P.mergeRow x mine theirs x = P.refute (mine x) (theirs x) := if_pos rfl

theorem mergeRow_of_ne {x : ι} (h : w ≠ x) (mine theirs : ι → L) :
    P.mergeRow x mine theirs w = mine w ⊔ theirs w := if_neg h

theorem agreed_left : P.agreed V a b a = P.refute (V a a) (V b a ⊔ V a a) := if_pos rfl

theorem agreed_right (h : a ≠ b) : P.agreed V a b b = P.refute (V b b) (V a b) := by
  rw [agreed, if_neg h.symm, if_pos rfl]

theorem agreed_of_ne (ha : w ≠ a) (hb : w ≠ b) : P.agreed V a b w = V a w ⊔ V b w := by
  rw [agreed, if_neg ha, if_neg hb]

end Protocol

/-! ## Sound refutations -/

/-- `own x` are the values node `x` may hold of itself, and `known x o`
those others may hold of it while it holds `o`. -/
structure Sound (P : Protocol L) (own : ι → Set L) (known : ι → L → Set L) : Prop where
  own_known : ∀ x, ∀ o, o ∈ known x o
  known_mono : ∀ x, ∀ o o', o ≤ o' → known x o ⊆ known x o'
  sup_known : ∀ x o, ∀ p ∈ known x o, ∀ q ∈ known x o, p ⊔ q ∈ known x o
  contact_own : ∀ x, ∀ o ∈ own x, P.contact o
  refute_own : ∀ x, ∀ o ∈ own x, ∀ h ∈ known x o, P.refute o h ∈ own x
  sup_le_refute : ∀ x, ∀ o ∈ own x, ∀ h ∈ known x o, o ⊔ h ≤ P.refute o h
  refute_of_le : ∀ x, ∀ o ∈ own x, ∀ h, h ≤ o → P.refute o h = o

/-- The rows of the nodes in `R` hold such values of each other. -/
structure Tame (own : ι → Set L) (known : ι → L → Set L) (R : Finset ι) (V : ι → ι → L) :
    Prop where
  own : ∀ x ∈ R, V x x ∈ own x
  known : ∀ a ∈ R, ∀ x ∈ R, V a x ∈ known x (V x x)

section Handshake

variable {P : Protocol L} {own : ι → Set L} {known : ι → L → Set L} {R : Finset ι}
  {V : ι → ι → L} {a b : ι}

theorem exchange_left : P.exchange V a b a
    = P.mergeRow a (V a) (P.mergeRow b (V b) (V a)) := Function.update_self ..

theorem exchange_right (hab : a ≠ b) : P.exchange V a b b = P.mergeRow b (V b) (V a) := by
  rw [Protocol.exchange, Function.update_of_ne hab.symm, Function.update_self]

theorem exchange_other {c : ι} (ha : c ≠ a) (hb : c ≠ b) : P.exchange V a b c = V c := by
  rw [Protocol.exchange, Function.update_of_ne ha, Function.update_of_ne hb]

/-- Both rows of an exchange replaced once more. -/
theorem update_exchange (D E : ι → L) :
    Function.update (Function.update (P.exchange V a b) b D) a E
      = Function.update (Function.update V b D) a E := by
  funext c
  by_cases ha : c = a
  · rw [ha, Function.update_self, Function.update_self]
  · rw [Function.update_of_ne ha, Function.update_of_ne ha]
    by_cases hb : c = b
    · rw [hb, Function.update_self, Function.update_self]
    · rw [Function.update_of_ne hb, Function.update_of_ne hb, exchange_other ha hb]

section Sound

variable (hS : Sound P own known) (hT : Tame own known R V) (ha : a ∈ R) (hb : b ∈ R) (hab : a ≠ b)

include hS hT ha hb

theorem agreed_left_own : P.agreed V a b a ∈ own a := by
  rw [Protocol.agreed_left]
  exact hS.refute_own a _ (hT.own a ha) _
    (hS.sup_known a _ _ (hT.known b hb a ha) _ (hT.known a ha a ha))

theorem sup_le_agreed_left : V b a ⊔ V a a ≤ P.agreed V a b a := by
  rw [Protocol.agreed_left]
  exact le_trans le_sup_right (hS.sup_le_refute a _ (hT.own a ha) _
    (hS.sup_known a _ _ (hT.known b hb a ha) _ (hT.known a ha a ha)))

include hab

theorem agreed_right_own : P.agreed V a b b ∈ own b := by
  rw [Protocol.agreed_right hab]
  exact hS.refute_own b _ (hT.own b hb) _ (hT.known a ha b hb)

theorem sup_le_agreed_right : V b b ⊔ V a b ≤ P.agreed V a b b := by
  rw [Protocol.agreed_right hab]
  exact hS.sup_le_refute b _ (hT.own b hb) _ (hT.known a ha b hb)

/-- Nothing is forgotten. -/
theorem sup_le_agreed : V a ⊔ V b ≤ P.agreed V a b := by
  intro w
  show V a w ⊔ V b w ≤ _
  by_cases hwa : w = a
  · rw [hwa, sup_comm]
    exact sup_le_agreed_left hS hT ha hb
  · by_cases hwb : w = b
    · rw [hwb, sup_comm]
      exact sup_le_agreed_right hS hT ha hb hab
    · rw [Protocol.agreed_of_ne hwa hwb]

/-- What `a` holds of `b` after the first exchange. -/
theorem exchange_left_right : P.exchange V a b a b = P.agreed V a b b := by
  rw [exchange_left, Protocol.mergeRow_of_ne hab.symm, Protocol.mergeRow_self,
    ← Protocol.agreed_right hab]
  exact sup_of_le_right (le_trans le_sup_right (sup_le_agreed_right hS hT ha hb hab))

/-- **Two exchanges make two nodes agree.** -/
theorem exchange_exchange :
    P.exchange (P.exchange V a b) a b
      = Function.update (Function.update V b (P.agreed V a b)) a (P.agreed V a b) := by
  have hself : ∀ x, ∀ o ∈ own x, P.refute o o = o := fun x o ho => hS.refute_of_le x o ho o le_rfl
  have hA : P.exchange V a b a a = P.agreed V a b a := by
    rw [exchange_left, Protocol.mergeRow_self, Protocol.mergeRow_of_ne hab, Protocol.agreed_left]
  have hB : P.exchange V a b b b = P.agreed V a b b := by
    rw [exchange_right hab, Protocol.mergeRow_self, Protocol.agreed_right hab]
  have hpulled : P.mergeRow b (P.exchange V a b b) (P.exchange V a b a) = P.agreed V a b := by
    funext w
    by_cases hwb : w = b
    · rw [hwb, Protocol.mergeRow_self, hB, exchange_left_right hS hT ha hb hab]
      exact hself b _ (agreed_right_own hS hT ha hb hab)
    · rw [Protocol.mergeRow_of_ne hwb, exchange_right hab, Protocol.mergeRow_of_ne hwb]
      by_cases hwa : w = a
      · rw [hwa, hA]
        exact sup_of_le_right (sup_le_agreed_left hS hT ha hb)
      · rw [exchange_left, Protocol.mergeRow_of_ne hwa, Protocol.mergeRow_of_ne hwb,
          Protocol.agreed_of_ne hwa hwb, sup_comm (V b w)]
        simp
  have hanswered : P.mergeRow a (P.exchange V a b a) (P.agreed V a b) = P.agreed V a b := by
    funext w
    by_cases hwa : w = a
    · rw [hwa, Protocol.mergeRow_self, hA]
      exact hself a _ (agreed_left_own hS hT ha hb)
    · rw [Protocol.mergeRow_of_ne hwa]
      by_cases hwb : w = b
      · rw [hwb, exchange_left_right hS hT ha hb hab, sup_idem]
      · rw [exchange_left, Protocol.mergeRow_of_ne hwa, Protocol.mergeRow_of_ne hwb,
          Protocol.agreed_of_ne hwa hwb, sup_comm (V b w)]
        simp
  rw [Protocol.exchange, hpulled, hanswered, update_exchange]

/-- The own entries after a handshake, at least what they were. -/
theorem le_own_agreed (x : ι) :
    V x x ≤ Function.update (Function.update V b (P.agreed V a b)) a (P.agreed V a b) x x := by
  by_cases hxa : x = a
  · rw [hxa, Function.update_self]
    exact le_trans le_sup_right (sup_le_agreed_left hS hT ha hb)
  · rw [Function.update_of_ne hxa]
    by_cases hxb : x = b
    · rw [hxb, Function.update_self]
      exact le_trans le_sup_left (sup_le_agreed_right hS hT ha hb hab)
    · rw [Function.update_of_ne hxb]

theorem Tame.agreed :
    Tame own known R
      (Function.update (Function.update V b (P.agreed V a b)) a (P.agreed V a b)) := by
  have hagreed : ∀ x ∈ R, P.agreed V a b x ∈ known x
      (Function.update (Function.update V b (P.agreed V a b)) a (P.agreed V a b) x x) := by
    intro x hx
    by_cases hxa : x = a
    · rw [hxa, Function.update_self]
      exact hS.own_known a _
    · rw [Function.update_of_ne hxa]
      by_cases hxb : x = b
      · rw [hxb, Function.update_self]
        exact hS.own_known b _
      · rw [Function.update_of_ne hxb, Protocol.agreed_of_ne hxa hxb]
        exact hS.sup_known x _ _ (hT.known a ha x hx) _ (hT.known b hb x hx)
  constructor
  · intro x hx
    by_cases hxa : x = a
    · rw [hxa, Function.update_self]
      exact agreed_left_own hS hT ha hb
    · rw [Function.update_of_ne hxa]
      by_cases hxb : x = b
      · rw [hxb, Function.update_self]
        exact agreed_right_own hS hT ha hb hab
      · rw [Function.update_of_ne hxb]
        exact hT.own x hx
  · intro c hc x hx
    by_cases hca : c = a
    · rw [hca, Function.update_self]
      exact hagreed x hx
    · rw [Function.update_of_ne hca]
      by_cases hcb : c = b
      · rw [hcb, Function.update_self]
        exact hagreed x hx
      · rw [Function.update_of_ne hcb]
        exact hS.known_mono x _ _ (le_own_agreed hS hT ha hb hab x) (hT.known c hc x hx)

/-- A handshake: two exchanges along one contact. -/
theorem handshake (hcontact : P.contact (V a b)) :
    ∃ V', Relation.ReflTransGen (P.Talk R) V V' ∧ Tame own known R V'
      ∧ V' a = P.agreed V a b ∧ V' b = P.agreed V a b ∧ ∀ c, c ≠ a → c ≠ b → V' c = V c := by
  refine ⟨_, ?_, hT.agreed hS ha hb hab, Function.update_self .., ?_, ?_⟩
  · rw [← exchange_exchange hS hT ha hb hab]
    refine .tail (.single ⟨a, ha, b, hb, hab, hcontact, rfl⟩) ⟨a, ha, b, hb, hab, ?_, rfl⟩
    rw [exchange_left_right hS hT ha hb hab]
    exact hS.contact_own b _ (agreed_right_own hS hT ha hb hab)
  · rw [Function.update_of_ne hab.symm, Function.update_self]
  · intro c hca hcb
    rw [Function.update_of_ne hca, Function.update_of_ne hcb]

end Sound

end Handshake

/-! ## A hub -/

section Hub

variable {P : Protocol L} {own : ι → Set L} {known : ι → L → Set L} {R : Finset ι}
  {V : ι → ι → L} {u : ι}

/-- What `g` and a hub that knows more agree on: the hub's row, with the
own entry of `g` renewed. -/
theorem agreed_of_le (hS : Sound P own known) (hT : Tame own known R V) {g : ι} (hu : u ∈ R)
    (hgu : g ≠ u) (hle : V g ≤ V u) {w : ι} (hw : w ≠ g) : P.agreed V g u w = V u w := by
  by_cases hwu : w = u
  · rw [hwu, Protocol.agreed_right hgu]
    exact hS.refute_of_le u _ (hT.own u hu) _ (hle u)
  · rw [Protocol.agreed_of_ne hw hwu]
    exact sup_of_le_right (hle w)

/-- **A hub takes in** nodes that know less than it and may contact it:
afterwards it has their renewed own entries, and they all know at least
what it knew. -/
theorem absorb (hS : Sound P own known) (hu : u ∈ R) {s : Finset ι} (hs : s ⊆ R) (hus : u ∉ s)
    (hT : Tame own known R V) (hle : ∀ g ∈ s, V g ≤ V u) (hcontact : ∀ g ∈ s, V g u ∈ own u) :
    ∃ V', Relation.ReflTransGen (P.Talk R) V V' ∧ Tame own known R V'
      ∧ (∀ c, c ≠ u → c ∉ s → V' c = V c) ∧ V u ≤ V' u ∧ (∀ w, w ∉ s → V' u w = V u w)
      ∧ ∀ g ∈ s, V u ≤ V' g ∧ V' g ≤ V' u ∧ V' g g = V' u g := by
  induction s using Finset.induction_on generalizing V with
  | empty => exact ⟨V, .refl, hT, fun _ _ _ => rfl, le_rfl, fun _ _ => rfl, by simp⟩
  | insert g s hg ih =>
      rw [Finset.mem_insert, not_or] at hus
      rw [Finset.insert_subset_iff] at hs
      rw [Finset.forall_mem_insert] at hle hcontact
      have hgu : g ≠ u := fun h => hus.1 h.symm
      obtain ⟨V₁, hreach₁, hT₁, hV₁g, hV₁u, hV₁⟩ :=
        handshake hS hT hs.1 hu hgu (hS.contact_own u _ hcontact.1)
      have hgrow : V u ≤ V₁ u := by
        rw [hV₁u]
        exact le_trans le_sup_right (sup_le_agreed hS hT hs.1 hu hgu)
      have hkeep : ∀ w, w ≠ g → V₁ u w = V u w := by
        intro w hw
        rw [hV₁u]
        exact agreed_of_le hS hT hu hgu hle.1 hw
      have hrest : ∀ c ∈ s, V₁ c = V c := by
        intro c hc
        exact hV₁ c (ne_of_mem_of_not_mem hc hg) (ne_of_mem_of_not_mem hc hus.2)
      obtain ⟨V', hreach, hT', hframe, hup, hsame, hall⟩ :=
        ih hs.2 hus.2 hT₁
          (fun c hc => by
            rw [hrest c hc]
            exact le_trans (hle.2 c hc) hgrow)
          (fun c hc => by
            rw [hrest c hc]
            exact hcontact.2 c hc)
      refine ⟨V', hreach₁.trans hreach, hT', ?_, le_trans hgrow hup, ?_, ?_⟩
      · intro c hcu hc
        rw [Finset.mem_insert, not_or] at hc
        rw [hframe c hcu hc.2, hV₁ c hc.1 hcu]
      · intro w hw
        rw [Finset.mem_insert, not_or] at hw
        rw [hsame w hw.2, hkeep w hw.1]
      · rw [Finset.forall_mem_insert]
        have hrow : V' g = V₁ u := by rw [hframe g hgu hg, hV₁g, hV₁u]
        refine ⟨?_, fun c hc => ⟨le_trans hgrow (hall c hc).1, (hall c hc).2⟩⟩
        rw [hrow, hsame g hg]
        exact ⟨hgrow, hup, rfl⟩

/-- One exchange brings `g` up to the hub, when the hub has its own
entry. -/
theorem exchange_of_le (hS : Sound P own known) (hT : Tame own known R V) {g : ι} (hu : u ∈ R)
    (hg : g ∈ R) (hle : V g ≤ V u) (hown : V g g = V u g) :
    P.exchange V g u = Function.update V g (V u) := by
  have hpushed : P.mergeRow u (V u) (V g) = V u := by
    funext w
    by_cases hw : w = u
    · rw [hw, Protocol.mergeRow_self]
      exact hS.refute_of_le u _ (hT.own u hu) _ (hle u)
    · rw [Protocol.mergeRow_of_ne hw]
      exact sup_of_le_left (hle w)
  have hanswered : P.mergeRow g (V g) (V u) = V u := by
    funext w
    by_cases hw : w = g
    · rw [hw, Protocol.mergeRow_self, ← hown]
      exact hS.refute_of_le g _ (hT.own g hg) _ le_rfl
    · rw [Protocol.mergeRow_of_ne hw]
      exact sup_of_le_right (hle w)
  rw [Protocol.exchange, hpushed, hanswered, Function.update_eq_self]

omit [SemilatticeSup L] in
theorem Tame.passOn (hT : Tame own known R V) {g : ι} (hu : u ∈ R) (hg : g ∈ R)
    (hown : V g g = V u g) : Tame own known R (Function.update V g (V u)) := by
  constructor
  · intro x hx
    by_cases hxg : x = g
    · rw [hxg, Function.update_self, ← hown]
      exact hT.own g hg
    · rw [Function.update_of_ne hxg]
      exact hT.own x hx
  · intro c hc x hx
    have hself : Function.update V g (V u) x x = V x x := by
      by_cases hxg : x = g
      · rw [hxg, Function.update_self, hown]
      · rw [Function.update_of_ne hxg]
    rw [hself]
    by_cases hcg : c = g
    · rw [hcg, Function.update_self]
      exact hT.known u hu x hx
    · rw [Function.update_of_ne hcg]
      exact hT.known c hc x hx

/-- **A hub passes on** its row to nodes that know less, and whose own
entries it has. -/
theorem passOn (hS : Sound P own known) (hu : u ∈ R) {s : Finset ι} (hs : s ⊆ R) (hus : u ∉ s)
    (hT : Tame own known R V)
    (hrows : ∀ g ∈ s, V g ≤ V u ∧ V g u ∈ own u ∧ V g g = V u g) :
    ∃ V', Relation.ReflTransGen (P.Talk R) V V' ∧ Tame own known R V'
      ∧ (∀ c, c ∉ s → V' c = V c) ∧ ∀ g ∈ s, V' g = V u := by
  induction s using Finset.induction_on generalizing V with
  | empty => exact ⟨V, .refl, hT, fun _ _ => rfl, by simp⟩
  | insert g s hg ih =>
      rw [Finset.mem_insert, not_or] at hus
      rw [Finset.insert_subset_iff] at hs
      rw [Finset.forall_mem_insert] at hrows
      obtain ⟨⟨hle, hcontact, hown⟩, hrows⟩ := hrows
      have hstep : P.Talk R V (Function.update V g (V u)) :=
        ⟨g, hs.1, u, hu, fun h => hus.1 h.symm, hS.contact_own u _ hcontact,
          (exchange_of_le hS hT hu hs.1 hle hown).symm⟩
      have hhub : Function.update V g (V u) u = V u := Function.update_of_ne hus.1 _ _
      obtain ⟨V', hreach, hT', hframe, hall⟩ :=
        ih hs.2 hus.2 (hT.passOn hu hs.1 hown) fun c hc => by
          rw [Function.update_of_ne (ne_of_mem_of_not_mem hc hg), hhub]
          exact hrows c hc
      refine ⟨V', .head hstep hreach, hT', ?_, ?_⟩
      · intro c hc
        rw [Finset.mem_insert, not_or] at hc
        rw [hframe c hc.2, Function.update_of_ne hc.1]
      · rw [Finset.forall_mem_insert]
        refine ⟨?_, fun c hc => by rw [hall c hc, hhub]⟩
        rw [hframe g hg, Function.update_self]

end Hub

/-! ## Groups -/

section Groups

variable {P : Protocol L} {own : ι → Set L} {known : ι → L → Set L} {R : Finset ι} {V : ι → ι → L}

/-- `u` knows what `M` says, with the renewed own entries of its group
`G`, and everyone in the group knows something between the two. -/
structure Hub (V : ι → ι → L) (M : ι → L) (G : Finset ι) (u : ι) : Prop where
  mem : u ∈ G
  le : M ≤ V u
  keep : ∀ w, w ∉ G.erase u → V u w = M w
  rows : ∀ g ∈ G.erase u, M ≤ V g ∧ V g ≤ V u ∧ V g g = V u g

theorem Hub.self {M : ι → L} {G : Finset ι} {u : ι} (h : Hub V M G u) : V u u = M u :=
  h.keep u (Finset.notMem_erase u G)

theorem Hub.outside {M : ι → L} {G : Finset ι} {u w : ι} (h : Hub V M G u) (hw : w ∉ G) :
    V u w = M w :=
  h.keep w fun hmem => hw (Finset.mem_of_mem_erase hmem)

/-- What somebody of the group knows of an outsider, or of the hub. -/
theorem Hub.row {M : ι → L} {G : Finset ι} {u g w : ι} (h : Hub V M G u) (hg : g ∈ G.erase u)
    (hw : V u w = M w) : V g w = M w := by
  obtain ⟨hlow, hhigh, _⟩ := h.rows g hg
  exact le_antisymm (le_trans (hhigh w) (le_of_eq hw)) (hlow w)

/-- A hub stays one while nobody in the group learns anything. -/
theorem Hub.congr {V' : ι → ι → L} {M : ι → L} {G : Finset ι} {u : ι} (h : Hub V M G u)
    (hrows : ∀ g ∈ G, V' g = V g) : Hub V' M G u := by
  refine ⟨h.mem, ?_, ?_, ?_⟩
  · rw [hrows u h.mem]
    exact h.le
  · rw [hrows u h.mem]
    exact h.keep
  · intro g hg
    rw [hrows u h.mem, hrows g (Finset.mem_of_mem_erase hg)]
    exact h.rows g hg

/-- Two hubs that started from the same row meet and pass on what they
have gathered. -/
theorem join_hubs (hS : Sound P own known) (hT : Tame own known R V) {G H : Finset ι}
    (hG : G ⊆ R) (hH : H ⊆ R) (hdisj : Disjoint G H) {M : ι → L} {a y : ι} (ha : Hub V M G a)
    (hy : Hub V M H y) :
    ∃ V' E, Relation.ReflTransGen (P.Talk R) V V' ∧ Tame own known R V'
      ∧ (∀ c ∈ G ∪ H, V' c = E) ∧ (∀ c, c ∉ G ∪ H → V' c = V c)
      ∧ ∀ w, w ∉ G ∪ H → E w = M w := by
  have hGH : ∀ g ∈ G, g ∉ H := fun _ hg => Finset.disjoint_left.mp hdisj hg
  have hHG : ∀ h ∈ H, h ∉ G := fun _ hh => Finset.disjoint_right.mp hdisj hh
  have hay : a ≠ y := ne_of_mem_of_not_mem ha.mem (hHG y hy.mem)
  have haR := hG ha.mem
  have hyR := hH hy.mem
  have hya : V y a = M a := hy.outside (hGH a ha.mem)
  have haOwn : M a ∈ own a := by
    rw [← ha.self]
    exact hT.own a haR
  have hyOwn : M y ∈ own y := by
    rw [← hy.self]
    exact hT.own y hyR
  obtain ⟨V₁, hreach₁, hT₁, hV₁a, hV₁y, hV₁⟩ := handshake hS hT haR hyR hay
    (by rw [ha.outside (hHG y hy.mem)]; exact hS.contact_own y _ hyOwn)
  have hE : V a ⊔ V y ≤ V₁ a := by
    rw [hV₁a]
    exact sup_le_agreed hS hT haR hyR hay
  have hEa : V₁ a a = M a := by
    rw [hV₁a, Protocol.agreed_left, hya, ha.self, sup_idem]
    exact hS.refute_of_le a _ haOwn _ le_rfl
  have hEw : ∀ w, w ≠ a → w ≠ y → V₁ a w = V a w ⊔ V y w := by
    intro w hwa hwy
    rw [hV₁a, Protocol.agreed_of_ne hwa hwy]
  -- everyone else of the two groups knows less than the hubs do now, and may contact `a`
  have hready : ∀ c ∈ (G ∪ H).erase a, V₁ c ≤ V₁ a ∧ V₁ c a ∈ own a ∧ V₁ c c = V₁ a c := by
    intro c hc
    obtain ⟨hca, hc⟩ := Finset.mem_erase.mp hc
    rcases Finset.mem_union.mp hc with hc | hc
    · have hcG : c ∈ G.erase a := Finset.mem_erase.mpr ⟨hca, hc⟩
      have hcy : c ≠ y := ne_of_mem_of_not_mem hc (hHG y hy.mem)
      obtain ⟨_, hhigh, hown⟩ := ha.rows c hcG
      rw [hV₁ c hca hcy, ha.row hcG ha.self, hown, hEw c hca hcy, hy.outside (hGH c hc)]
      exact ⟨le_trans hhigh (le_trans le_sup_left hE), haOwn, (sup_of_le_left (ha.le c)).symm⟩
    · by_cases hcy : c = y
      · rw [hcy, hV₁y, ← hV₁a, hEa]
        exact ⟨le_rfl, haOwn, rfl⟩
      · have hcH : c ∈ H.erase y := Finset.mem_erase.mpr ⟨hcy, hc⟩
        obtain ⟨_, hhigh, hown⟩ := hy.rows c hcH
        rw [hV₁ c hca hcy, hy.row hcH hya, hown, hEw c hca hcy, ha.outside (hHG c hc)]
        exact ⟨le_trans hhigh (le_trans le_sup_right hE), haOwn,
          (sup_of_le_right (hy.le c)).symm⟩
  obtain ⟨V', hreach, hT', hframe, hall⟩ :=
    passOn hS haR (fun c hc => Finset.union_subset hG hH (Finset.mem_of_mem_erase hc))
      (Finset.notMem_erase a (G ∪ H)) hT₁ hready
  refine ⟨V', V₁ a, hreach₁.trans hreach, hT', ?_, ?_, ?_⟩
  · intro c hc
    by_cases hca : c = a
    · rw [hca, hframe a (Finset.notMem_erase a _)]
    · exact hall c (Finset.mem_erase.mpr ⟨hca, hc⟩)
  · intro c hc
    rw [hframe c fun hmem => hc (Finset.mem_of_mem_erase hmem)]
    rw [Finset.mem_union, not_or] at hc
    exact hV₁ c (ne_of_mem_of_not_mem ha.mem hc.1).symm (ne_of_mem_of_not_mem hy.mem hc.2).symm
  · intro w hw
    rw [Finset.mem_union, not_or] at hw
    rw [hEw w (ne_of_mem_of_not_mem ha.mem hw.1).symm (ne_of_mem_of_not_mem hy.mem hw.2).symm,
      ha.outside hw.1, hy.outside hw.2, sup_idem]

/-- The rest of a group that agrees on `C` comes to a hub that has heard
more. -/
theorem absorb_group (hS : Sound P own known) (hT : Tame own known R V) {G : Finset ι}
    (hG : G ⊆ R) {C : ι → L} {u : ι} (hu : u ∈ G) (hrows : ∀ g ∈ G.erase u, V g = C)
    (hC : C ≤ V u) (hown : C u ∈ own u) :
    ∃ V', Relation.ReflTransGen (P.Talk R) V V' ∧ Tame own known R V'
      ∧ (∀ c, c ∉ G → V' c = V c) ∧ Hub V' (V u) G u := by
  obtain ⟨V', hreach, hT', hframe, hup, hkeep, hall⟩ :=
    absorb hS (hG hu) (fun g hg => hG (Finset.mem_of_mem_erase hg)) (Finset.notMem_erase u G) hT
      (fun g hg => by rw [hrows g hg]; exact hC) (fun g hg => by rw [hrows g hg]; exact hown)
  refine ⟨V', hreach, hT', fun c hc => ?_, hu, hup, hkeep, hall⟩
  exact hframe c (ne_of_mem_of_not_mem hu hc).symm fun hmem => hc (Finset.mem_of_mem_erase hmem)

/-- **Two groups that agree each within itself become one**, when one of
them may contact somebody of the other. The contact and its target are
the hubs of their groups. -/
theorem join_groups (hS : Sound P own known) (hT : Tame own known R V) {G H : Finset ι}
    (hG : G ⊆ R) (hH : H ⊆ R) (hdisj : Disjoint G H) {C D : ι → L} (hC : ∀ g ∈ G, V g = C)
    (hD : ∀ h ∈ H, V h = D) {a y : ι} (ha : a ∈ G) (hy : y ∈ H) (hcontact : P.contact (C y)) :
    ∃ V' E, Relation.ReflTransGen (P.Talk R) V V' ∧ Tame own known R V'
      ∧ (∀ c ∈ G ∪ H, V' c = E) ∧ (∀ c, c ∉ G ∪ H → V' c = V c)
      ∧ ∀ w, w ∉ G ∪ H → E w = C w ⊔ D w := by
  have hGH : ∀ g ∈ G, g ∉ H := fun _ hg => Finset.disjoint_left.mp hdisj hg
  have hHG : ∀ h ∈ H, h ∉ G := fun _ hh => Finset.disjoint_right.mp hdisj hh
  have hay : a ≠ y := ne_of_mem_of_not_mem ha (hHG y hy)
  have hyG : y ∉ G := hHG y hy
  -- the hubs meet
  obtain ⟨V₁, hreach₁, hT₁, hV₁a, hV₁y, hV₁⟩ :=
    handshake hS hT (hG ha) (hH hy) hay (by rw [hC a ha]; exact hcontact)
  have hM : C ⊔ D ≤ V₁ a := by
    rw [hV₁a, ← hC a ha, ← hD y hy]
    exact sup_le_agreed hS hT (hG ha) (hH hy) hay
  have hMw : ∀ w, w ≠ a → w ≠ y → V₁ a w = C w ⊔ D w := by
    intro w hwa hwy
    rw [hV₁a, Protocol.agreed_of_ne hwa hwy, hC a ha, hD y hy]
  have hrowG : ∀ g ∈ G.erase a, V₁ g = C := by
    intro g hg
    obtain ⟨hga, hg⟩ := Finset.mem_erase.mp hg
    rw [hV₁ g hga (ne_of_mem_of_not_mem hg hyG), hC g hg]
  have hrowH : ∀ h ∈ H.erase y, V₁ h = D := by
    intro h hh
    obtain ⟨hhy, hh⟩ := Finset.mem_erase.mp hh
    rw [hV₁ h (ne_of_mem_of_not_mem hh (hGH a ha)) hhy, hD h hh]
  -- each hub takes in its own group
  obtain ⟨V₂, hreach₂, hT₂, hframe₂, hhub₂⟩ :=
    absorb_group hS hT₁ hG ha hrowG (le_trans le_sup_left hM)
      (by rw [← hC a ha]; exact hT.own a (hG ha))
  have hV₂y : V₂ y = V₁ a := by rw [hframe₂ y hyG, hV₁y, hV₁a]
  obtain ⟨V₃, hreach₃, hT₃, hframe₃, hhub₃⟩ :=
    absorb_group hS hT₂ hH hy
      (fun h hh => by rw [hframe₂ h (hHG h (Finset.mem_of_mem_erase hh)), hrowH h hh])
      (by rw [hV₂y]; exact le_trans le_sup_right hM)
      (by rw [← hD y hy]; exact hT.own y (hH hy))
  rw [hV₂y] at hhub₃
  have hhub₂' : Hub V₃ (V₁ a) G a := hhub₂.congr fun g hg => hframe₃ g (hGH g hg)
  -- and they meet again
  obtain ⟨V', E, hreach, hT', hall, hframe, hE⟩ := join_hubs hS hT₃ hG hH hdisj hhub₂' hhub₃
  refine ⟨V', E, ((hreach₁.trans hreach₂).trans hreach₃).trans hreach, hT', hall, ?_, ?_⟩
  · intro c hc
    rw [hframe c hc]
    rw [Finset.mem_union, not_or] at hc
    rw [hframe₃ c hc.2, hframe₂ c hc.1]
    exact hV₁ c (ne_of_mem_of_not_mem ha hc.1).symm (ne_of_mem_of_not_mem hy hc.2).symm
  · intro w hw
    rw [hE w hw]
    rw [Finset.mem_union, not_or] at hw
    exact hMw w (ne_of_mem_of_not_mem ha hw.1).symm (ne_of_mem_of_not_mem hy hw.2).symm

/-! ## Gathering -/

section Gather

variable [OrderBot L]

/-- Groups that can be put together from single nodes: what one group
holds of somebody in the other, all its members taken together, allows
the contact. -/
inductive Gathers (P : Protocol L) (V : ι → ι → L) : Finset ι → Prop where
  | single (x : ι) : Gathers P V {x}
  | join {G H : Finset ι} {y : ι} (hG : Gathers P V G) (hH : Gathers P V H)
      (hdisj : Disjoint G H) (hy : y ∈ H) (hcontact : P.contact (G.sup fun g => V g y)) :
      Gathers P V (G ∪ H)

/-- Two nodes gather along a contact. -/
theorem Gathers.pair {a b : ι} (hab : a ≠ b) (h : P.contact (V a b)) : Gathers P V {a, b} := by
  refine .join (.single a) (.single b) (Finset.disjoint_singleton.mpr hab)
    (Finset.mem_singleton_self b) ?_
  rw [Finset.sup_singleton]
  exact h

theorem Gathers.nonempty {G : Finset ι} (h : Gathers P V G) : G.Nonempty := by
  induction h with
  | single x => exact Finset.singleton_nonempty x
  | join _ _ _ _ _ ih _ => exact ih.mono Finset.subset_union_left

/-- A group that can be gathered can be brought to agree, without anyone
else noticing. -/
theorem Gathers.agree {V₀ : ι → ι → L} {G : Finset ι} (h : Gathers P V₀ G)
    (hS : Sound P own known) (hG : G ⊆ R) (hT : Tame own known R V) (hV : ∀ g ∈ G, V g = V₀ g) :
    ∃ V' C, Relation.ReflTransGen (P.Talk R) V V' ∧ Tame own known R V' ∧ (∀ g ∈ G, V' g = C)
      ∧ (∀ c, c ∉ G → V' c = V c) ∧ ∀ w, w ∉ G → C w = G.sup fun g => V₀ g w := by
  induction h generalizing V with
  | single x =>
      refine ⟨V, V₀ x, .refl, hT, ?_, fun _ _ => rfl, fun w _ => ?_⟩
      · intro g hg
        rw [hV g hg, Finset.mem_singleton.mp hg]
      · rw [Finset.sup_singleton]
  | @join G H y hGgather _ hdisj hy hcontact ihG ihH =>
      have hGH : ∀ g ∈ G, g ∉ H := fun _ hg => Finset.disjoint_left.mp hdisj hg
      have hHG : ∀ h ∈ H, h ∉ G := fun _ hh => Finset.disjoint_right.mp hdisj hh
      obtain ⟨hGR, hHR⟩ := Finset.union_subset_iff.mp hG
      obtain ⟨V₁, C, hreach₁, hT₁, hC, hframe₁, hCw⟩ :=
        ihG hGR hT fun g hg => hV g (Finset.mem_union_left _ hg)
      obtain ⟨V₂, D, hreach₂, hT₂, hD, hframe₂, hDw⟩ :=
        ihH hHR hT₁ fun h hh => by
          rw [hframe₁ h (hHG h hh), hV h (Finset.mem_union_right _ hh)]
      obtain ⟨a, ha⟩ := hGgather.nonempty
      obtain ⟨V', E, hreach, hT', hE, hframe, hEw⟩ :=
        join_groups hS hT₂ hGR hHR hdisj (fun g hg => by rw [hframe₂ g (hGH g hg), hC g hg]) hD
          ha hy (by rw [hCw y (hHG y hy)]; exact hcontact)
      refine ⟨V', E, (hreach₁.trans hreach₂).trans hreach, hT', hE, ?_, ?_⟩
      · intro c hc
        rw [hframe c hc]
        rw [Finset.mem_union, not_or] at hc
        rw [hframe₂ c hc.2, hframe₁ c hc.1]
      · intro w hw
        rw [hEw w hw]
        rw [Finset.mem_union, not_or] at hw
        rw [hCw w hw.1, hDw w hw.2, Finset.sup_union]

/-- **Nodes that can be gathered can be brought to hold each other's own
entries.** -/
theorem Gathers.heal (h : Gathers P V R) (hS : Sound P own known) (hT : Tame own known R V) :
    ∃ V', Relation.ReflTransGen (P.Talk R) V V' ∧ ∀ a ∈ R, ∀ b ∈ R, V' a b ∈ own b := by
  obtain ⟨V', C, hreach, hT', hC, _⟩ := h.agree hS (Finset.Subset.refl R) hT fun _ _ => rfl
  refine ⟨V', hreach, fun a ha b hb => ?_⟩
  rw [hC a ha, ← hC b hb]
  exact hT'.own b hb

end Gather

end Groups

/-! ## Staying apart -/

/-- Nobody on either side may contact anybody on the other. -/
def Separate (P : Protocol L) (V : ι → ι → L) (G H : Finset ι) : Prop :=
  ∀ g ∈ G, ∀ h ∈ H, ¬ P.contact (V g h) ∧ ¬ P.contact (V h g)

omit [DecidableEq ι] [SemilatticeSup L] in
theorem Separate.symm {P : Protocol L} {V : ι → ι → L} {G H : Finset ι}
    (h : Separate P V G H) : Separate P V H G :=
  fun y hy g hg => (h g hg y hy).symm

omit [DecidableEq ι] [SemilatticeSup L] in
theorem separate_singleton {P : Protocol L} {V : ι → ι → L} {a b : ι} :
    Separate P V {a} {b} ↔ ¬ P.contact (V a b) ∧ ¬ P.contact (V b a) := by
  simp [Separate]

/-- **Talk on one side brings no contact with the other.** -/
theorem Separate.exchange {P : Protocol L}
    (hsup : ∀ p q, ¬ P.contact p → ¬ P.contact q → ¬ P.contact (p ⊔ q)) {V : ι → ι → L}
    {G H : Finset ι} (hdisj : Disjoint G H) (h : Separate P V G H) {a b : ι} (ha : a ∈ G)
    (hb : b ∈ G) (hab : a ≠ b) : Separate P (P.exchange V a b) G H := by
  have hHG : ∀ y ∈ H, y ∉ G := fun _ hy => Finset.disjoint_right.mp hdisj hy
  intro g hg y hy
  have hya : y ≠ a := (ne_of_mem_of_not_mem ha (hHG y hy)).symm
  have hyb : y ≠ b := (ne_of_mem_of_not_mem hb (hHG y hy)).symm
  rw [exchange_other hya hyb]
  refine ⟨?_, (h g hg y hy).2⟩
  have hpushed : ¬ P.contact (P.mergeRow b (V b) (V a) y) := by
    rw [Protocol.mergeRow_of_ne hyb]
    exact hsup _ _ (h b hb y hy).1 (h a ha y hy).1
  by_cases hga : g = a
  · rw [hga, exchange_left, Protocol.mergeRow_of_ne hya]
    exact hsup _ _ (h a ha y hy).1 hpushed
  · by_cases hgb : g = b
    · rw [hgb, exchange_right hab]
      exact hpushed
    · rw [exchange_other hga hgb]
      exact (h g hg y hy).1

end PushPull
