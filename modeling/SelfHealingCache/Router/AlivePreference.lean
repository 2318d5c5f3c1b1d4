import SelfHealingCache.Common.PreferenceOrder
import SelfHealingCache.Router.Coordinator

/-!
# Does the alive preference list fill up?

The comment in `alive_preference_list` says why it asks the ring for two
candidates more than it needs: to skip dead nodes and still fill up to
`replication_factor`. Two is a constant, so a third dead node among the
candidates leaves a gap, and a living node behind the candidates is never
considered. `alivePreferenceList_fillsUp_iff` is the exact condition; the
candidates are counted in the clockwise order of the key
(`HashRing.ClockwiseOrder`).
-/

namespace SelfHealingCache

section FillsUp

variable (X : Crates) (ring : HashRing) (health : HealthMonitor) (key : String)

/-- The routable nodes of the whole ring, in the clockwise order of a
key. -/
def routable : List NodeInfo :=
  (ring.prefOrder X key).filter fun n => health.isAlive n.id

/-- The list is the first routable nodes, as many as there are up to the
replication factor, and so empty only when there are none. -/
def FillsUp (cfg : ReplicationConfig) : Prop :=
  alivePreferenceList X cfg ring health key
      = (routable X ring health key).take
          (min cfg.replicationFactor (routable X ring health key).length)
    ∧ (alivePreferenceList X cfg ring health key = [] →
        ∀ n ∈ ring.prefOrder X key, health.isAlive n.id = false)

/-- Candidates the ring is asked for; it never returns fewer than one. -/
def ReplicationConfig.window (cfg : ReplicationConfig) : Nat := max cfg.extra 1

/-- Enough of the candidates are routable, or nobody behind them is. -/
def WindowSuffices (cfg : ReplicationConfig) : Prop :=
  cfg.replicationFactor
      ≤ (((ring.prefOrder X key).take cfg.window).filter fun n => health.isAlive n.id).length
    ∨ ∀ n ∈ (ring.prefOrder X key).drop cfg.window, health.isAlive n.id = false

variable {X ring health key}

theorem nil_of_take_routable {r : Nat} (hr : 1 ≤ r)
    (h : (routable X ring health key).take r = []) :
    ∀ n ∈ ring.prefOrder X key, health.isAlive n.id = false := by
  rw [List.take_eq_nil_iff] at h
  have hnone : routable X ring health key = [] := h.resolve_left (by omega)
  rw [routable, List.filter_eq_nil_iff] at hnone
  intro n hn
  simpa using hnone n hn

/-- **The list fills up exactly when the window suffices.** -/
theorem alivePreferenceList_fillsUp_iff {cfg : ReplicationConfig}
    (hr : 1 ≤ cfg.replicationFactor) :
    FillsUp X ring health key cfg ↔ WindowSuffices X ring health key cfg := by
  have htake : (routable X ring health key).take
      (min cfg.replicationFactor (routable X ring health key).length)
        = (routable X ring health key).take cfg.replicationFactor := by
    rw [← List.take_eq_take_min]
  rw [FillsUp, WindowSuffices, htake, alivePreferenceList_eq X hr,
    ← ReplicationConfig.window, routable, ← ListWalk.select_eq_take_filter]
  refine ⟨And.left, fun h => ⟨h, fun hnil => ?_⟩⟩
  rw [h] at hnil
  exact nil_of_take_routable hr hnil

end FillsUp

/-! ## A living node behind dead ones -/

open HashRing in
/-- Four members, in this order for the key `"key"`. -/
def fourRing : HashRing :=
  (withVnodeCount 1).addNodes (.hyphenated byteHash)
    [⟨⟨1⟩, "a"⟩, ⟨⟨2⟩, "b"⟩, ⟨⟨3⟩, "c"⟩, ⟨⟨4⟩, "d"⟩]

/-- Three failed heartbeats each. -/
def failedThrice (ids : List NodeId) : HealthMonitor :=
  ids.foldl (fun h id => ((h.recordFailure id).recordFailure id).recordFailure id) .new

theorem alivePreferenceList_fillsUp_iff_twoDead :
    FillsUp (.hyphenated HashRing.byteHash) fourRing (failedThrice [⟨1⟩, ⟨2⟩]) "key" ⟨1, 3⟩ :=
  (alivePreferenceList_fillsUp_iff (by decide)).mpr (.inl (by decide +kernel))

/-- With a third dead node the list is empty, though the fourth node
lives. -/
theorem not_fillsUp_threeDead :
    alivePreferenceList (.hyphenated HashRing.byteHash) ⟨1, 3⟩ fourRing
        (failedThrice [⟨1⟩, ⟨2⟩, ⟨3⟩]) "key" = []
      ∧ (failedThrice [⟨1⟩, ⟨2⟩, ⟨3⟩]).isAlive ⟨4⟩ = true
      ∧ ¬ FillsUp (.hyphenated HashRing.byteHash) fourRing
        (failedThrice [⟨1⟩, ⟨2⟩, ⟨3⟩]) "key" ⟨1, 3⟩ := by
  have hnil : alivePreferenceList (.hyphenated HashRing.byteHash) ⟨1, 3⟩ fourRing
      (failedThrice [⟨1⟩, ⟨2⟩, ⟨3⟩]) "key" = [] := by
    decide +kernel
  have halive : (failedThrice [⟨1⟩, ⟨2⟩, ⟨3⟩]).isAlive ⟨4⟩ = true := by decide
  refine ⟨hnil, halive, fun hfills => ?_⟩
  have hdead := hfills.2 hnil ⟨⟨4⟩, "d"⟩ (by decide +kernel)
  rw [halive] at hdead
  cases hdead

end SelfHealingCache
