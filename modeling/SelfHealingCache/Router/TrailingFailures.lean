import Mathlib.Data.List.Induction
import SelfHealingCache.Router.GossipOrder

/-!
# Health as a count of trailing failures

The monitor keeps a status and a wrapping `u32` counter per node and
escalates on both. Nothing of that shows from outside: what a node is
reported as depends on its OWN events since it was last marked, and of
those only on how many there are.

A run is read in two steps. `lookup_run` reduces it to the events of one
node, and `foldl_entryAfter` is the closed form of that one entry. The
counter wraps, but only after the node is Dead and the comparison with
the threshold is over.
-/

namespace SelfHealingCache

/-- The calls that change the monitor. -/
inductive HealthEvent where
  | markAlive (id : NodeId)
  | markJoining (id : NodeId)
  | recordFailure (id : NodeId)
  deriving DecidableEq

namespace HealthEvent

def node : HealthEvent → NodeId
  | markAlive id => id
  | markJoining id => id
  | recordFailure id => id

/-- The status a mark gives; a failure is not a mark. -/
def mark : HealthEvent → Option NodeHealth
  | markAlive _ => some .alive
  | markJoining _ => some .joining
  | recordFailure _ => none

theorem mark_cases (e : HealthEvent) :
    e.mark = none ∨ e.mark = some .alive ∨ e.mark = some .joining := by
  cases e <;> simp [mark]

/-! ## What is counted -/

/-- The events about one node, in order. -/
def ownEvents (id : NodeId) (events : List HealthEvent) : List HealthEvent :=
  events.filter (·.node = id)

theorem ownEvents_eq_nil {id : NodeId} {events : List HealthEvent} :
    ownEvents id events = [] ↔ ∀ e ∈ events, e.node ≠ id := by
  simp [ownEvents]

/-- The failures at the end of a list of events, back to the last mark. -/
def trailingFailures (own : List HealthEvent) : Nat :=
  (own.reverse.takeWhile (·.mark.isNone)).length

/-- What the last mark said. -/
def latestMark (own : List HealthEvent) : Option NodeHealth :=
  own.reverse.findSome? (·.mark)

theorem trailingFailures_snoc (own : List HealthEvent) (e : HealthEvent) :
    trailingFailures (own ++ [e]) = if e.mark.isNone then trailingFailures own + 1 else 0 := by
  rw [trailingFailures, List.reverse_append, List.reverse_singleton, List.singleton_append,
    List.takeWhile_cons]
  split_ifs
  · rfl
  · rfl

theorem latestMark_snoc (own : List HealthEvent) (e : HealthEvent) :
    latestMark (own ++ [e]) = e.mark.or (latestMark own) := by
  rw [latestMark, List.reverse_append, List.reverse_singleton, List.singleton_append,
    List.findSome?_cons]
  cases e.mark <;> rfl

theorem latestMark_cases (own : List HealthEvent) :
    latestMark own = none ∨ latestMark own = some .alive ∨ latestMark own = some .joining := by
  induction own using List.reverseRecOn with
  | nil => exact Or.inl rfl
  | append_singleton own e ih =>
      rw [latestMark_snoc]
      rcases e.mark_cases with hm | hm | hm
      · rw [hm, Option.none_or]
        exact ih
      · rw [hm]
        exact Or.inr (Or.inl rfl)
      · rw [hm]
        exact Or.inr (Or.inr rfl)

/-- No failure at the end and no mark anywhere: no event at all. -/
theorem eq_nil_of_latestMark {own : List HealthEvent} (hzero : trailingFailures own = 0)
    (hm : latestMark own = none) : own = [] := by
  induction own using List.reverseRecOn with
  | nil => rfl
  | append_singleton own e _ =>
      rw [trailingFailures_snoc] at hzero
      rw [latestMark_snoc, Option.or_eq_none_iff] at hm
      rw [hm.1] at hzero
      exact absurd hzero (Nat.succ_ne_zero _)

/-! ## One entry -/

/-- What an event about a node does to its entry. -/
def entryAfter (threshold : UInt32) (entry : Option NodeHealthEntry) (e : HealthEvent) :
    Option NodeHealthEntry :=
  match e.mark with
  | some status => some ⟨status, 0⟩
  | none => some (HealthMonitor.failed threshold (entry.getD ⟨.alive, 0⟩))

/-- The status after `n` failures: Suspect from the first, Dead from the
threshold but never before the second. -/
def escalated (threshold : UInt32) (n : Nat) : NodeHealth :=
  if n < max 2 threshold.toNat then .suspect else .dead

/-- The entry after a mark, if any, and `n` failures. -/
def entryOf (threshold : UInt32) (mark : Option NodeHealth) : Nat → Option NodeHealthEntry
  | 0 => mark.map (⟨·, 0⟩)
  | n + 1 => some ⟨escalated threshold (n + 1), UInt32.ofNat (n + 1)⟩

/-- The comparison with the threshold is one of numbers for as long as it
is made. -/
theorem threshold_le_iff {threshold : UInt32} {n : Nat} (h : n < max 2 threshold.toNat) :
    threshold ≤ UInt32.ofNat n + 1 ↔ threshold.toNat ≤ n + 1 := by
  have hbound := threshold.toNat_lt
  have hn : (UInt32.ofNat n).toNat = n :=
    UInt32.toNat_ofNat_of_lt' (show n < 2 ^ 32 by omega)
  have hnext : (UInt32.ofNat n + 1).toNat = (UInt32.ofNat n).toNat + 1 :=
    HealthMonitor.toNat_next threshold (by omega)
  rw [UInt32.le_iff_toNat_le, hnext, hn]

/-- **One more failure.** -/
theorem failed_entryOf (threshold : UInt32) {mark : Option NodeHealth}
    (hm : mark = none ∨ mark = some .alive ∨ mark = some .joining) (n : Nat) :
    some (HealthMonitor.failed threshold ((entryOf threshold mark n).getD ⟨.alive, 0⟩))
      = entryOf threshold mark (n + 1) := by
  cases n with
  | zero =>
      have hone : escalated threshold 1 = .suspect := by
        rw [escalated, if_pos (by omega)]
      rcases hm with rfl | rfl | rfl
      all_goals
        rw [entryOf, entryOf, hone]
        rfl
  | succ n =>
      have hcounter : UInt32.ofNat (n + 1) + 1 = UInt32.ofNat (n + 1 + 1) := by
        rw [UInt32.ofNat_add (n + 1) 1]
        rfl
      rw [entryOf, entryOf, Option.getD_some, ← hcounter, escalated, escalated]
      by_cases hsuspect : n + 1 < max 2 threshold.toNat
      · rw [if_pos hsuspect]
        show some (NodeHealthEntry.mk (if threshold ≤ UInt32.ofNat (n + 1) + 1 then _ else _) _) = _
        by_cases hle : threshold.toNat ≤ n + 1 + 1
        · rw [if_pos ((threshold_le_iff hsuspect).mpr hle), if_neg (by omega)]
        · rw [if_neg (hle ∘ (threshold_le_iff hsuspect).mp), if_pos (by omega)]
      · -- Dead already: the counter goes on, and may wrap
        rw [if_neg hsuspect, if_neg (by omega)]
        rfl

/-- **The closed form of one entry.** -/
theorem foldl_entryAfter (threshold : UInt32) (own : List HealthEvent) :
    own.foldl (entryAfter threshold) none
      = entryOf threshold (latestMark own) (trailingFailures own) := by
  induction own using List.reverseRecOn with
  | nil => rfl
  | append_singleton own e ih =>
      rw [List.foldl_append, List.foldl_cons, List.foldl_nil, ih, latestMark_snoc,
        trailingFailures_snoc, entryAfter]
      cases hm : e.mark with
      | none => exact failed_entryOf threshold (latestMark_cases own) _
      | some status => rfl

end HealthEvent

/-! ## Whole runs -/

namespace HealthMonitor

open HealthEvent

def step (h : HealthMonitor) : HealthEvent → HealthMonitor
  | .markAlive id => h.markAlive id
  | .markJoining id => h.markJoining id
  | .recordFailure id => h.recordFailure id

def run (h : HealthMonitor) (events : List HealthEvent) : HealthMonitor :=
  events.foldl step h

/-- No event changes the threshold. -/
theorem failureThreshold_step (h : HealthMonitor) (e : HealthEvent) :
    (h.step e).failureThreshold = h.failureThreshold := by
  cases e <;> rfl

/-- An event changes the entry of the node it is about and no other. -/
theorem lookup_step (h : HealthMonitor) (e : HealthEvent) (id : NodeId) :
    (h.step e).nodes.lookup id
      = if e.node = id then entryAfter h.failureThreshold (h.nodes.lookup id) e
        else h.nodes.lookup id := by
  by_cases he : e.node = id
  · rw [if_pos he, ← he]
    cases e with
    | markAlive j => exact (lookup_markAlive h j j).trans (if_pos rfl)
    | markJoining j => exact (lookup_markJoining h j j).trans (if_pos rfl)
    | recordFailure j => exact (lookup_recordFailure h j j).trans (if_pos rfl)
  · rw [if_neg he]
    cases e with
    | markAlive j => exact (lookup_markAlive h j id).trans (if_neg (Ne.symm he))
    | markJoining j => exact (lookup_markJoining h j id).trans (if_neg (Ne.symm he))
    | recordFailure j => exact (lookup_recordFailure h j id).trans (if_neg (Ne.symm he))

/-- What the monitor holds about a node is decided by the node's own events. -/
theorem lookup_run (h : HealthMonitor) (events : List HealthEvent) (id : NodeId) :
    (h.run events).nodes.lookup id
      = (ownEvents id events).foldl (entryAfter h.failureThreshold) (h.nodes.lookup id) := by
  induction events generalizing h with
  | nil => rfl
  | cons e events ih =>
      have hstep : h.run (e :: events) = (h.step e).run events := rfl
      rw [hstep, ih, failureThreshold_step, lookup_step, ownEvents, ownEvents, List.filter_cons]
      by_cases he : e.node = id
      · rw [if_pos he, if_pos (by simpa using he)]
        rfl
      · rw [if_neg he, if_neg (by simpa using he)]

/-- The entry of a node after a run from the empty monitor. -/
theorem lookup_run_new (threshold : UInt32) (events : List HealthEvent) (id : NodeId) :
    ((new.withFailureThreshold threshold).run events).nodes.lookup id
      = entryOf threshold (latestMark (ownEvents id events))
          (trailingFailures (ownEvents id events)) := by
  rw [lookup_run]
  exact foldl_entryAfter threshold (ownEvents id events)

/-- **Health is determined by trailing failures**, for every threshold
and every sequence of events: with none since the last mark the node is
as marked, then Suspect, and Dead from the threshold (or the second
failure) on, however many follow. A node is absent exactly when no event
is about it. -/
theorem allHealth_run (threshold : UInt32) (events : List HealthEvent) (id : NodeId) :
    ((new.withFailureThreshold threshold).run events).allHealth.lookup id
        = (if trailingFailures (ownEvents id events) = 0 then latestMark (ownEvents id events)
          else if trailingFailures (ownEvents id events) < max 2 threshold.toNat then
            some .suspect
          else some .dead)
      ∧ (((new.withFailureThreshold threshold).run events).allHealth.lookup id = none
          ↔ ∀ e ∈ events, e.node ≠ id) := by
  rw [lookup_allHealth, lookup_run_new, ← ownEvents_eq_nil]
  cases hn : trailingFailures (ownEvents id events) with
  | zero =>
      rw [if_pos rfl, entryOf, Option.map_map]
      have hmark : (latestMark (ownEvents id events)).map
          (NodeHealthEntry.health ∘ fun status => ⟨status, 0⟩)
          = latestMark (ownEvents id events) := Option.map_id' ..
      rw [hmark]
      refine ⟨rfl, eq_nil_of_latestMark hn, fun hnil => ?_⟩
      rw [hnil]
      rfl
  | succ n =>
      rw [if_neg (Nat.succ_ne_zero n), entryOf, Option.map_some, escalated]
      constructor
      · split_ifs
        · rfl
        · rfl
      · constructor
        · intro hnone
          exact absurd hnone (Option.some_ne_none _)
        · intro hnil
          rw [hnil] at hn
          exact absurd hn (Nat.succ_ne_zero n).symm

/-- The dead list after a run. -/
theorem mem_deadNodes_run {threshold : UInt32} {events : List HealthEvent} {id : NodeId} :
    id ∈ ((new.withFailureThreshold threshold).run events).deadNodes
      ↔ max 2 threshold.toNat ≤ trailingFailures (ownEvents id events) := by
  rw [mem_deadNodes, lookup_allHealth, lookup_run_new]
  cases trailingFailures (ownEvents id events) with
  | zero =>
      -- as marked, and nothing is ever marked Dead
      have hfew : ¬ max 2 threshold.toNat ≤ 0 := by omega
      rcases latestMark_cases (ownEvents id events) with hm | hm | hm
      all_goals simp [entryOf, hm, hfew]
  | succ n =>
      rw [entryOf, Option.map_some, escalated, ← Nat.not_lt]
      split_ifs with hlt
      · simp [hlt]
      · simp [hlt]

theorem run_snoc (h : HealthMonitor) (events : List HealthEvent) (e : HealthEvent) :
    h.run (events ++ [e]) = (h.run events).step e := by
  rw [run, run, List.foldl_append, List.foldl_cons, List.foldl_nil]

/-- Every reachable monitor is at the end of such a run. -/
theorem Reachable.exists_run {h : HealthMonitor} (hr : h.Reachable) :
    ∃ events, h = (HealthMonitor.new.withFailureThreshold 3).run events := by
  induction hr with
  | new => exact ⟨[], rfl⟩
  | markAlive id _ ih =>
      obtain ⟨events, rfl⟩ := ih
      refine ⟨events ++ [HealthEvent.markAlive id], ?_⟩
      rw [run_snoc]
      rfl
  | markJoining id _ ih =>
      obtain ⟨events, rfl⟩ := ih
      refine ⟨events ++ [HealthEvent.markJoining id], ?_⟩
      rw [run_snoc]
      rfl
  | recordFailure id _ ih =>
      obtain ⟨events, rfl⟩ := ih
      refine ⟨events ++ [HealthEvent.recordFailure id], ?_⟩
      rw [run_snoc]
      rfl

end HealthMonitor

/-- A running router's dead list, whatever it hears and however the
checker's heartbeats fall in between: three failures in a row. -/
theorem RouterSys.mem_deadNodes_exec {X : Crates} {monitored : List NodeId} {ring : HashRing}
    {es : List RouterEvent} {s : RouterSys}
    (hrun : Trace.exec (step X monitored) (start ⟨ring, .new⟩) es = some s) :
    ∃ events, ∀ id, id ∈ s.router.health.deadNodes
      ↔ 3 ≤ HealthEvent.trailingFailures (HealthEvent.ownEvents id events) := by
  obtain ⟨events, heq⟩ := (reachable_exec hrun).exists_run
  refine ⟨events, fun id => ?_⟩
  rw [heq, HealthMonitor.mem_deadNodes_run]
  rfl

end SelfHealingCache
