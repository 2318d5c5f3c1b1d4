import SelfHealingCache.Common.NodeId
import SelfHealingCache.Lib.Assoc

/-!
# The router's health monitor

`crates/router/src/health/mod.rs`. One entry a node: a status and a
`u32` counter of consecutive failures that wraps. `last_checked` is
written and read by nobody and is left out.

"Routable" (`isAlive`) means Alive, Suspect or UNKNOWN; Dead and Joining
are not.
-/

namespace SelfHealingCache

inductive NodeHealth where
  | alive
  | suspect
  | dead
  | joining
  deriving DecidableEq

structure NodeHealthEntry where
  health : NodeHealth
  consecutiveFailures : UInt32
  deriving DecidableEq

structure HealthMonitor where
  nodes : Assoc NodeId NodeHealthEntry
  failureThreshold : UInt32
  deriving DecidableEq

namespace HealthMonitor

def new : HealthMonitor := ⟨∅, 3⟩

def withFailureThreshold (h : HealthMonitor) (threshold : UInt32) : HealthMonitor :=
  { h with failureThreshold := threshold }

/-- A successful heartbeat, or an Alive record in gossip. -/
def markAlive (h : HealthMonitor) (id : NodeId) : HealthMonitor :=
  { h with nodes := h.nodes.insert id ⟨.alive, 0⟩ }

def markJoining (h : HealthMonitor) (id : NodeId) : HealthMonitor :=
  { h with nodes := h.nodes.insert id ⟨.joining, 0⟩ }

/-- The entry after one more failure. -/
def failed (threshold : UInt32) (entry : NodeHealthEntry) : NodeHealthEntry :=
  let failures := entry.consecutiveFailures + 1
  match entry.health with
  | .alive => ⟨.suspect, failures⟩
  -- joining nodes can also fail heartbeats, treated like Alive
  | .joining => ⟨.suspect, failures⟩
  | .suspect => ⟨if threshold ≤ failures then .dead else .suspect, failures⟩
  | .dead => ⟨.dead, failures⟩

/-- An unknown node is entered as Alive first. -/
def recordFailure (h : HealthMonitor) (id : NodeId) : HealthMonitor :=
  { h with
    nodes := h.nodes.insert id
      (failed h.failureThreshold ((h.nodes.lookup id).getD ⟨.alive, 0⟩)) }

/-- Unknown nodes are assumed alive; Dead and Joining ones are not. -/
def isAlive (h : HealthMonitor) (id : NodeId) : Bool :=
  match h.nodes.lookup id with
  | some entry => entry.health ≠ .dead ∧ entry.health ≠ .joining
  | none => true

/-- The nodes marked Dead, in the map's own order. -/
def deadNodes (h : HealthMonitor) : List NodeId :=
  (h.nodes.entries.filter fun e => e.2.health = .dead).map (·.1)

/-- A snapshot of every status. -/
def allHealth (h : HealthMonitor) : Assoc NodeId NodeHealth :=
  h.nodes.mapValues (·.health)

@[simp] theorem lookup_markAlive (h : HealthMonitor) (id j : NodeId) :
    (h.markAlive id).nodes.lookup j = if j = id then some ⟨.alive, 0⟩ else h.nodes.lookup j :=
  Assoc.lookup_insert_eq ..

@[simp] theorem lookup_markJoining (h : HealthMonitor) (id j : NodeId) :
    (h.markJoining id).nodes.lookup j
      = if j = id then some ⟨.joining, 0⟩ else h.nodes.lookup j :=
  Assoc.lookup_insert_eq ..

@[simp] theorem lookup_recordFailure (h : HealthMonitor) (id j : NodeId) :
    (h.recordFailure id).nodes.lookup j
      = if j = id
        then some (failed h.failureThreshold ((h.nodes.lookup id).getD ⟨.alive, 0⟩))
        else h.nodes.lookup j :=
  Assoc.lookup_insert_eq ..

/-- The counter does not wrap while a node is Suspect: it is below the
threshold, or the second failure is still to come. -/
theorem toNat_next {failures : UInt32} (threshold : UInt32)
    (h : failures.toNat < max 2 threshold.toNat) :
    (failures + 1).toNat = failures.toNat + 1 := by
  have hbound := threshold.toNat_lt
  rw [UInt32.toNat_add, show (1 : UInt32).toNat = 1 from rfl]
  omega

theorem lookup_allHealth (h : HealthMonitor) (id : NodeId) :
    h.allHealth.lookup id = (h.nodes.lookup id).map (·.health) :=
  Assoc.lookup_mapValues ..

/-- The dead list and the snapshot agree. -/
theorem mem_deadNodes {h : HealthMonitor} {id : NodeId} :
    id ∈ h.deadNodes ↔ h.allHealth.lookup id = some .dead := by
  rw [lookup_allHealth, Option.map_eq_some_iff, deadNodes, List.mem_map]
  constructor
  · rintro ⟨⟨j, entry⟩, he, rfl⟩
    obtain ⟨hmem, hdead⟩ := List.mem_filter.mp he
    exact ⟨entry, AList.mem_lookup_iff.mpr hmem, by simpa using hdead⟩
  · rintro ⟨entry, hl, hdead⟩
    refine ⟨⟨id, entry⟩, List.mem_filter.mpr ⟨AList.mem_lookup_iff.mp hl, ?_⟩, rfl⟩
    simpa using hdead

theorem isAlive_of_lookup {h : HealthMonitor} {id : NodeId} {entry : NodeHealthEntry}
    (hl : h.nodes.lookup id = some entry) :
    h.isAlive id = decide (entry.health ≠ .dead ∧ entry.health ≠ .joining) := by
  rw [isAlive, hl]

end HealthMonitor

end SelfHealingCache
