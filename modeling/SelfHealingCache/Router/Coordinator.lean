import Mathlib.Logic.Function.Basic
import SelfHealingCache.Common.HashRing
import SelfHealingCache.Node.Service
import SelfHealingCache.Router.Health

/-!
# The replication coordinator

`crates/router/src/replication/coordinator.rs`. The nodes behind the
router are a `Fleet`: what answers at each address. Every call the
coordinator makes is one ATTEMPT, and what happens to it is an input:
the connection fails, the RPC fails (before or AFTER the node executed
it, the caller cannot tell), or it is answered, by the node's own
handler, at some instant.

The three operations share a shape (a loop over the alive preference
list, a retry loop inside) and differ in what ends a retry loop: `set`
and `get` retry a failed connection, `delete` gives the node up.
-/

namespace SelfHealingCache

structure ReplicationConfig where
  replicationFactor : Nat
  /-- Attempts per node. -/
  maxRetries : Nat

/-- What happens to one call. -/
inductive Outcome where
  | connectError
  | rpcError (executed : Bool)
  | answered
  deriving DecidableEq

/-- One call: its fate, and the instant the node would execute it. -/
structure Attempt where
  outcome : Outcome
  time : Instant

/-- The servers, by address. -/
abbrev Fleet := String → CacheService

/-- The fate of the `i`-th call to each node. -/
abbrev Faults := NodeInfo → Nat → Attempt

/-! ## The alive preference list -/

/-- `replication_factor + 2`, a wrapping `usize` addition. -/
def ReplicationConfig.extra (cfg : ReplicationConfig) : Nat :=
  (cfg.replicationFactor + 2) % 2 ^ 64

/-- The filter loop of `alive_preference_list`. -/
def aliveLoop (health : HealthMonitor) (replicationFactor : Nat) :
    List NodeInfo → List NodeInfo → List NodeInfo
  | [], aliveNodes => aliveNodes
  | node :: rest, aliveNodes =>
      let aliveNodes' := if health.isAlive node.id then aliveNodes ++ [node] else aliveNodes
      if replicationFactor ≤ aliveNodes'.length then aliveNodes'
      else aliveLoop health replicationFactor rest aliveNodes'

def alivePreferenceList (X : Crates) (cfg : ReplicationConfig) (ring : HashRing)
    (health : HealthMonitor) (key : String) : List NodeInfo :=
  aliveLoop health cfg.replicationFactor (ring.getPreferenceList X key cfg.extra) []

theorem aliveLoop_eq {health : HealthMonitor} {r : Nat} {nodes acc : List NodeInfo}
    (h : acc.length < r) :
    aliveLoop health r nodes acc
      = acc ++ (nodes.filter fun n => health.isAlive n.id).take (r - acc.length) := by
  induction nodes generalizing acc with
  | nil => simp [aliveLoop]
  | cons node rest ih =>
      rw [aliveLoop]
      by_cases halive : health.isAlive node.id
      · rw [if_pos halive, List.filter_cons_of_pos (by simpa using halive),
          show r - acc.length = (r - acc.length - 1) + 1 by omega, List.take_succ_cons]
        by_cases hfull : r ≤ (acc ++ [node]).length
        · have hzero : r - acc.length - 1 = 0 := by
            simp at hfull
            omega
          rw [if_pos hfull, hzero]
          simp
        · rw [if_neg hfull, ih (by omega)]
          simp [Nat.sub_sub]
      · rw [if_neg halive, if_neg (by omega), ih h,
          List.filter_cons_of_neg (by simpa using halive)]

/-- **The alive preference list is a bounded selection** from the
clockwise order: the alive ones among the first `replication_factor + 2`
candidates, at most `replication_factor`. -/
theorem alivePreferenceList_eq (X : Crates) {cfg : ReplicationConfig}
    (h : 1 ≤ cfg.replicationFactor) (ring : HashRing) (health : HealthMonitor) (key : String) :
    alivePreferenceList X cfg ring health key
      = ListWalk.select (max cfg.extra 1) (fun n => health.isAlive n.id) cfg.replicationFactor
          (ring.prefOrder X key) := by
  rw [alivePreferenceList, aliveLoop_eq (by simp only [List.length_nil]; omega),
    HashRing.getPreferenceList_eq, ListWalk.select]
  simp

/-- Nothing in the list is Dead or Joining. -/
theorem isAlive_of_mem_aliveLoop {health : HealthMonitor} {r : Nat} {nodes acc : List NodeInfo}
    (hacc : ∀ n ∈ acc, health.isAlive n.id) :
    ∀ n ∈ aliveLoop health r nodes acc, health.isAlive n.id := by
  induction nodes generalizing acc with
  | nil => exact hacc
  | cons node rest ih =>
      have hacc' : ∀ n ∈ if health.isAlive node.id then acc ++ [node] else acc,
          health.isAlive n.id := by
        intro n hn
        split_ifs at hn with halive
        · rcases List.mem_append.mp hn with hn | hn
          · exact hacc n hn
          · rw [List.mem_singleton.mp hn]
            exact halive
        · exact hacc n hn
      simp only [aliveLoop]
      split_ifs at hacc' ⊢
      · exact hacc'
      · exact ih hacc'
      · exact hacc'
      · exact ih hacc'

theorem isAlive_of_mem_alivePreferenceList {X : Crates} {cfg : ReplicationConfig}
    {ring : HashRing} {health : HealthMonitor} {key : String} {n : NodeInfo}
    (h : n ∈ alivePreferenceList X cfg ring health key) : health.isAlive n.id :=
  isAlive_of_mem_aliveLoop (by simp) n h

/-! ## The operations -/

section Operations

/-- The retry loop of `set` at one node, with `left` attempts to go. -/
def setNode (req : SetRequest) (addr : String) (calls : Nat → Attempt) :
    Nat → Nat → Fleet → Bool × Fleet
  | 0, _, fleet => (false, fleet)
  | left + 1, i, fleet =>
      let served := (fleet addr).set (calls i).time req
      let fleet' := Function.update fleet addr served.2
      match (calls i).outcome with
      | .connectError => setNode req addr calls left (i + 1) fleet
      | .rpcError executed =>
          setNode req addr calls left (i + 1) (if executed then fleet' else fleet)
      | .answered =>
          match served.1 with
          | .ok resp => (resp.success, fleet')
          | .error _ => setNode req addr calls left (i + 1) fleet'

/-- The `results` vector of `set`. -/
def setNodes (cfg : ReplicationConfig) (req : SetRequest) (faults : Faults) :
    List NodeInfo → Fleet → List Bool × Fleet
  | [], fleet => ([], fleet)
  | node :: rest, fleet =>
      let one := setNode req node.addr (faults node) cfg.maxRetries 0 fleet
      let others := setNodes cfg req faults rest one.2
      (one.1 :: others.1, others.2)

/-- The retry loop of `get` at one node: the response that ends the
whole read, or `none` when the next node is tried. -/
def getNodeAt (key : String) (addr : String) (calls : Nat → Attempt) :
    Nat → Nat → Fleet → Option GetResponse × Fleet
  | 0, _, fleet => (none, fleet)
  | left + 1, i, fleet =>
      let served := (fleet addr).get (calls i).time key
      let fleet' := Function.update fleet addr served.2
      match (calls i).outcome with
      | .connectError => getNodeAt key addr calls left (i + 1) fleet
      | .rpcError executed =>
          getNodeAt key addr calls left (i + 1) (if executed then fleet' else fleet)
      | .answered =>
          match served.1 with
          | .ok inner => if inner.found then (some inner, fleet') else (none, fleet')
          | .error _ => getNodeAt key addr calls left (i + 1) fleet'

def getNodes (cfg : ReplicationConfig) (key : String) (faults : Faults) :
    List NodeInfo → Fleet → Option GetResponse × Fleet
  | [], fleet => (none, fleet)
  | node :: rest, fleet =>
      match getNodeAt key node.addr (faults node) cfg.maxRetries 0 fleet with
      | (some inner, fleet') => (some inner, fleet')
      | (none, fleet') => getNodes cfg key faults rest fleet'

/-- The retry loop of `delete` at one node: a failed connection ends
it. -/
def deleteNode (key : String) (addr : String) (calls : Nat → Attempt) :
    Nat → Nat → Fleet → Bool × Fleet
  | 0, _, fleet => (false, fleet)
  | left + 1, i, fleet =>
      let served := (fleet addr).delete key
      let fleet' := Function.update fleet addr served.2
      match (calls i).outcome with
      | .connectError => (false, fleet)
      | .rpcError executed =>
          deleteNode key addr calls left (i + 1) (if executed then fleet' else fleet)
      | .answered =>
          match served.1 with
          | .ok resp => (resp.deleted, fleet')
          | .error _ => deleteNode key addr calls left (i + 1) fleet'

def deleteNodes (cfg : ReplicationConfig) (key : String) (faults : Faults) :
    List NodeInfo → Fleet → Bool × Fleet
  | [], fleet => (false, fleet)
  | node :: rest, fleet =>
      let one := deleteNode key node.addr (faults node) cfg.maxRetries 0 fleet
      let others := deleteNodes cfg key faults rest one.2
      (one.1 || others.1, others.2)

variable (X : Crates) (cfg : ReplicationConfig) (ring : HashRing) (health : HealthMonitor)

/-- `ReplicationCoordinator::set`: success if the primary wrote. -/
def coordinatorSet (req : SetRequest) (faults : Faults) (fleet : Fleet) :
    Except String SetResponse × Fleet :=
  let prefList := alivePreferenceList X cfg ring health req.key
  if prefList.isEmpty then (.error "No alive nodes available for write", fleet)
  else
    let out := setNodes cfg req faults prefList fleet
    if out.1.head?.getD false then (.ok ⟨true⟩, out.2)
    else (.error "Primary write failed", out.2)

/-- `ReplicationCoordinator::get`: the first replica that has the key. -/
def coordinatorGet (key : String) (faults : Faults) (fleet : Fleet) :
    Except String GetResponse × Fleet :=
  let prefList := alivePreferenceList X cfg ring health key
  if prefList.isEmpty then (.error "No alive nodes available for read", fleet)
  else
    match getNodes cfg key faults prefList fleet with
    | (some inner, fleet') => (.ok inner, fleet')
    | (none, fleet') => (.ok ⟨none, false⟩, fleet')

/-- `ReplicationCoordinator::delete`: `Ok` whatever the replicas
answered, as long as there is one to ask. -/
def coordinatorDelete (key : String) (faults : Faults) (fleet : Fleet) :
    Except String DeleteResponse × Fleet :=
  let prefList := alivePreferenceList X cfg ring health key
  if prefList.isEmpty then (.error "No alive nodes available for delete", fleet)
  else
    let out := deleteNodes cfg key faults prefList fleet
    (.ok ⟨out.1⟩, out.2)

end Operations

/-! ## What a retry loop preserves

Whatever one executed call preserves, the retry loop preserves: it makes
no other change to the fleet. -/

theorem setNode_preserves (P : Fleet → Prop) {req : SetRequest} {addr : String}
    (hcall : ∀ fleet now, P fleet → P (Function.update fleet addr ((fleet addr).set now req).2))
    {calls : Nat → Attempt} {left i : Nat} {fleet : Fleet} (h : P fleet) :
    P (setNode req addr calls left i fleet).2 := by
  induction left generalizing i fleet with
  | zero => exact h
  | succ left ih =>
      have hserved := hcall fleet (calls i).time h
      rw [setNode]
      cases (calls i).outcome with
      | connectError => exact ih h
      | rpcError executed =>
          cases executed with
          | true => exact ih hserved
          | false => exact ih h
      | answered =>
          dsimp only
          cases ((fleet addr).set (calls i).time req).1 with
          | ok resp => exact hserved
          | error e => exact ih hserved

theorem getNodeAt_preserves (P : Fleet → Prop) {key addr : String}
    (hcall : ∀ fleet now, P fleet → P (Function.update fleet addr ((fleet addr).get now key).2))
    {calls : Nat → Attempt} {left i : Nat} {fleet : Fleet} (h : P fleet) :
    P (getNodeAt key addr calls left i fleet).2 := by
  induction left generalizing i fleet with
  | zero => exact h
  | succ left ih =>
      have hserved := hcall fleet (calls i).time h
      rw [getNodeAt]
      cases (calls i).outcome with
      | connectError => exact ih h
      | rpcError executed =>
          cases executed with
          | true => exact ih hserved
          | false => exact ih h
      | answered =>
          dsimp only
          cases ((fleet addr).get (calls i).time key).1 with
          | ok inner =>
              dsimp only
              split_ifs
              · exact hserved
              · exact hserved
          | error e => exact ih hserved

/-! ## What the fleet holds -/

/-- The entry stored for `k` at an address. -/
def Fleet.entry (fleet : Fleet) (addr : String) (k : String) : Option CacheEntry :=
  (fleet addr).store.data.lookup k

theorem Fleet.entry_update (fleet : Fleet) (addr : String) (srv : CacheService) (a k : String) :
    Fleet.entry (Function.update fleet addr srv) a k
      = if a = addr then srv.store.data.lookup k else fleet.entry a k := by
  rw [entry, Function.update_apply]
  split_ifs <;> rfl

/-- The fleet some time later: what each address did since is a run of
store operations satisfying `P`; tables and tombstones may be anything.
The operations are whole calls, none of them under way at either end. -/
def Fleet.Later (P : CacheStore.Op → Prop) (fleet fleet' : Fleet) : Prop :=
  ∀ addr, ∃ ops : List (Instant × CacheStore.Op),
    (∀ op ∈ ops, P op.2) ∧ (fleet' addr).store = (fleet addr).store.run ops

/-! ## A small cluster

Three nodes, one position each, all below the hash of the empty key. -/

namespace ThreeNodes

def a : NodeInfo := ⟨⟨1⟩, "a"⟩
def b : NodeInfo := ⟨⟨2⟩, "b"⟩
def c : NodeInfo := ⟨⟨3⟩, "c"⟩

/-- `xxh3_64` of the empty string. -/
def crates : Crates := .hyphenated fun _ => 0x2d06800538d394c2

def ring : HashRing where
  ring := ⟨[(1, a.id), (2, b.id), (3, c.id)], by decide⟩
  nodes := [a, b, c]
  vnodeCount := 1
  backed := by decide

/-- Empty stores, none of the nodes joining. -/
def fleet : Fleet := fun _ => ⟨.new, .new 0 a.id [], ∅⟩

end ThreeNodes

end SelfHealingCache
