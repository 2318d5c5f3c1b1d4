import SelfHealingCache.Common.HashRing
import SelfHealingCache.Node.Service

/-!
# The rebalancer

`crates/node/src/rebalance/mod.rs`: where `wait_and_rebalance` stands
(`Phase`) and the pure parts of its steps. The task is spawned only when
the node has seeds; a node without seeds has nothing to rebalance and
counts as `done` from the start.

The tombstone pass iterates a concurrent set. The iteration visits every
element that was there when it began (`snapshot`) and may visit ones
inserted meanwhile, each at most once.
-/

namespace SelfHealingCache

/-- Where `wait_and_rebalance` stands. -/
inductive Phase where
  /-- In the polling loop. -/
  | polling
  /-- Out of the loop, the ring not built yet. -/
  | building
  /-- Pulling from the head of `peers`, keeping what `ring` assigns here. -/
  | pulling (ring : HashRing) (peers : List NodeInfo)
  /-- `tombstones.len()` has been read. -/
  | counted (tombstoneCount : Nat)
  /-- In the tombstone pass. -/
  | applying (snapshot visited : Finset String)
  /-- About to call `mark_self_alive`. -/
  | marking
  | done

inductive RebalanceEvent where
  | poll
  | buildRing (peers : List MemberEntry)
  /-- A chunk arrives from the peer being pulled from. -/
  | chunk (now : Instant) (c : TransferChunk)
  /-- The current peer's stream has ended, broken off or never opened. It
  is the peer that does this: connect, `transfer_keys` and each message
  are awaited without a timeout. -/
  | nextPeer
  | count
  | beginPass
  | visit (key : String)
  | endPass
  | markAlive

/-- Self first, then the peers. -/
def buildRing (X : Crates) (t : MembershipTable) (peers : List MemberEntry) : HashRing :=
  HashRing.new.addNodes X (⟨t.localId, t.localAddr⟩ :: peers.map (·.info))

/-- The loop body of `pull_keys_from`: keep the chunk if the ring assigns
its key to this node. -/
def acceptChunk (X : Crates) (localId : NodeId) (ring : HashRing) (store : CacheStore)
    (now : Instant) (c : TransferChunk) : CacheStore :=
  match ring.getNode X c.key with
  | some owner =>
      if owner.id = localId then store.setFromTransfer now c.key c.value c.expiresAtMs else store
  | none => store

end SelfHealingCache
