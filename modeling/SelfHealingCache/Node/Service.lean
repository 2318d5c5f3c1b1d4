import Mathlib.Data.Finset.Insert
import SelfHealingCache.Node.Gossip

/-!
# The gRPC service of a node

`crates/node/src/grpc/service.rs`. A handler is a function of the three
things it shares with the rest of the process: the store, the membership
table and the tombstone set. Only `set` and `delete` look at the joining
flag; `replicate_write` does not.

These are the handlers run without interruption. `Node.Process` takes
them apart into their atomic steps.
-/

namespace SelfHealingCache

/-- The one `tonic::Status` a node's handlers answer with. -/
inductive Status where
  | unavailable (message : String)
  deriving DecidableEq

/-- The answer of a joining node to a write or a delete. -/
def Status.joining : Status := .unavailable "node is joining"

/-- `SetRequest`; a `ReplicateRequest` carries the same three fields
(its `expires_at_ms` is read by nobody). -/
structure SetRequest where
  key : String
  value : Bytes
  ttlMs : Option UInt64
  deriving DecidableEq

structure SetResponse where
  success : Bool
  deriving DecidableEq

structure GetResponse where
  value : Option Bytes
  found : Bool
  deriving DecidableEq

structure DeleteResponse where
  deleted : Bool
  deriving DecidableEq

structure TransferChunk where
  key : String
  value : Bytes
  expiresAtMs : Option UInt64
  deriving DecidableEq

/-- `CacheServiceImpl`. -/
structure CacheService where
  store : CacheStore
  table : MembershipTable
  tombstones : Finset String

namespace CacheService

def set (srv : CacheService) (now : Instant) (req : SetRequest) :
    Except Status SetResponse × CacheService :=
  if srv.table.isSelfJoining then (.error .joining, srv)
  else
    (.ok ⟨true⟩,
      { srv with store := srv.store.set now req.key req.value (req.ttlMs.map fromMillis) })

def get (srv : CacheService) (now : Instant) (key : String) :
    Except Status GetResponse × CacheService :=
  match srv.store.get now key with
  | (some value, store) => (.ok ⟨some value, true⟩, { srv with store := store })
  | (none, store) => (.ok ⟨none, false⟩, { srv with store := store })

/-- While joining, the delete is recorded as a tombstone and carried out,
but the client is told it was refused. -/
def delete (srv : CacheService) (key : String) : Except Status DeleteResponse × CacheService :=
  if srv.table.isSelfJoining then
    (.error .joining,
      { srv with
        tombstones := insert key srv.tombstones
        store := (srv.store.delete key).2 })
  else (.ok ⟨(srv.store.delete key).1⟩, { srv with store := (srv.store.delete key).2 })

/-- No look at the joining flag. -/
def replicateWrite (srv : CacheService) (now : Instant) (req : SetRequest) :
    Except Status SetResponse × CacheService :=
  (.ok ⟨true⟩,
    { srv with store := srv.store.set now req.key req.value (req.ttlMs.map fromMillis) })

/-! ## What a handler leaves in the store -/

theorem store_set_of_ok {srv srv' : CacheService} {now : Instant} {req : SetRequest}
    {resp : SetResponse} (h : srv.set now req = (.ok resp, srv')) :
    srv'.store = srv.store.set now req.key req.value (req.ttlMs.map fromMillis) := by
  rw [set] at h
  split_ifs at h
  · cases h
  · cases h
    rfl

/-- A set, answered or refused, leaves another key alone and its own key
either alone or written. -/
theorem lookup_set (srv : CacheService) (now : Instant) (req : SetRequest) (k : String) :
    (srv.set now req).2.store.data.lookup k = srv.store.data.lookup k
      ∨ (k = req.key ∧ (srv.set now req).2.store.data.lookup k
          = some ⟨req.value, (req.ttlMs.map fromMillis).map (now + ·)⟩) := by
  rw [set]
  split_ifs
  · exact .inl rfl
  · by_cases hk : k = req.key
    · exact .inr ⟨hk, by simp [hk]⟩
    · exact .inl (by simp [hk])

/-- A delete removes its key whether or not it is refused. -/
@[simp] theorem lookup_delete (srv : CacheService) (key k : String) :
    (srv.delete key).2.store.data.lookup k
      = if k = key then none else srv.store.data.lookup k := by
  rw [delete]
  split_ifs with hj hk hk <;> simp [hk]

@[simp] theorem lookup_get (srv : CacheService) (now : Instant) (key k : String) :
    (srv.get now key).2.store.data.lookup k
      = if k = key then (srv.store.data.lookup k).filter (·.live now)
        else srv.store.data.lookup k := by
  rw [← CacheStore.lookup_get, get]
  split
  · rename_i h
    rw [h]
  · rename_i h
    rw [h]

/-- **The answer of a read**: found exactly when the entry is live. -/
theorem get_fst (srv : CacheService) (now : Instant) (key : String) :
    (srv.get now key).1 = match (srv.store.data.lookup key).filter (·.live now) with
      | some e => .ok ⟨some e.value, true⟩
      | none => .ok ⟨none, false⟩ := by
  have h := CacheStore.get_fst srv.store now key
  rw [get]
  split
  · rename_i hget
    rw [hget] at h
    obtain ⟨e, he, hv⟩ := Option.map_eq_some_iff.mp h.symm
    rw [he, ← hv]
  · rename_i hget
    rw [hget] at h
    rw [Option.map_eq_none_iff.mp h.symm]

end CacheService

end SelfHealingCache
