import Mathlib.Algebra.Group.Nat.Defs
import SelfHealingCache.Node.Process
import SelfHealingCache.Node.TtlMap

/-!
# Pulling keys from the peers

`transfer_keys` of `crates/node/src/grpc/service.rs` on the source side,
`pull_keys_from` and `rebalance` of `crates/node/src/rebalance/mod.rs` on
the joiner's. What the network does is an input: a peer's answer is no
stream at all, or a stream of messages, each a chunk with the reading of
the clock at which it is stored, or an error. The first error ends the
loop of `pull_keys_from`; `rebalance` logs it and goes on to the next
peer. The counters are `usize` and counted in `Nat`. These are the calls
run without interruption, the listing of the source's map included;
`exec_rebalance` finds them in `Node.Process`.

Nothing is undone, so the store afterwards is the store before with the
received chunks written into it one by one (`rebalanceLoop_snd`), and a key
holds its last one (`lookup_receive`). The chunk carries the time its key
has left when the source takes its snapshot, and the joiner counts it
from the moment it stores the chunk: what the stream takes is added to
the key's life (`neverProlongs_iff`).
-/

namespace SelfHealingCache

open Expiring

/-! ## The source side -/

/-- The chunks `transfer_keys` sends: all of the snapshot, in order. -/
def transferKeys (now : Instant) (listing : List (String × CacheEntry)) : List TransferChunk :=
  (CacheStore.entriesForTransfer now listing).map fun entry => ⟨entry.1, entry.2.1, entry.2.2⟩

theorem transferKeys_cons (now : Instant) (p : String × CacheEntry)
    (rest : List (String × CacheEntry)) :
    transferKeys now (p :: rest) = transferKeys now [p] ++ transferKeys now rest := by
  rw [transferKeys, transferKeys, transferKeys, entriesForTransfer_eq, entriesForTransfer_eq,
    entriesForTransfer_eq, ← List.map_append, ← List.map_append, ← List.filter_append]
  rfl

/-- One entry makes one chunk or none. -/
theorem reverse_transferKeys_singleton (now : Instant) (p : String × CacheEntry) :
    (transferKeys now [p]).reverse = transferKeys now [p] := by
  rw [transferKeys, entriesForTransfer_eq]
  cases hlive : p.2.live now with
  | true => simp [hlive]
  | false => simp [hlive]

/-! ## The joiner's side -/

section Pull

variable {ε : Type*} (X : Crates) (localId : NodeId) (ring : HashRing)

/-- The messages of one stream: a chunk and the time it is stored, or the
error that `message()` returns. -/
abbrev ChunkStream (ε : Type*) := List (Except ε (Instant × TransferChunk))

/-- The loop of `pull_keys_from`. -/
def pullStream (count : Nat) (store : CacheStore) : ChunkStream ε → Except ε Nat × CacheStore
  | [] => (.ok count, store)
  | .error e :: _ => (.error e, store)
  | .ok (now, chunk) :: rest =>
      match ring.getNode X chunk.key with
      | some owner =>
          if owner.id = localId then
            pullStream (count + 1)
              (store.setFromTransfer now chunk.key chunk.value chunk.expiresAtMs) rest
          else pullStream count store rest
      | none => pullStream count store rest

/-- `pull_keys_from`; the answer is an error when the address does not
parse, the connection fails or the call is refused. -/
def pullKeysFrom (store : CacheStore) (answer : Except ε (ChunkStream ε)) :
    Except ε Nat × CacheStore :=
  match answer with
  | .error e => (.error e, store)
  | .ok stream => pullStream X localId ring 0 store stream

/-- The loop of `rebalance`, over the peers with their answers. -/
def rebalanceLoop (total : Nat) (store : CacheStore) :
    List (NodeInfo × Except ε (ChunkStream ε)) → Except ε Nat × CacheStore
  | [] => (.ok total, store)
  | (peer, answer) :: rest =>
      if peer.id = localId then rebalanceLoop total store rest
      else
        match pullKeysFrom X localId ring store answer with
        | (.ok count, store) => rebalanceLoop (total + count) store rest
        | (.error _, store) => rebalanceLoop total store rest

def rebalance (store : CacheStore) (peers : List (NodeInfo × Except ε (ChunkStream ε))) :
    Except ε Nat × CacheStore :=
  rebalanceLoop X localId ring 0 store peers

end Pull

/-! ## What is received and what is kept -/

/-- The chunks of a stream, up to the first error. -/
def arrived {ε : Type*} : ChunkStream ε → List (Instant × TransferChunk)
  | [] => []
  | .error _ :: _ => []
  | .ok a :: rest => a :: arrived rest

/-- The chunks an answer delivers. -/
def delivered {ε : Type*} : Except ε (ChunkStream ε) → List (Instant × TransferChunk)
  | .error _ => []
  | .ok stream => arrived stream

/-- Every chunk that reaches the joiner, in the order it does; it does not
call itself. -/
def received {ε : Type*} (localId : NodeId) (peers : List (NodeInfo × Except ε (ChunkStream ε))) :
    List (Instant × TransferChunk) :=
  (peers.filter fun p => p.1.id ≠ localId).flatMap fun p => delivered p.2

/-- The ring assigns `key` to the local id. -/
def Owned (X : Crates) (localId : NodeId) (ring : HashRing) (key : String) : Prop :=
  ∃ owner, ring.getNode X key = some owner ∧ owner.id = localId

instance (X : Crates) (localId : NodeId) (ring : HashRing) (key : String) :
    Decidable (Owned X localId ring key) :=
  decidable_of_iff ((ring.getNode X key).any fun owner => owner.id = localId) (by
    simp [Owned, Option.any_eq_true])

/-- The store after chunks have been written into it, each at its time. -/
def CacheStore.receive (store : CacheStore) (chunks : List (Instant × TransferChunk)) :
    CacheStore :=
  chunks.foldl (fun s a => s.setFromTransfer a.1 a.2.key a.2.value a.2.expiresAtMs) store

/-- The last chunk for `key` that has time left. -/
def lastChunk (key : String) (chunks : List (Instant × TransferChunk)) :
    Option (Instant × TransferChunk) :=
  (chunks.filter fun a => a.2.key = key ∧ a.2.expiresAtMs ≠ some 0).getLast?

/-- The entry a chunk becomes. -/
def chunkEntry (a : Instant × TransferChunk) : CacheEntry :=
  ⟨a.2.value, a.2.expiresAtMs.map fun ms => a.1 + fromMillis ms⟩

theorem lastChunk_concat (key : String) (chunks : List (Instant × TransferChunk))
    (a : Instant × TransferChunk) :
    lastChunk key (chunks ++ [a])
      = if a.2.key = key ∧ a.2.expiresAtMs ≠ some 0 then some a else lastChunk key chunks := by
  rw [lastChunk, lastChunk, List.filter_append]
  by_cases ha : a.2.key = key ∧ a.2.expiresAtMs ≠ some 0
  · rw [if_pos ha, List.filter_cons_of_pos (by simpa using ha), List.filter_nil,
      List.getLast?_concat]
  · rw [if_neg ha, List.filter_cons_of_neg (by simpa using ha), List.filter_nil, List.append_nil]

/-- **A key holds its last chunk.** -/
theorem CacheStore.lookup_receive (store : CacheStore) (chunks : List (Instant × TransferChunk))
    (k : String) :
    (store.receive chunks).data.lookup k
      = ((lastChunk k chunks).map chunkEntry).or (store.data.lookup k) := by
  -- from the end of the list: a chunk is written over whatever the earlier ones left
  induction chunks using List.reverseRecOn with
  | nil => rfl
  | append_singleton chunks a ih =>
      rw [receive, List.foldl_append, List.foldl_cons, List.foldl_nil, lookup_setFromTransfer,
        lastChunk_concat]
      simp only [eq_comm (a := k)]
      split_ifs
      · rfl
      · exact ih

section Pull

variable {ε : Type*} {X : Crates} {localId : NodeId} {ring : HashRing}

theorem acceptChunk_eq (store : CacheStore) (now : Instant) (chunk : TransferChunk) :
    acceptChunk X localId ring store now chunk
      = if Owned X localId ring chunk.key
        then store.setFromTransfer now chunk.key chunk.value chunk.expiresAtMs else store := by
  rw [acceptChunk]
  cases hget : ring.getNode X chunk.key with
  | none => simp [Owned, hget]
  | some owner => simp [Owned, hget]

/-- The owned chunks, in the order they came. -/
def kept (X : Crates) (localId : NodeId) (ring : HashRing)
    (chunks : List (Instant × TransferChunk)) : List (Instant × TransferChunk) :=
  chunks.filter fun a => Owned X localId ring a.2.key

theorem foldl_acceptChunk (store : CacheStore) (chunks : List (Instant × TransferChunk)) :
    chunks.foldl (fun s a => acceptChunk X localId ring s a.1 a.2) store
      = store.receive (kept X localId ring chunks) := by
  induction chunks generalizing store with
  | nil => rfl
  | cons a chunks ih =>
      rw [List.foldl_cons, ih, acceptChunk_eq, kept, kept]
      by_cases ha : Owned X localId ring a.2.key
      · rw [if_pos ha, List.filter_cons_of_pos (by simpa using ha)]
        rfl
      · rw [if_neg ha, List.filter_cons_of_neg (by simpa using ha)]

/-- **One stream**: its owned chunks are written, up to the first error,
and the error changes nothing about them. -/
theorem pullStream_snd (count : Nat) (store : CacheStore) (stream : ChunkStream ε) :
    (pullStream X localId ring count store stream).2
      = store.receive (kept X localId ring (arrived stream)) := by
  rw [← foldl_acceptChunk]
  induction stream generalizing count store with
  | nil => rfl
  | cons message rest ih =>
      cases message with
      | error e => rfl
      | ok a =>
          obtain ⟨now, chunk⟩ := a
          rw [pullStream, arrived, List.foldl_cons, acceptChunk]
          cases ring.getNode X chunk.key with
          | none => exact ih count store
          | some owner =>
              dsimp only
              split_ifs
              · exact ih _ _
              · exact ih count store

theorem pullKeysFrom_snd (store : CacheStore) (answer : Except ε (ChunkStream ε)) :
    (pullKeysFrom X localId ring store answer).2
      = store.receive (kept X localId ring (delivered answer)) := by
  cases answer with
  | error e => rfl
  | ok stream => exact pullStream_snd 0 store stream

theorem received_cons (p : NodeInfo × Except ε (ChunkStream ε))
    (rest : List (NodeInfo × Except ε (ChunkStream ε))) :
    received localId (p :: rest)
      = (if p.1.id = localId then [] else delivered p.2) ++ received localId rest := by
  rw [received, received]
  by_cases hself : p.1.id = localId
  · rw [if_pos hself, List.filter_cons_of_neg (by simpa using hself), List.nil_append]
  · rw [if_neg hself, List.filter_cons_of_pos (by simpa using hself), List.flatMap_cons]

theorem receive_append (store : CacheStore) (first second : List (Instant × TransferChunk)) :
    store.receive (first ++ second) = (store.receive first).receive second :=
  List.foldl_append

/-- **All peers**: whatever becomes of a pull, the next one starts from
what it left. -/
theorem rebalanceLoop_snd (total : Nat) (store : CacheStore)
    (peers : List (NodeInfo × Except ε (ChunkStream ε))) :
    (rebalanceLoop X localId ring total store peers).2
      = store.receive (kept X localId ring (received localId peers)) := by
  induction peers generalizing total store with
  | nil => rfl
  | cons p rest ih =>
      obtain ⟨peer, answer⟩ := p
      rw [rebalanceLoop, received_cons]
      by_cases hself : peer.id = localId
      · rw [if_pos hself, if_pos hself]
        exact ih total store
      · have hpull : (pullKeysFrom X localId ring store answer).2 = _ :=
          pullKeysFrom_snd store answer
        rw [if_neg hself, if_neg hself, kept, List.filter_append]
        cases hres : pullKeysFrom X localId ring store answer with
        | mk result store' =>
            rw [hres] at hpull
            dsimp only at hpull
            subst hpull
            rw [receive_append]
            cases result with
            | error e => exact ih total _
            | ok count => exact ih (total + count) _

/-- `rebalance` itself never fails. -/
theorem rebalanceLoop_fst (total : Nat) (store : CacheStore)
    (peers : List (NodeInfo × Except ε (ChunkStream ε))) :
    ∃ sum, (rebalanceLoop X localId ring total store peers).1 = .ok sum := by
  induction peers generalizing total store with
  | nil => exact ⟨total, rfl⟩
  | cons p rest ih =>
      rw [rebalanceLoop]
      split_ifs
      · exact ih total store
      · split
        · exact ih _ _
        · exact ih _ _

theorem received_append (before after : List (NodeInfo × Except ε (ChunkStream ε))) :
    received localId (before ++ after) = received localId before ++ received localId after := by
  rw [received, List.filter_append, List.flatMap_append]
  rfl

/-- The ring decides about a key, so it keeps all of the key's chunks or
none. -/
theorem lastChunk_kept (k : String) (chunks : List (Instant × TransferChunk)) :
    lastChunk k (kept X localId ring chunks)
      = if Owned X localId ring k then lastChunk k chunks else none := by
  rw [kept, lastChunk, List.filter_filter]
  by_cases hown : Owned X localId ring k
  · rw [if_pos hown, lastChunk]
    congr 1
    apply List.filter_congr
    intro a _
    by_cases hk : a.2.key = k
    · simp [hk, hown]
    · simp [hk]
  · rw [if_neg hown, List.getLast?_eq_none_iff, List.filter_eq_nil_iff]
    intro a _ ha
    simp only [Bool.and_eq_true, decide_eq_true_eq] at ha
    rw [ha.1.1] at ha
    exact hown ha.2

theorem lookup_receive_kept (store : CacheStore) (chunks : List (Instant × TransferChunk))
    (k : String) :
    (store.receive (kept X localId ring chunks)).data.lookup k
      = if Owned X localId ring k
        then ((lastChunk k chunks).map chunkEntry).or (store.data.lookup k)
        else store.data.lookup k := by
  rw [CacheStore.lookup_receive, lastChunk_kept]
  split_ifs
  · rfl
  · rfl

end Pull

/-- **Rebalancing stores exactly the owned keys.** It returns a count. A
key the ring assigns here holds the last chunk received for it that has
time left, and is unchanged if there is none; every other key is
unchanged. A peer whose pull fails leaves every key it sent nothing for
as the earlier peers left it, and the later peers are pulled from there. -/
theorem rebalance_stores_owned {ε : Type*} (X : Crates) (localId : NodeId) (ring : HashRing)
    (store : CacheStore) (peers : List (NodeInfo × Except ε (ChunkStream ε))) :
    (∃ total, (rebalance X localId ring store peers).1 = .ok total)
    ∧ (∀ k, Owned X localId ring k →
        (rebalance X localId ring store peers).2.data.lookup k
          = ((lastChunk k (received localId peers)).map chunkEntry).or (store.data.lookup k))
    ∧ (∀ k, ¬ Owned X localId ring k →
        (rebalance X localId ring store peers).2.data.lookup k = store.data.lookup k)
    ∧ ∀ before peer answer after e, peers = before ++ (peer, answer) :: after →
        peer.id ≠ localId →
        (pullKeysFrom X localId ring (rebalance X localId ring store before).2 answer).1
          = .error e →
        let earlier := (rebalance X localId ring store before).2
        let pulled := (pullKeysFrom X localId ring earlier answer).2
        (∀ k, lastChunk k (delivered answer) = none →
          pulled.data.lookup k = earlier.data.lookup k)
        ∧ (rebalance X localId ring store peers).2 = (rebalance X localId ring pulled after).2 := by
  have hall : ∀ s (ps : List (NodeInfo × Except ε (ChunkStream ε))),
      (rebalance X localId ring s ps).2
        = s.receive (kept X localId ring (received localId ps)) := rebalanceLoop_snd 0
  refine ⟨rebalanceLoop_fst 0 store peers, fun k hk => ?_, fun k hk => ?_, ?_⟩
  · rw [hall, lookup_receive_kept, if_pos hk]
  · rw [hall, lookup_receive_kept, if_neg hk]
  · rintro before peer answer after e rfl hpeer _
    constructor
    · intro k hnone
      rw [pullKeysFrom_snd, lookup_receive_kept, hnone]
      split_ifs <;> rfl
    · rw [hall, hall, hall, pullKeysFrom_snd, received_append, received_cons, if_neg hpeer,
        ← receive_append,
        ← receive_append, kept, List.filter_append, List.filter_append]
      rfl

/-! ## The rebalancer among the other tasks -/

namespace NodeSys

variable {ε : Type*} {X : Crates}

/-- The steps of the rebalancer while it pulls. -/
def pullEvents (localId : NodeId) (peers : List (NodeInfo × Except ε (ChunkStream ε))) :
    List NodeEvent :=
  peers.flatMap fun p =>
    (if p.1.id = localId then [] else delivered p.2).map (fun a => .rebalance (.chunk a.1 a.2))
      ++ [.rebalance .nextPeer]

theorem exec_chunks {s : NodeSys} {ring : HashRing} {peer : NodeInfo} {peers : List NodeInfo}
    (hphase : s.phase = .pulling ring (peer :: peers)) (hpeer : peer.id ≠ s.table.localId)
    (chunks : List (Instant × TransferChunk)) :
    Trace.exec (step X) s (chunks.map fun a => .rebalance (.chunk a.1 a.2))
      = some { s with store := s.store.receive (kept X s.table.localId ring chunks) } := by
  rw [← foldl_acceptChunk]
  induction chunks generalizing s with
  | nil => rfl
  | cons a chunks ih =>
      have hstep : s.step X (.rebalance (.chunk a.1 a.2))
          = some { s with store := acceptChunk X s.table.localId ring s.store a.1 a.2 } := by
        simp [step, rebalanceStep, hphase, hpeer]
      rw [List.map_cons, Trace.exec_cons]
      exact ⟨_, hstep, ih hphase hpeer⟩

/-- **Uninterrupted, the pulling phase is `rebalance`.** -/
theorem exec_rebalance {s : NodeSys} {ring : HashRing}
    {peers : List (NodeInfo × Except ε (ChunkStream ε))}
    (hphase : s.phase = .pulling ring (peers.map (·.1))) :
    Trace.exec (step X) s (pullEvents s.table.localId peers)
      = some { s with
          store := (rebalance X s.table.localId ring s.store peers).2
          phase := .pulling ring [] } := by
  rw [rebalance, rebalanceLoop_snd]
  induction peers generalizing s with
  | nil =>
      rw [List.map_nil] at hphase
      rw [← hphase]
      rfl
  | cons p rest ih =>
      have hpulled : Trace.exec (step X) s
          ((if p.1.id = s.table.localId then [] else delivered p.2).map
            fun a => .rebalance (.chunk a.1 a.2))
          = some { s with store := s.store.receive (kept X s.table.localId ring
              (if p.1.id = s.table.localId then [] else delivered p.2)) } := by
        by_cases hself : p.1.id = s.table.localId
        · rw [if_pos hself]
          rfl
        · rw [if_neg hself]
          exact exec_chunks hphase hself _
      rw [received_cons, kept, List.filter_append, receive_append, pullEvents, List.flatMap_cons,
        List.append_assoc, Trace.exec_append]
      refine ⟨_, hpulled, ?_⟩
      have hnext : ∀ store, ({ s with store := store } : NodeSys).step X (.rebalance .nextPeer)
          = some { s with store := store, phase := .pulling ring (rest.map (·.1)) } := by
        intro store
        simp [step, rebalanceStep, hphase]
      rw [List.singleton_append, Trace.exec_cons]
      exact ⟨_, hnext _, ih rfl⟩

end NodeSys

/-! ## How long a transferred key lives -/

/-- `e` is the source's entry for `key`, `joiner` and `after` are the
joiner's store before and after the stream. A key without expiry arrives
without; one with an expiry is left out or expires no later; and the
joiner does not read it at an instant at which it has expired at the
source, except as it would have read it anyway. -/
structure NotProlonged (e : CacheEntry) (key : String) (joiner after : CacheStore) : Prop where
  forever : e.expiresAt = none → after.data.lookup key = some ⟨e.value, none⟩
  bounded : ∀ inst, e.expiresAt = some inst → after.data.lookup key = joiner.data.lookup key
    ∨ ∃ inst' ≤ inst, after.data.lookup key = some ⟨e.value, some inst'⟩
  unreadable : ∀ now, e.live now = false → (after.get now key).1 = none
    ∨ (after.get now key).1 = (joiner.get now key).1

/-- No chunk that arrives prolongs the life of its key, at any joiner. -/
def NeverProlongs (source : CacheStore) (arrivals : List (Instant × TransferChunk)) : Prop :=
  ∀ joiner : CacheStore, ∀ a ∈ arrivals, ∀ e, source.data.lookup a.2.key = some e →
    NotProlonged e a.2.key joiner (joiner.receive arrivals)

/-- Between the snapshot at `taken` and the insertion at `stored` no more
time passes than the conversion to 64-bit milliseconds takes off what a
key expiring at `inst` has left; or it leaves nothing at all. -/
def Absorbed (taken stored inst : Instant) : Prop :=
  (inst - taken) / 1000000 % 2 ^ 64 = 0
    ∨ stored - taken ≤ (inst - taken) - (inst - taken) / 1000000 % 2 ^ 64 * 1000000

/-- The joiner's expiry is no later than the source's. -/
theorem stored_add_le_iff {taken stored inst : Instant} (hlive : taken < inst)
    (hlater : taken ≤ stored) :
    stored + fromMillis (CacheStore.remainingMs taken inst) ≤ inst
      ↔ stored - taken ≤ (inst - taken) - (inst - taken) / 1000000 % 2 ^ 64 * 1000000 := by
  have hle : (inst - taken) / 1000000 % 2 ^ 64 * 1000000 ≤ inst - taken :=
    (Nat.mul_le_mul_right _ (Nat.mod_le _ _)).trans (Nat.div_mul_le_self _ _)
  rw [fromMillis, toNat_remainingMs]
  generalize (inst - taken) / 1000000 % 2 ^ 64 * 1000000 = left at hle ⊢
  unfold Instant Duration at *
  omega

/-- In a stream without repetitions the last chunk of a key is its only
one. -/
theorem lastChunk_of_nodup {chunks : List (Instant × TransferChunk)}
    (hnodup : (chunks.map fun a => a.2.key).Nodup) {a : Instant × TransferChunk}
    (ha : a ∈ chunks) :
    lastChunk a.2.key chunks = if a.2.expiresAtMs = some 0 then none else some a := by
  have honly : ∀ b ∈ chunks, b.2.key = a.2.key → b = a := fun b hb hkey =>
    List.inj_on_of_nodup_map hnodup hb ha hkey
  by_cases hzero : a.2.expiresAtMs = some 0
  · rw [if_pos hzero, lastChunk, List.getLast?_eq_none_iff, List.filter_eq_nil_iff]
    intro b hb hlast
    simp only [decide_eq_true_eq] at hlast
    rw [honly b hb hlast.1] at hlast
    exact hlast.2 hzero
  · rw [if_neg hzero]
    have hmem : a ∈ chunks.filter fun b => b.2.key = a.2.key ∧ b.2.expiresAtMs ≠ some 0 :=
      List.mem_filter.mpr ⟨ha, by simpa using hzero⟩
    have hlast := List.getLast?_eq_some_getLast (List.ne_nil_of_mem hmem)
    obtain ⟨hin, hcond⟩ := List.mem_filter.mp (List.getLast_mem (List.ne_nil_of_mem hmem))
    simp only [decide_eq_true_eq] at hcond
    rw [lastChunk, hlast, honly _ hin hcond.1]

section Arrivals

variable {source : CacheStore} {listing : List (String × CacheEntry)} {taken : Instant}
  {arrivals : List (Instant × TransferChunk)}

theorem nodup_arrivals (hl : source.Lists listing)
    (hstream : arrivals.map (·.2) <+: transferKeys taken listing) :
    (arrivals.map fun a => a.2.key).Nodup := by
  have hkeys : ((transferKeys taken listing).map (·.key)).Nodup := by
    rw [transferKeys, List.map_map]
    exact nodup_entriesForTransfer hl
  have hsub := (hstream.sublist.map (·.key)).nodup hkeys
  rwa [List.map_map] at hsub

/-- A chunk is made from the source's entry for its key. -/
theorem chunk_of_arrival (hl : source.Lists listing)
    (hstream : arrivals.map (·.2) <+: transferKeys taken listing) {a : Instant × TransferChunk}
    (ha : a ∈ arrivals) {e : CacheEntry} (he : source.data.lookup a.2.key = some e) :
    e.live taken = true ∧ a.2.value = e.value
      ∧ a.2.expiresAtMs = e.expiresAt.map (CacheStore.remainingMs taken) := by
  obtain ⟨entry, hentry, hchunk⟩ := List.mem_map.mp (hstream.mem (List.mem_map_of_mem ha))
  rw [← hchunk] at he ⊢
  obtain ⟨e', he', hvalue, hms⟩ := (mem_entriesForTransfer hl).mp hentry
  obtain ⟨hlook, hlive⟩ := seen_eq_some.mp he'
  rw [he] at hlook
  cases hlook
  exact ⟨hlive, hvalue, hms⟩

/-- What the stream leaves under a key. -/
theorem lookup_receive_arrivals (hl : source.Lists listing)
    (hstream : arrivals.map (·.2) <+: transferKeys taken listing) {a : Instant × TransferChunk}
    (ha : a ∈ arrivals) (joiner : CacheStore) :
    (joiner.receive arrivals).data.lookup a.2.key
      = if a.2.expiresAtMs = some 0 then joiner.data.lookup a.2.key else some (chunkEntry a) := by
  rw [CacheStore.lookup_receive, lastChunk_of_nodup (nodup_arrivals hl hstream) ha]
  split_ifs <;> rfl

/-- A read finds nothing under an entry that has expired. -/
theorem get_eq_none_of_expired {s : CacheStore} {key : String} {value : Bytes}
    {expiresAt now : Instant} (hlook : s.data.lookup key = some ⟨value, some expiresAt⟩)
    (hexp : expiresAt ≤ now) : (s.get now key).1 = none := by
  have hdead : (CacheEntry.mk value (some expiresAt)).live now = false := by
    simpa [CacheEntry.live] using hexp
  rw [CacheStore.get_fst, hlook, Option.filter_some, hdead]
  rfl

/-- The chunk is skipped, or what the stream took is within what the
conversion dropped. -/
theorem bounded_of_absorbed (hl : source.Lists listing)
    (hstream : arrivals.map (·.2) <+: transferKeys taken listing)
    {a : Instant × TransferChunk} (ha : a ∈ arrivals) (hlater : taken ≤ a.1) {e : CacheEntry}
    (he : source.data.lookup a.2.key = some e) {inst : Instant} (hexp : e.expiresAt = some inst)
    (habs : Absorbed taken a.1 inst) (joiner : CacheStore) :
    (joiner.receive arrivals).data.lookup a.2.key = joiner.data.lookup a.2.key
      ∨ ∃ inst' ≤ inst, (joiner.receive arrivals).data.lookup a.2.key
        = some ⟨e.value, some inst'⟩ := by
  obtain ⟨hlive, hvalue, hms⟩ := chunk_of_arrival hl hstream ha he
  rw [hexp, Option.map_some] at hms
  rw [lookup_receive_arrivals hl hstream ha joiner]
  by_cases hzero : a.2.expiresAtMs = some 0
  · exact .inl (if_pos hzero)
  · have hahead : taken < inst := by simpa [CacheEntry.live, hexp] using hlive
    refine .inr ⟨a.1 + fromMillis (CacheStore.remainingMs taken inst), ?_, ?_⟩
    · rw [stored_add_le_iff hahead hlater]
      rcases habs with hnone | hle
      · rw [hms, Option.some.injEq, ← UInt64.toNat_inj, toNat_remainingMs] at hzero
        exact absurd hnone hzero
      · exact hle
    · rw [if_neg hzero, chunkEntry, hms, hvalue]
      rfl

theorem notProlonged_of_absorbed (hl : source.Lists listing)
    (hstream : arrivals.map (·.2) <+: transferKeys taken listing)
    {a : Instant × TransferChunk} (ha : a ∈ arrivals) (hlater : taken ≤ a.1) {e : CacheEntry}
    (he : source.data.lookup a.2.key = some e)
    (habs : ∀ inst, e.expiresAt = some inst → Absorbed taken a.1 inst) (joiner : CacheStore) :
    NotProlonged e a.2.key joiner (joiner.receive arrivals) := by
  have hbound := fun inst hexp =>
    bounded_of_absorbed hl hstream ha hlater he hexp (habs inst hexp) joiner
  refine ⟨fun hnone => ?_, hbound, fun now hdead => ?_⟩
  · obtain ⟨-, hvalue, hms⟩ := chunk_of_arrival hl hstream ha he
    rw [hnone, Option.map_none] at hms
    rw [lookup_receive_arrivals hl hstream ha joiner, hms, chunkEntry, hms, hvalue]
    rfl
  · cases hexp : e.expiresAt with
    | none => simp [CacheEntry.live, hexp] at hdead
    | some inst =>
        have hpast : inst ≤ now := by simpa [CacheEntry.live, hexp] using hdead
        rcases hbound inst hexp with hsame | ⟨inst', hle, hentry⟩
        · right
          rw [CacheStore.get_fst, CacheStore.get_fst, hsame]
        · exact .inl (get_eq_none_of_expired hentry (hle.trans hpast))

/-- **When a transfer does not prolong lives.** Exactly when, for every
chunk of a key with an expiry, no more time passes until the insertion
than the conversion to milliseconds takes off. -/
theorem neverProlongs_iff (hl : source.Lists listing)
    (hstream : arrivals.map (·.2) <+: transferKeys taken listing)
    (hlater : ∀ a ∈ arrivals, taken ≤ a.1) :
    NeverProlongs source arrivals
      ↔ ∀ a ∈ arrivals, ∀ e inst, source.data.lookup a.2.key = some e →
        e.expiresAt = some inst → Absorbed taken a.1 inst := by
  constructor
  · intro h a ha e inst he hexp
    obtain ⟨hlive, -, hms⟩ := chunk_of_arrival hl hstream ha he
    rw [hexp, Option.map_some] at hms
    have hahead : taken < inst := by simpa [CacheEntry.live, hexp] using hlive
    by_cases hzero : CacheStore.remainingMs taken inst = 0
    · left
      rw [← toNat_remainingMs, hzero]
      rfl
    · -- an empty joiner shows what the chunk alone gives
      right
      have hlook := lookup_receive_arrivals hl hstream ha .new
      rw [if_neg (by simpa [hms] using hzero), chunkEntry, hms, Option.map_some] at hlook
      rw [← stored_add_le_iff hahead (hlater a ha)]
      rcases (h .new a ha e he).bounded inst hexp with hsame | ⟨inst', hle, hentry⟩
      · rw [hlook] at hsame
        cases hsame
      · rw [hlook] at hentry
        simp only [Option.some.injEq, CacheEntry.mk.injEq] at hentry
        rw [hentry.2]
        exact hle
  · intro h joiner a ha e he
    exact notProlonged_of_absorbed hl hstream ha (hlater a ha) he
      (fun inst hexp => h a ha e inst he hexp) joiner

end Arrivals

/-- One key with a minute to live at the source, at time zero. -/
def oneMinute : CacheStore := CacheStore.new.set 0 "k" [118] (some 60000000000)

/-- The chunk is stored at once: the key expires when it does at the
source. -/
theorem neverProlongs_at_once :
    NeverProlongs oneMinute [(0, ⟨"k", [118], some 60000⟩)] := by
  have hstream : ([(0, ⟨"k", [118], some 60000⟩)] : List (Instant × TransferChunk)).map (·.2)
      <+: transferKeys 0 [("k", ⟨[118], some 60000000000⟩)] := by
    decide
  rw [neverProlongs_iff (by decide) hstream (by simp)]
  intro a ha e inst he hexp
  rw [List.mem_singleton.mp ha] at he ⊢
  have hentry : e = ⟨[118], some 60000000000⟩ := by simpa [oneMinute] using he.symm
  rw [hentry] at hexp
  cases hexp
  exact .inr (by decide)

/-- The chunk is stored a second later: a minute after the snapshot the
joiner still reads the key. -/
theorem prolonged_by_a_second :
    oneMinute.Lists [("k", ⟨[118], some 60000000000⟩)]
    ∧ transferKeys 0 [("k", ⟨[118], some 60000000000⟩)] = [⟨"k", [118], some 60000⟩]
    ∧ (oneMinute.get 60000000000 "k").1 = none
    ∧ ((CacheStore.new.receive [(1000000000, ⟨"k", [118], some 60000⟩)]).get 60000000000 "k").1
      = some [118]
    ∧ ¬ NeverProlongs oneMinute [(1000000000, ⟨"k", [118], some 60000⟩)] := by
  refine ⟨by decide, by decide, by decide, by decide, fun h => ?_⟩
  have hread := (h .new _ (List.mem_singleton.mpr rfl) _ rfl).unreadable 60000000000 (by decide)
  exact absurd hread (by decide)

end SelfHealingCache
