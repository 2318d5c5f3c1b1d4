import Mathlib.Logic.Relation
import SelfHealingCache.Cluster.RingAgreement
import SelfHealingCache.Common.PreferenceOrder
import SelfHealingCache.Node.Entries
import SelfHealingCache.Router.WriteEffect

/-!
# Keys through joins

What the rebalancer of `crates/node/src/rebalance/mod.rs` does for the
clients of the router: a node that joins pulls, into its empty store that
nothing else touches meanwhile, the keys its OWN ring gives it, from the
routable peers in its own table; and then it is on the router's ring, at
the address it serves at. (Gossip does not tell the router that address,
see `Cluster/OwnAddresses`; a router that is started again with the node
in its configuration has it.)

Nothing says that the two rings agree. The table may hold ids that were
made up for seed addresses; the joiner pulls from these addresses too,
and its ring counts the made-up ids as members. A key that the router
will ask the joiner for may then be one that it refused. So agreement is
not assumed here: `Join.Knows` is what is needed of it, for one key, and
`Join.owned_iff_of_ids` derives it where the ids agree.

A joiner pulls only keys it is the OWNER of. As a mere replica it starts
empty, and reads pass it by. `joins_keep_reads` is exactly which join
keeps a key with its owner. It assumes that no second value of the key is
about: of two copies that are streamed the one that comes last wins,
whatever it says.

Nobody drops a key it no longer replicates. Such a copy is not reached by
a delete, and it is streamed to the next joiner that takes the key:
`deleted_key_returns_iff` is exactly when a deleted key comes back. It is
about copies without an expiry; another might expire on the way.

Both rest on `HashRing.DistinctPositions`, without which a joiner
overwrites positions of the others.
-/

namespace SelfHealingCache

/-! ## Streams and what they bring -/

section Streams

variable {ε : Type*} {k : String}

/-- What arrived is what `transfer_keys` sent, up to a break. -/
def StreamOf (source : CacheStore) (answer : Except ε (ChunkStream ε)) : Prop :=
  ∃ taken listing, source.Lists listing
    ∧ (delivered answer).map (·.2) <+: transferKeys taken listing

/-- All of it arrived. -/
def WholeStream (source : CacheStore) (answer : Except ε (ChunkStream ε)) : Prop :=
  ∃ taken listing, source.Lists listing
    ∧ (delivered answer).map (·.2) = transferKeys taken listing

/-- A chunk is made from an entry of the source. -/
theorem StreamOf.entry {source : CacheStore} {answer : Except ε (ChunkStream ε)}
    (h : StreamOf source answer) {a : Instant × TransferChunk} (ha : a ∈ delivered answer) :
    ∃ e, source.data.lookup a.2.key = some e ∧ a.2.value = e.value
      ∧ (e.expiresAt = none → a.2.expiresAtMs = none) := by
  obtain ⟨taken, listing, hl, hsent⟩ := h
  obtain ⟨e, he, _, hvalue, hms⟩ :=
    CacheStore.entry_of_chunk hl (hsent.mem (List.mem_map_of_mem ha))
  refine ⟨e, he, hvalue, fun hnone => ?_⟩
  rw [hms, hnone]
  rfl

/-- A whole stream has every entry without an expiry. -/
theorem WholeStream.chunk {source : CacheStore} {answer : Except ε (ChunkStream ε)}
    (h : WholeStream source answer) {v : Bytes}
    (he : source.data.lookup k = some ⟨v, none⟩) :
    ∃ a ∈ delivered answer, a.2 = ⟨k, v, none⟩ := by
  obtain ⟨taken, listing, hl, hsent⟩ := h
  have hseen : Expiring.seen CacheEntry.live taken source.data.lookup k = some ⟨v, none⟩ :=
    Expiring.seen_eq_some.mpr ⟨he, rfl⟩
  have hin : (⟨k, v, none⟩ : TransferChunk) ∈ transferKeys taken listing :=
    List.mem_map.mpr ⟨(k, v, none), (mem_entriesForTransfer hl).mpr ⟨_, hseen, rfl, rfl⟩, rfl⟩
  rw [← hsent] at hin
  exact List.mem_map.mp hin

/-- The last chunk of a key came from one of the peers. -/
theorem mem_of_lastChunk {localId : NodeId} {peers : List (NodeInfo × Except ε (ChunkStream ε))}
    {a : Instant × TransferChunk} (h : lastChunk k (received localId peers) = some a) :
    a.2.key = k ∧ ∃ p ∈ peers, p.1.id ≠ localId ∧ a ∈ delivered p.2 := by
  obtain ⟨hin, hcond⟩ := List.mem_filter.mp (List.mem_of_getLast? h)
  simp only [decide_eq_true_eq] at hcond
  obtain ⟨p, hp, ha⟩ := List.mem_flatMap.mp hin
  obtain ⟨hp, hid⟩ := List.mem_filter.mp hp
  exact ⟨hcond.1, p, hp, by simpa using hid, ha⟩

theorem lastChunk_isSome {localId : NodeId} {peers : List (NodeInfo × Except ε (ChunkStream ε))}
    {p : NodeInfo × Except ε (ChunkStream ε)} (hp : p ∈ peers) (hid : p.1.id ≠ localId)
    {a : Instant × TransferChunk} (ha : a ∈ delivered p.2) (hkey : a.2.key = k)
    (hms : a.2.expiresAtMs = none) : ∃ c, lastChunk k (received localId peers) = some c := by
  have hin : a ∈ received localId peers :=
    List.mem_flatMap.mpr ⟨p, List.mem_filter.mpr ⟨hp, by simpa using hid⟩, ha⟩
  have hmem : a ∈ (received localId peers).filter
      fun c => c.2.key = k ∧ c.2.expiresAtMs ≠ some 0 :=
    List.mem_filter.mpr ⟨hin, by simp [hkey, hms]⟩
  exact ⟨_, List.getLast?_eq_some_getLast (List.ne_nil_of_mem hmem)⟩

end Streams

/-! ## Joins -/

/-- The router's ring, and the nodes. -/
structure Deployment where
  ring : HashRing
  fleet : Fleet

/-- A node that joins: new on the router's ring, at an address of its
own. The rebalancer has read `seen` from its `table`, and the streams it
got are from the stores at the addresses it knew. -/
structure Join (X : Crates) (s : Deployment) where
  info : NodeInfo
  isNew : s.ring.containsNode info.id = false
  ownAddr : ∀ n ∈ s.ring.nodes, n.addr ≠ info.addr
  table : MembershipTable
  isTable : table.localId = info.id
  seen : List MemberEntry
  isSeen : seen.Perm table.routablePeers
  peers : List (NodeInfo × Except String (ChunkStream String))
  arePeers : peers.map (·.1) = seen.map (·.info)
  elsewhere : ∀ p ∈ peers, p.1.addr ≠ info.addr
  streams : ∀ p ∈ peers, StreamOf (s.fleet p.1.addr).store p.2

namespace Join

variable {X : Crates} {s : Deployment}

/-- The ring it pulls with. -/
def ring (j : Join X s) : HashRing := buildRing X j.table j.seen

/-- After the join: the new node has pulled into its empty store and is
on the router's ring. -/
def after (j : Join X s) : Deployment where
  ring := s.ring.addNode X j.info
  fleet := Function.update s.fleet j.info.addr
    { s.fleet j.info.addr with store := (rebalance X j.info.id j.ring .new j.peers).2 }

/-- The joiner takes `k` if the router is going to ask it for `k`. -/
def Knows (j : Join X s) (k : String) : Prop :=
  j.after.ring.getNode X k = some j.info → Owned X j.info.id j.ring k

/-- Somebody in the table is at the address of the owner of `k`, under
whatever id, and sent the whole store. -/
def HearsOwner (j : Join X s) (k : String) : Prop :=
  ∀ n, s.ring.getNode X k = some n →
    ∃ p ∈ j.peers, p.1.addr = n.addr ∧ WholeStream (s.fleet p.1.addr).store p.2

theorem peer_id_ne (j : Join X s) {p : NodeInfo × Except String (ChunkStream String)}
    (hp : p ∈ j.peers) : p.1.id ≠ j.info.id := by
  have hin : p.1 ∈ j.seen.map (·.info) := by
    rw [← j.arePeers]
    exact List.mem_map_of_mem hp
  obtain ⟨e, he, hinfo⟩ := List.mem_map.mp hin
  rw [← hinfo, ← j.isTable]
  exact (MembershipTable.mem_routablePeers.mp (j.isSeen.mem_iff.mp he)).2.1

/-- **What a join changes**: at the joiner's address, a key its ring gives
it is what the last chunk for it says, and no other key is there. -/
theorem entry_after (j : Join X s) (a k : String) :
    j.after.fleet.entry a k
      = if a = j.info.addr then
          if Owned X j.info.id j.ring k
          then (lastChunk k (received j.info.id j.peers)).map chunkEntry else none
        else s.fleet.entry a k := by
  have hstore : (rebalance X j.info.id j.ring .new j.peers).2.data.lookup k
      = if Owned X j.info.id j.ring k
        then (lastChunk k (received j.info.id j.peers)).map chunkEntry else none := by
    rw [rebalance, rebalanceLoop_snd, lookup_receive_kept]
    have hempty : CacheStore.new.data.lookup k = none := rfl
    simp only [hempty, Option.or_none]
  show Fleet.entry (Function.update s.fleet j.info.addr _) a k = _
  rw [Fleet.entry_update, hstore]

/-- What is in the joiner's store was in the store of a peer. -/
theorem source_of_lastChunk (j : Join X s) {k : String} {a : Instant × TransferChunk}
    (h : lastChunk k (received j.info.id j.peers) = some a) :
    ∃ p ∈ j.peers, ∃ e, s.fleet.entry p.1.addr k = some e ∧ a.2.value = e.value
      ∧ (e.expiresAt = none → chunkEntry a = ⟨e.value, none⟩) := by
  obtain ⟨hkey, p, hp, _, hin⟩ := mem_of_lastChunk h
  obtain ⟨e, he, hvalue, hms⟩ := (j.streams p hp).entry hin
  rw [hkey] at he
  refine ⟨p, hp, e, he, hvalue, fun hnone => ?_⟩
  rw [chunkEntry, hvalue, hms hnone]
  rfl

section Ring

variable {vnodeCount : Nat} {ids : List NodeId}

theorem id_ne (j : Join X s) {n : NodeInfo} (hn : n ∈ s.ring.nodes) : n.id ≠ j.info.id := by
  intro hid
  have hin : s.ring.containsNode j.info.id = true :=
    HashRing.containsNode_iff.mpr (hid ▸ List.mem_map_of_mem hn)
  rw [j.isNew] at hin
  cases hin

theorem mem_nodes_after (j : Join X s) {n : NodeInfo} :
    n ∈ j.after.ring.nodes ↔ n ∈ s.ring.nodes ∨ n = j.info := by
  simp [after, HashRing.addNode]

/-- The owner stays or is the joiner. -/
theorem getNode_after (j : Join X s) (hd : HashRing.DistinctPositions X vnodeCount ids)
    (hs : s.ring.Settled X vnodeCount ids) (hid : j.info.id ∈ ids) (k : String) :
    j.after.ring.getNode X k = some j.info ∨ j.after.ring.getNode X k = s.ring.getNode X k := by
  have horder := hs.prefOrder_addNode hd j.isNew hid k
  have hs' := hs.addNode hd j.isNew hid
  show (s.ring.addNode X j.info).getNode X k = _ ∨ (s.ring.addNode X j.info).getNode X k = _
  rw [HashRing.getNode_eq_head?, HashRing.getNode_eq_head?]
  cases hhead : ((s.ring.addNode X j.info).prefOrder X k).head? with
  | none =>
      right
      rw [List.head?_eq_none_iff.mp hhead] at horder
      rw [← horder]
      rfl
  | some n =>
      have hn : n ∈ (s.ring.addNode X j.info).nodes :=
        HashRing.mem_nodes_of_mem_prefOrder (List.mem_of_head? hhead)
      rcases (j.mem_nodes_after).mp hn with hold | rfl
      · right
        rw [← horder, HashRing.head?_filter_of_head hhead (by simpa using j.id_ne hold)]
      · exact .inl rfl

/-- Where its routable peers are the ids on the router's ring, the joiner
takes the keys that the router will ask it for, and no others. -/
theorem owned_iff_of_ids (j : Join X s) (hd : HashRing.DistinctPositions X defaultVnodeCount ids)
    (hs : s.ring.Settled X defaultVnodeCount ids) (hid : j.info.id ∈ ids)
    (hsame : ∀ id, id ∈ j.seen.map (·.info.id) ↔ id ∈ s.ring.nodes.map (·.id)) (k : String) :
    Owned X j.info.id j.ring k ↔ j.after.ring.getNode X k = some j.info := by
  have hs' : j.after.ring.Settled X defaultVnodeCount ids := hs.addNode hd j.isNew hid
  have hring : j.ring.Settled X defaultVnodeCount ids := by
    refine (reached_buildRing j.isSeen (j.isTable ▸ hid) fun e he => ?_).settled hd
    exact hs.inPlay _ ((hsame _).mp (List.mem_map_of_mem he))
  have hagree : (j.ring.getNode X k).map (·.id) = (j.after.ring.getNode X k).map (·.id) := by
    refine hring.owner_eq hs' (fun id => ?_) k
    rw [ring, Cluster.nodes_buildRing, j.isTable]
    simp only [List.map_cons, List.map_map, List.mem_cons]
    show id = j.info.id ∨ id ∈ j.seen.map (·.info.id) ↔ _
    rw [hsame]
    simp [after, HashRing.addNode, or_comm]
  have hin : j.info ∈ j.after.ring.nodes := j.mem_nodes_after.mpr (.inr rfl)
  constructor
  · rintro ⟨owner, howner, hown⟩
    rw [howner, Option.map_some, hown] at hagree
    obtain ⟨n, hn, hnid⟩ := Option.map_eq_some_iff.mp hagree.symm
    rw [hn, ← hs'.infoOf (HashRing.mem_nodes_of_getNode hn), hnid, hs'.infoOf hin]
  · intro howner
    rw [howner, Option.map_some] at hagree
    obtain ⟨n, hn, hnid⟩ := Option.map_eq_some_iff.mp hagree
    exact ⟨n, hn, hnid⟩

end Ring

end Join

/-! ## Reads through the router -/

section Reads

variable {X : Crates} {cfg : ReplicationConfig} {health : HealthMonitor} {k : String}

/-- The routable owner heads the list. -/
theorem head?_alivePreferenceList (hr : 1 ≤ cfg.replicationFactor) {ring : HashRing}
    {n : NodeInfo} (hn : ring.getNode X k = some n) (halive : health.isAlive n.id) :
    (alivePreferenceList X cfg ring health k).head? = some n := by
  rw [HashRing.getNode_eq_head?] at hn
  obtain ⟨rest, hrest⟩ := List.head?_eq_some_iff.mp hn
  obtain ⟨others, hothers⟩ := @ListWalk.select_append_cons _ (max cfg.extra 1)
    cfg.replicationFactor (fun m : NodeInfo => health.isAlive m.id) [] rest n (by simp) halive
    hr
  rw [List.nil_append] at hothers
  rw [alivePreferenceList_eq X hr, hrest, hothers]
  rfl

theorem mem_nodes_of_mem_alivePreferenceList (hr : 1 ≤ cfg.replicationFactor) {ring : HashRing}
    {n : NodeInfo} (h : n ∈ alivePreferenceList X cfg ring health k) : n ∈ ring.nodes := by
  rw [alivePreferenceList_eq X hr] at h
  exact HashRing.mem_nodes_of_mem_prefOrder
    (List.mem_of_mem_take (List.mem_filter.mp (List.mem_of_mem_take h)).1)

/-- Besides the joiner, the list after a join has nobody new. -/
theorem Join.mem_of_mem_after {s : Deployment} (j : Join X s) {vnodeCount : Nat}
    {ids : List NodeId} (hd : HashRing.DistinctPositions X vnodeCount ids)
    (hs : s.ring.Settled X vnodeCount ids) (hid : j.info.id ∈ ids)
    (hr : 1 ≤ cfg.replicationFactor) {n : NodeInfo}
    (h : n ∈ alivePreferenceList X cfg j.after.ring health k) (hne : n.id ≠ j.info.id) :
    n ∈ alivePreferenceList X cfg s.ring health k := by
  rw [alivePreferenceList_eq X hr] at h ⊢
  rw [← hs.prefOrder_addNode hd j.isNew hid k]
  apply (ListWalk.prefix_filter_select ..).mem
  exact List.mem_filter.mpr ⟨h, by simpa using hne⟩

/-- A read with every call answered at `now` finds something exactly when
some chosen node has something readable. -/
theorem found_iff (hretries : 1 ≤ cfg.maxRetries) {ring : HashRing} {now : Instant}
    {fleet : Fleet} :
    (∃ v, (coordinatorGet X cfg ring health k (fun _ _ => ⟨.answered, now⟩) fleet).1
        = .ok ⟨some v, true⟩)
      ↔ ∃ n ∈ alivePreferenceList X cfg ring health k,
          (fleet.readable now n.addr k).isSome := by
  by_cases hempty : alivePreferenceList X cfg ring health k = []
  · simp [coordinatorGet, hempty]
  · rw [coordinatorGet_answered X cfg ring health k now hretries fleet hempty,
      ← List.findSome?_isSome_iff]
    cases (alivePreferenceList X cfg ring health k).findSome?
        fun n => fleet.readable now n.addr k with
    | none => simp
    | some e => simp

end Reads

/-! ## A key through any number of joins -/

section Joins

variable {X : Crates} {ids : List NodeId} {k : String} {v : Bytes}

/-- The owner of `k` holds `v`, and nobody holds anything else. -/
structure Deployment.Keeps (X : Crates) (ids : List NodeId) (k : String) (v : Bytes)
    (s : Deployment) : Prop where
  settled : s.ring.Settled X defaultVnodeCount ids
  owner : ∃ n, s.ring.getNode X k = some n ∧ s.fleet.entry n.addr k = some ⟨v, none⟩
  agree : ∀ a e, s.fleet.entry a k = some e → e = ⟨v, none⟩

/-- A join that gets the whole stream of the owner of `k`, whatever the
other peers send, by a node that takes `k` if it is asked for it; or
anything that leaves the ring and the entries of `k` alone. -/
inductive Deployment.Step (X : Crates) (ids : List NodeId) (k : String) (s : Deployment) :
    Deployment → Prop where
  | join (j : Join X s) (hid : j.info.id ∈ ids) (howner : j.HearsOwner k) (hknows : j.Knows k) :
      Step X ids k s j.after
  | other (t : Deployment) (hring : t.ring = s.ring)
      (hentry : ∀ a, t.fleet.entry a k = s.fleet.entry a k) : Step X ids k s t

/-- Whatever is brought for `k` is its value. -/
theorem Deployment.Keeps.brought {s : Deployment} (h : s.Keeps X ids k v) (j : Join X s)
    {a : Instant × TransferChunk} (ha : lastChunk k (received j.info.id j.peers) = some a) :
    chunkEntry a = ⟨v, none⟩ := by
  obtain ⟨p, _, e, hentry, _, hchunk⟩ := j.source_of_lastChunk ha
  obtain rfl := h.agree _ e hentry
  exact hchunk rfl

/-- A joiner that takes `k` has it from the owner. -/
theorem Deployment.Keeps.taken {s : Deployment} (h : s.Keeps X ids k v) (j : Join X s)
    (howner : j.HearsOwner k) (htaken : Owned X j.info.id j.ring k) :
    j.after.fleet.entry j.info.addr k = some ⟨v, none⟩ := by
  obtain ⟨n, hn, he⟩ := h.owner
  obtain ⟨p, hp, haddr, hwhole⟩ := howner n hn
  rw [← haddr] at he
  obtain ⟨a, ha, hchunk⟩ := hwhole.chunk he
  obtain ⟨c, hc⟩ := lastChunk_isSome hp (j.peer_id_ne hp) ha (by rw [hchunk]) (by rw [hchunk])
  rw [j.entry_after, if_pos rfl, if_pos htaken, hc, Option.map_some, h.brought j hc]

/-- **One join.** The key stays with its owner exactly when the joiner
takes it or is not going to be asked for it. -/
theorem Deployment.Keeps.after_iff (hd : HashRing.DistinctPositions X defaultVnodeCount ids)
    {s : Deployment} (h : s.Keeps X ids k v) (j : Join X s) (hid : j.info.id ∈ ids)
    (howner : j.HearsOwner k) : j.after.Keeps X ids k v ↔ j.Knows k := by
  constructor
  · -- the joiner holds the key only if it has taken it
    intro hafter hjoiner
    obtain ⟨n, hn, he⟩ := hafter.owner
    obtain rfl : j.info = n := Option.some.inj (hjoiner.symm.trans hn)
    rw [j.entry_after, if_pos rfl] at he
    by_contra hnot
    rw [if_neg hnot] at he
    cases he
  · intro hknows
    refine ⟨h.settled.addNode hd j.isNew hid, ?_, fun a e hae => ?_⟩
    · rcases j.getNode_after hd h.settled hid k with hjoiner | hsame
      · exact ⟨j.info, hjoiner, h.taken j howner (hknows hjoiner)⟩
      · -- the owner stays, and the join leaves its store alone
        obtain ⟨n, hn, he⟩ := h.owner
        refine ⟨n, hsame.trans hn, ?_⟩
        rw [j.entry_after, if_neg (j.ownAddr n (HashRing.mem_nodes_of_getNode hn))]
        exact he
    · rw [j.entry_after] at hae
      split_ifs at hae
      · obtain ⟨c, hc, rfl⟩ := Option.map_eq_some_iff.mp hae
        exact h.brought j hc
      · exact h.agree a e hae

theorem Deployment.Keeps.step (hd : HashRing.DistinctPositions X defaultVnodeCount ids)
    {s t : Deployment} (h : s.Keeps X ids k v) (hstep : s.Step X ids k t) :
    t.Keeps X ids k v := by
  cases hstep with
  | join j hid howner hknows => exact (h.after_iff hd j hid howner).mpr hknows
  | other t hring hentry =>
      obtain ⟨n, hn, he⟩ := h.owner
      refine ⟨hring ▸ h.settled, ⟨n, by rw [hring]; exact hn, (hentry n.addr).trans he⟩, ?_⟩
      intro a e hae
      exact h.agree a e ((hentry a).symm.trans hae)

theorem Deployment.Keeps.run (hd : HashRing.DistinctPositions X defaultVnodeCount ids)
    {s t : Deployment} (h : s.Keeps X ids k v)
    (hrun : Relation.ReflTransGen (Deployment.Step X ids k) s t) : t.Keeps X ids k v := by
  induction hrun with
  | refl => exact h
  | tail _ hstep ih => exact ih.step hd hstep

/-- **Joins keep reads.** Where `k` has one value, with its owner, and no
expiry: a join with the whole stream of the owner keeps it with the owner
exactly when the joiner takes `k` or is not going to be asked for it. It
does so when its peers are the ids on the router's ring. After any number
of such joins a read through the router finds the value, as long as the
owner of `k` is routable and the calls are answered. -/
theorem joins_keep_reads (X : Crates) {ids : List NodeId}
    (hd : HashRing.DistinctPositions X defaultVnodeCount ids) (k : String) (v : Bytes)
    {s : Deployment} (hs : s.Keeps X ids k v) :
    (∀ j : Join X s, j.info.id ∈ ids → j.HearsOwner k →
      (j.after.Keeps X ids k v ↔ j.Knows k)
      ∧ ((∀ id, id ∈ j.seen.map (·.info.id) ↔ id ∈ s.ring.nodes.map (·.id)) → j.Knows k))
    ∧ ∀ t, Relation.ReflTransGen (Deployment.Step X ids k) s t →
      ∀ (cfg : ReplicationConfig) (health : HealthMonitor), 1 ≤ cfg.replicationFactor →
      1 ≤ cfg.maxRetries → (∀ n, t.ring.getNode X k = some n → health.isAlive n.id) → ∀ now,
      (coordinatorGet X cfg t.ring health k (fun _ _ => ⟨.answered, now⟩) t.fleet).1
        = .ok ⟨some v, true⟩ := by
  refine ⟨fun j hid howner => ⟨hs.after_iff hd j hid howner, fun hsame => ?_⟩, ?_⟩
  · exact (j.owned_iff_of_ids hd hs.settled hid hsame k).mpr
  · intro t hrun cfg health hr hretries halive now
    obtain ⟨n, hn, he⟩ := (hs.run hd hrun).owner
    obtain ⟨rest, hrest⟩ :=
      List.head?_eq_some_iff.mp (head?_alivePreferenceList hr hn (halive n hn))
    have hlist : alivePreferenceList X cfg t.ring health k ≠ [] := by
      rw [hrest]
      exact List.cons_ne_nil n rest
    have hread : t.fleet.readable now n.addr k = some ⟨v, none⟩ := by
      rw [Fleet.readable, he]
      rfl
    rw [coordinatorGet_answered X cfg t.ring health k now hretries t.fleet hlist, hrest,
      List.findSome?_cons, hread]

/-- All virtual nodes of a node in one place, the last digit of its id. -/
def placeHash (bytes : ByteArray) : UInt64 := (bytes.data.toList.getD 35 0).toUInt64

theorem distinctPositions_placeHash :
    HashRing.DistinctPositions (.hyphenated placeHash) defaultVnodeCount [⟨1⟩, ⟨2⟩, ⟨3⟩] :=
  .of_owner id (fun a => 48 + UInt64.ofNat a.uuid.toNat) (by decide +kernel) (by decide)

/-- Node 2 alone, with one key. -/
def oneNode : Deployment where
  ring := HashRing.new.addNode (.hyphenated placeHash) ⟨⟨2⟩, "b"⟩
  fleet addr := ⟨if addr = "b" then CacheStore.new.set 0 "key" [7] none else .new,
    .new 0 ⟨2⟩ [], ∅⟩

/-- Node 1 joins it; every key is nearer to node 1. -/
def joinOne : Join (.hyphenated placeHash) oneNode where
  info := ⟨⟨1⟩, "a"⟩
  isNew := by decide
  ownAddr := by decide
  table := .new 0 ⟨1⟩ [⟨⟨2⟩, "b"⟩]
  isTable := MembershipTable.localId_new ..
  seen := [⟨⟨⟨2⟩, "b"⟩, .alive, 0, 0⟩]
  isSeen := List.Perm.refl _
  peers := [(⟨⟨2⟩, "b"⟩, .ok [.ok (1, ⟨"key", [7], none⟩)])]
  arePeers := rfl
  elsewhere := by decide
  streams p hp := by
    rw [List.mem_singleton.mp hp]
    exact ⟨0, [("key", ⟨[7], none⟩)], by decide, by decide⟩

theorem settled_oneNode :
    oneNode.ring.Settled (.hyphenated placeHash) defaultVnodeCount [⟨1⟩, ⟨2⟩, ⟨3⟩] :=
  (HashRing.settled_empty _ _ _).addNode distinctPositions_placeHash (by decide) (by decide)

theorem joins_keep_reads_joinOne :
    (joinOne.after.ring.getNode (.hyphenated placeHash) "key" = some ⟨⟨1⟩, "a"⟩)
    ∧ (coordinatorGet (.hyphenated placeHash) ⟨1, 1⟩ joinOne.after.ring .new "key"
        (fun _ _ => ⟨.answered, 5⟩) joinOne.after.fleet).1 = .ok ⟨some [7], true⟩ := by
  have howner : oneNode.ring.getNode (.hyphenated placeHash) "key" = some ⟨⟨2⟩, "b"⟩ := by
    decide +kernel
  have hkeeps : oneNode.Keeps (.hyphenated placeHash) [⟨1⟩, ⟨2⟩, ⟨3⟩] "key" [7] := by
    refine ⟨settled_oneNode, ⟨_, howner, by decide⟩, fun a e hae => ?_⟩
    by_cases ha : a = "b"
    · have hentry : oneNode.fleet.entry "b" "key" = some ⟨[7], none⟩ := by decide
      rw [ha, hentry] at hae
      exact (Option.some.inj hae).symm
    · have hentry : oneNode.fleet.entry a "key" = CacheStore.new.data.lookup "key" := by
        simp [Fleet.entry, oneNode, ha]
      rw [hentry] at hae
      cases hae
  have hhears : joinOne.HearsOwner "key" := by
    intro n hn
    rw [howner] at hn
    cases hn
    exact ⟨_, List.mem_singleton_self _, rfl, 0, [("key", ⟨[7], none⟩)], by decide, by decide⟩
  have hkeep := joins_keep_reads _ distinctPositions_placeHash "key" [7] hkeeps
  have hknows : joinOne.Knows "key" := by
    refine (hkeep.1 joinOne (by decide) hhears).2 fun id => ?_
    simp [joinOne, oneNode, HashRing.addNode, HashRing.new, HashRing.withVnodeCount]
  have hstep : oneNode.Step (.hyphenated placeHash) [⟨1⟩, ⟨2⟩, ⟨3⟩] "key" joinOne.after :=
    .join joinOne (by decide) hhears hknows
  exact ⟨by decide +kernel, hkeep.2 joinOne.after (.single hstep) ⟨1, 1⟩ .new (by decide)
    (by decide) (fun _ _ => rfl) 5⟩

/-! ## A deleted key -/

/-- A delete that reached every chosen replica empties the chosen
addresses and leaves the others alone. -/
theorem entry_deleted {X : Crates} {cfg : ReplicationConfig} {ring : HashRing}
    {health : HealthMonitor} {k : String} {faults : Faults} {fleet fleet₁ : Fleet}
    {resp : DeleteResponse}
    (hdelete : coordinatorDelete X cfg ring health k faults fleet = (.ok resp, fleet₁))
    (hreached : ∀ m ∈ alivePreferenceList X cfg ring health k,
      Delivered cfg.maxRetries (faults m)) (a : String) :
    fleet₁.entry a k = if ∃ m ∈ alivePreferenceList X cfg ring health k, m.addr = a then none
      else fleet.entry a k := by
  have hlist : alivePreferenceList X cfg ring health k ≠ [] := by
    intro hempty
    simp [coordinatorDelete, hempty] at hdelete
  rw [coordinatorDelete_eq hlist] at hdelete
  cases hdelete
  split_ifs with hchosen
  · obtain ⟨m, hm, rfl⟩ := hchosen
    exact entry_deleteNodes_of_delivered (.inr ⟨m, hm, rfl, hreached m hm⟩)
  · exact entry_deleteNodes_of_not_delivered fun m hm hma => absurd ⟨m, hm, hma⟩ hchosen

/-- A joiner that gets the whole streams of its peers has a key, which no
copy of theirs has an expiry for, exactly when it takes the key and one of
them has it. -/
theorem Join.brought_iff {X : Crates} {s : Deployment} (j : Join X s) {k : String}
    (hlasting : ∀ p ∈ j.peers, ∀ e, s.fleet.entry p.1.addr k = some e → e.expiresAt = none)
    (hwhole : ∀ p ∈ j.peers, WholeStream (s.fleet p.1.addr).store p.2) (now : Instant) :
    (j.after.fleet.readable now j.info.addr k).isSome
      ↔ Owned X j.info.id j.ring k
        ∧ ∃ p ∈ j.peers, (s.fleet.entry p.1.addr k).isSome := by
  rw [Fleet.readable, j.entry_after, if_pos rfl]
  split_ifs with hown
  · rw [and_iff_right hown]
    constructor
    · intro hread
      cases hlast : lastChunk k (received j.info.id j.peers) with
      | none =>
          rw [hlast] at hread
          cases hread
      | some a =>
          obtain ⟨p, hp, e, he, _⟩ := j.source_of_lastChunk hlast
          exact ⟨p, hp, Option.isSome_iff_exists.mpr ⟨e, he⟩⟩
    · rintro ⟨p, hp, hsome⟩
      obtain ⟨⟨value, expiresAt⟩, he⟩ := Option.isSome_iff_exists.mp hsome
      obtain rfl : expiresAt = none := hlasting p hp _ he
      obtain ⟨a, ha, hchunk⟩ := (hwhole p hp).chunk he
      obtain ⟨c, hc⟩ := lastChunk_isSome hp (j.peer_id_ne hp) ha (by rw [hchunk]) (by rw [hchunk])
      -- the last chunk may be another peer's; that entry never expires either
      obtain ⟨q, hq, e, hentry, _, hlast⟩ := j.source_of_lastChunk hc
      rw [hc, Option.map_some, hlast (hlasting q hq e hentry)]
      rfl
  · exact iff_of_false Bool.false_ne_true fun h => hown h.1

/-- **When a deleted key returns.** The delete reached every chosen
replica, and no copy has an expiry. The node that joins next, with the
whole streams of all the peers in its table, brings the key back exactly
when it is among the nodes a read asks, its own ring gives it the key, and
one of its peers, outside the chosen replicas, still had a copy. -/
theorem deleted_key_returns_iff (X : Crates) {vnodeCount : Nat} {ids : List NodeId}
    (hd : HashRing.DistinctPositions X vnodeCount ids) {cfg : ReplicationConfig}
    (hr : 1 ≤ cfg.replicationFactor) (hretries : 1 ≤ cfg.maxRetries) {ring : HashRing}
    {health : HealthMonitor} {k : String} {faults : Faults} {fleet fleet₁ : Fleet}
    {resp : DeleteResponse} (hs : ring.Settled X vnodeCount ids)
    (hdelete : coordinatorDelete X cfg ring health k faults fleet = (.ok resp, fleet₁))
    (hreached : ∀ m ∈ alivePreferenceList X cfg ring health k,
      Delivered cfg.maxRetries (faults m))
    (j : Join X ⟨ring, fleet₁⟩) (hid : j.info.id ∈ ids)
    (hlasting : ∀ p ∈ j.peers, ∀ e, fleet.entry p.1.addr k = some e → e.expiresAt = none)
    (hwhole : ∀ p ∈ j.peers, WholeStream (fleet₁ p.1.addr).store p.2) (now : Instant) :
    (∃ v, (coordinatorGet X cfg j.after.ring health k (fun _ _ => ⟨.answered, now⟩)
        j.after.fleet).1 = .ok ⟨some v, true⟩)
      ↔ j.info ∈ alivePreferenceList X cfg j.after.ring health k
        ∧ Owned X j.info.id j.ring k
        ∧ ∃ p ∈ j.peers, (∀ m ∈ alivePreferenceList X cfg ring health k, m.addr ≠ p.1.addr)
          ∧ (fleet.entry p.1.addr k).isSome := by
  have hentry := entry_deleted hdelete hreached
  have hleft : ∀ a, (fleet₁.entry a k).isSome
      ↔ (∀ m ∈ alivePreferenceList X cfg ring health k, m.addr ≠ a)
        ∧ (fleet.entry a k).isSome := by
    intro a
    rw [hentry]
    split_ifs with hchosen
    · obtain ⟨m, hm, hma⟩ := hchosen
      exact iff_of_false Bool.false_ne_true fun h => h.1 m hm hma
    · exact (and_iff_right fun m hm hma => hchosen ⟨m, hm, hma⟩).symm
  have hlasting₁ : ∀ p ∈ j.peers, ∀ e, fleet₁.entry p.1.addr k = some e →
      e.expiresAt = none := by
    intro p hp e he
    rw [hentry] at he
    split_ifs at he
    exact hlasting p hp e he
  have hbrought := j.brought_iff hlasting₁ hwhole now
  simp only [hleft] at hbrought
  rw [found_iff hretries, ← hbrought]
  constructor
  · rintro ⟨n, hn, hread⟩
    rcases j.mem_nodes_after.mp (mem_nodes_of_mem_alivePreferenceList hr hn) with hold | rfl
    · -- a chosen node of before the join has nothing
      have hin := j.mem_of_mem_after hd hs hid hr hn (j.id_ne hold)
      rw [Fleet.readable, j.entry_after, if_neg (j.ownAddr n hold)] at hread
      dsimp only at hread
      rw [hentry, if_pos ⟨n, hin, rfl⟩] at hread
      cases hread
    · exact ⟨hn, hread⟩
  · rintro ⟨hn, hread⟩
    exact ⟨j.info, hn, hread⟩

/-- Node 2 owns the key, and node 3 has a copy from before. -/
def oldCopy : Deployment where
  ring := oneNode.ring.addNode (.hyphenated placeHash) ⟨⟨3⟩, "c"⟩
  fleet _ := ⟨CacheStore.new.set 0 "key" [7] none, .new 0 ⟨2⟩ [], ∅⟩

/-- The key is deleted at its one replica. -/
def deletedAtOwner : Fleet :=
  (coordinatorDelete (.hyphenated placeHash) ⟨1, 1⟩ oldCopy.ring .new "key"
    (fun _ _ => ⟨.answered, 1⟩) oldCopy.fleet).2

/-- Node 1 joins through the address of node 3, which it knows by a
made-up id, and node 3 sends its copy. -/
def joinDeleted : Join (.hyphenated placeHash) ⟨oldCopy.ring, deletedAtOwner⟩ where
  info := ⟨⟨1⟩, "a"⟩
  isNew := by decide
  ownAddr := by decide
  table := .new 0 ⟨1⟩ [⟨⟨4⟩, "c"⟩]
  isTable := MembershipTable.localId_new ..
  seen := [⟨⟨⟨4⟩, "c"⟩, .alive, 0, 0⟩]
  isSeen := List.Perm.refl _
  peers := [(⟨⟨4⟩, "c"⟩, .ok [.ok (1, ⟨"key", [7], none⟩)])]
  arePeers := rfl
  elsewhere := by decide
  streams p hp := by
    rw [List.mem_singleton.mp hp]
    exact ⟨0, [("key", ⟨[7], none⟩)], by decide +kernel, by decide⟩

theorem deleted_key_returns_iff_oldCopy :
    ∃ v, (coordinatorGet (.hyphenated placeHash) ⟨1, 1⟩ joinDeleted.after.ring .new "key"
      (fun _ _ => ⟨.answered, 5⟩) joinDeleted.after.fleet).1 = .ok ⟨some v, true⟩ := by
  have hsettled : oldCopy.ring.Settled (.hyphenated placeHash) defaultVnodeCount
      [⟨1⟩, ⟨2⟩, ⟨3⟩] :=
    settled_oneNode.addNode distinctPositions_placeHash (by decide) (by decide)
  have hlist : alivePreferenceList (.hyphenated placeHash) ⟨1, 1⟩ oldCopy.ring .new "key"
      = [⟨⟨2⟩, "b"⟩] := by decide +kernel
  have hdelete : coordinatorDelete (.hyphenated placeHash) ⟨1, 1⟩ oldCopy.ring .new "key"
      (fun _ _ => ⟨.answered, 1⟩) oldCopy.fleet = (.ok ⟨true⟩, deletedAtOwner) := by
    apply Prod.ext
    · decide +kernel
    · rw [deletedAtOwner]
  have hdelivered : Delivered 1 fun _ => ⟨.answered, 1⟩ := ⟨0, by decide, trivial, by simp⟩
  have hlasting : ∀ p ∈ joinDeleted.peers, ∀ e,
      oldCopy.fleet.entry p.1.addr "key" = some e → e.expiresAt = none := by
    intro p _ e he
    cases he
    rfl
  have hwhole : ∀ p ∈ joinDeleted.peers, WholeStream (deletedAtOwner p.1.addr).store p.2 := by
    intro p hp
    rw [List.mem_singleton.mp hp]
    exact ⟨0, [("key", ⟨[7], none⟩)], by decide +kernel, by decide⟩
  have hstray : ∀ m ∈ alivePreferenceList (.hyphenated placeHash) ⟨1, 1⟩ oldCopy.ring .new
      "key", m.addr ≠ "c" := by
    rw [hlist]
    decide
  refine (deleted_key_returns_iff _ distinctPositions_placeHash (by decide) (by decide)
    hsettled hdelete (fun _ _ => hdelivered) joinDeleted (by decide) hlasting hwhole 5).mpr
      ⟨by decide +kernel, by decide +kernel, _, List.mem_singleton_self _, hstray, by decide⟩

end Joins

end SelfHealingCache
