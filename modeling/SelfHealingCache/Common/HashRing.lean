import SelfHealingCache.Common.NodeId
import SelfHealingCache.Lib.U64
import SelfHealingCache.Lib.OrderedMap
import SelfHealingCache.Lib.ListWalk

/-!
# The consistent-hash ring

`crates/common/src/hashring.rs`. The ring is a `BTreeMap` from positions
to node ids plus the list of member records; the two are updated
separately, and what links them (every position belongs to a listed
member) is the field `backed`, so every operation has to re-establish
it.

`clockwise` is the walk both lookups make: from the key's hash to the
top of the ring, then the whole ring once more. `prefOrder` is its list
of distinct members; `getPreferenceList_eq` says the lookup loop returns
its first entries, and `prefOrder_removeNode` that removing a node
deletes it from the order and moves nobody else.
-/

namespace SelfHealingCache

/-- `const DEFAULT_VNODE_COUNT`. -/
def defaultVnodeCount : Nat := 150

/-- Positions to owners, and the member records. -/
structure HashRing where
  ring : OrderedMap UInt64 NodeId
  nodes : List NodeInfo
  vnodeCount : Nat
  backed : ∀ e ∈ ring.entries, ∃ n ∈ nodes, n.id = e.2

namespace HashRing

def withVnodeCount (vnodeCount : Nat) : HashRing where
  ring := .empty
  nodes := []
  vnodeCount := vnodeCount
  backed := by simp [OrderedMap.empty]

def new : HashRing := withVnodeCount defaultVnodeCount

section Operations

variable (X : Crates)

def hashKey (key : String) : UInt64 := X.xxh3_64 key.toUTF8

/-- `format!("{}-{}", node_id, vnode_index)`, hashed. -/
def hashVnode (id : NodeId) (vnodeIndex : Nat) : UInt64 :=
  X.xxh3_64 (X.display id ++ "-" ++ toString vnodeIndex).toUTF8

/-- The position map after inserting the virtual nodes `0..count` of
`id`; an occupied position is overwritten. -/
def insertVnodes (ring : OrderedMap UInt64 NodeId) (id : NodeId) : Nat → OrderedMap UInt64 NodeId
  | 0 => ring
  | count + 1 => (insertVnodes ring id count).insert (hashVnode X id count) id

/-- Every position after the insertion is the new node's or an old one. -/
theorem mem_insertVnodes {ring : OrderedMap UInt64 NodeId} {id : NodeId} {count : Nat}
    {e : UInt64 × NodeId} (h : e ∈ (insertVnodes X ring id count).entries) :
    e.2 = id ∨ e ∈ ring.entries := by
  induction count with
  | zero => exact .inr h
  | succ count ih =>
      rcases OrderedMap.mem_insert.mp h with rfl | ⟨_, h⟩
      · exact .inl rfl
      · exact ih h

def addNode (r : HashRing) (info : NodeInfo) : HashRing where
  ring := insertVnodes X r.ring info.id r.vnodeCount
  nodes := r.nodes ++ [info]
  vnodeCount := r.vnodeCount
  backed := by
    intro e he
    rcases mem_insertVnodes X he with h | h
    · exact ⟨info, by simp, h.symm⟩
    · obtain ⟨n, hn, hid⟩ := r.backed e h
      exact ⟨n, by simp [hn], hid⟩

def removeNode (r : HashRing) (id : NodeId) : HashRing where
  ring := r.ring.retain fun _ owner => owner ≠ id
  nodes := r.nodes.filter fun n => n.id ≠ id
  vnodeCount := r.vnodeCount
  backed := by
    intro e he
    obtain ⟨he, hne⟩ := OrderedMap.mem_retain.mp he
    obtain ⟨n, hn, hid⟩ := r.backed e he
    exact ⟨n, by simpa [hn, hid] using hne, hid⟩

/-- `self.nodes.iter().find(|n| n.id == *node_id)`. -/
def findNode (r : HashRing) (id : NodeId) : Option NodeInfo :=
  r.nodes.find? fun n => n.id = id

/-- The owner of a key: the first position at or after its hash, else
the lowest position. -/
def getNode (r : HashRing) (key : String) : Option NodeInfo :=
  match (r.ring.rangeFrom (hashKey X key)).head? with
  | some (_, id) => r.findNode id
  | none =>
      match r.ring.entries.head? with
      | some (_, id) => r.findNode id
      | none => none

/-- The loop of `get_preference_list`: `seen` is the hash set, `result`
the vector. The length test runs after every NEW id, so the loop never
returns fewer than one node on a non-empty walk, `replica_count = 0`
included. -/
def walk (r : HashRing) (replicaCount : Nat) :
    List NodeId → List NodeId → List NodeInfo → List NodeInfo
  | [], _, result => result
  | id :: rest, seen, result =>
      if id ∈ seen then walk r replicaCount rest seen result
      else
        let result' := match r.findNode id with
          | some info => result ++ [info]
          | none => result
        if replicaCount ≤ result'.length then result'
        else walk r replicaCount rest (id :: seen) result'

/-- `self.ring.range(hash..).chain(self.ring.iter())`, owners only. -/
def clockwise (r : HashRing) (hash : UInt64) : List NodeId :=
  (r.ring.rangeFrom hash ++ r.ring.entries).map (·.2)

def getPreferenceList (r : HashRing) (key : String) (replicaCount : Nat) : List NodeInfo :=
  if r.ring.entries.isEmpty then []
  else r.walk replicaCount (r.clockwise (hashKey X key)) [] []

def containsNode (r : HashRing) (id : NodeId) : Bool :=
  r.nodes.any fun n => n.id = id

end Operations

/-! ## Records of the owners -/

theorem mem_clockwise {r : HashRing} {hash : UInt64} {id : NodeId} :
    id ∈ r.clockwise hash ↔ ∃ e ∈ r.ring.entries, e.2 = id := by
  simp only [clockwise, List.mem_map, List.mem_append, OrderedMap.rangeFrom, List.mem_filter]
  constructor
  · rintro ⟨e, he, hid⟩
    exact ⟨e, he.elim And.left (fun h => h), hid⟩
  · rintro ⟨e, he, hid⟩
    exact ⟨e, .inr he, hid⟩

/-- The record the ring answers for `id` (the first one listed). -/
def infoOf (r : HashRing) (id : NodeId) : NodeInfo :=
  (r.findNode id).getD ⟨id, ""⟩

@[simp] theorem infoOf_id (r : HashRing) (id : NodeId) : (r.infoOf id).id = id := by
  rw [infoOf]
  cases h : r.findNode id with
  | none => rfl
  | some n => simpa using List.find?_some h

/-- An id that owns a position has a record. -/
theorem findNode_eq_infoOf {r : HashRing} {hash : UInt64} {id : NodeId}
    (h : id ∈ r.clockwise hash) : r.findNode id = some (r.infoOf id) := by
  obtain ⟨e, he, rfl⟩ := mem_clockwise.mp h
  obtain ⟨n, hn, hid⟩ := r.backed e he
  have hsome : (r.findNode e.2).isSome := by
    rw [findNode, List.find?_isSome]
    exact ⟨n, hn, by simp [hid]⟩
  obtain ⟨m, hm⟩ := Option.isSome_iff_exists.mp hsome
  rw [infoOf, hm]
  rfl

/-! ## The lookup loop -/

/-- **The loop computes the distinct walk.** With `result` not yet full,
the loop appends the records of the new ids in walk order, up to the
limit (never below one, see `walk`). -/
theorem walk_eq {r : HashRing} {n : Nat} :
    ∀ (ids seen : List NodeId) (result : List NodeInfo),
    (∀ id ∈ ids, r.findNode id = some (r.infoOf id)) → result.length < max n 1 →
    r.walk n ids seen result
      = result ++ (((ids.filter fun id => id ∉ seen).eraseDups.map r.infoOf).take
          (max n 1 - result.length)) := by
  intro ids
  induction ids with
  | nil => intro seen result _ _; simp [walk]
  | cons id rest ih =>
      intro seen result hfind hlen
      have hrest : ∀ i ∈ rest, r.findNode i = some (r.infoOf i) :=
        fun i hi => hfind i (by simp [hi])
      rw [walk]
      by_cases hseen : id ∈ seen
      · rw [if_pos hseen, ih seen result hrest hlen,
          List.filter_cons_of_neg (by simpa using hseen)]
      · rw [if_neg hseen, hfind id (by simp), List.filter_cons_of_pos (by simpa using hseen),
          List.eraseDups_cons, List.map_cons]
        simp only [List.length_append, List.length_singleton]
        by_cases hfull : n ≤ result.length + 1
        · rw [if_pos hfull, show max n 1 - result.length = 0 + 1 by omega, List.take_succ_cons]
          simp
        · -- not full: the recursive call has one more id behind it
          rw [if_neg hfull, ih (id :: seen) _ hrest (by simp; omega),
            show max n 1 - result.length = (max n 1 - (result.length + 1)) + 1 by omega,
            List.take_succ_cons]
          have hfilter : (rest.filter fun i => i ∉ id :: seen)
              = (rest.filter fun i => i ∉ seen).filter fun i => !i == id := by
            rw [List.filter_filter]
            apply List.filter_congr
            intro i _
            by_cases hi : i = id <;> simp [hi]
          rw [hfilter, List.append_assoc, List.singleton_append, List.length_append,
            List.length_singleton]

/-- The members of the ring in the clockwise order of a key. -/
def prefOrder (X : Crates) (r : HashRing) (key : String) : List NodeInfo :=
  (r.clockwise (hashKey X key)).eraseDups.map r.infoOf

/-- `get_preference_list` is the head of the clockwise order. -/
theorem getPreferenceList_eq (X : Crates) (r : HashRing) (key : String) (n : Nat) :
    r.getPreferenceList X key n = (r.prefOrder X key).take (max n 1) := by
  rw [getPreferenceList, prefOrder]
  by_cases hempty : r.ring.entries = []
  · simp [hempty, clockwise, OrderedMap.rangeFrom]
  · rw [if_neg (by simpa using hempty),
      walk_eq _ _ _ (fun id hid => findNode_eq_infoOf hid) (by simp)]
    simp

theorem prefOrder_nodup (X : Crates) (r : HashRing) (key : String) :
    (r.prefOrder X key).Nodup := by
  apply List.Nodup.map _ (ListWalk.nodup_eraseDups _)
  intro a b h
  simpa using congrArg NodeInfo.id h

/-! ## Removal -/

theorem clockwise_removeNode (r : HashRing) (id : NodeId) (hash : UInt64) :
    (r.removeNode id).clockwise hash = (r.clockwise hash).filter fun i => i ≠ id := by
  simp only [clockwise, removeNode, OrderedMap.rangeFrom_retain, List.filter_map,
    List.filter_append, List.map_append]
  rfl

theorem infoOf_removeNode {r : HashRing} {id i : NodeId} (h : i ≠ id) :
    (r.removeNode id).infoOf i = r.infoOf i := by
  have hfind : (r.removeNode id).findNode i = r.findNode i := by
    simp only [findNode, removeNode, List.find?_filter]
    congr 1
    funext n
    by_cases hn : n.id = i <;> simp [hn, h]
  rw [infoOf, hfind, infoOf]

/-- Removing a node deletes it from every key's order and moves nobody
else. -/
theorem prefOrder_removeNode (X : Crates) (r : HashRing) (id : NodeId) (key : String) :
    (r.removeNode id).prefOrder X key = (r.prefOrder X key).filter fun n => n.id ≠ id := by
  rw [prefOrder, prefOrder, clockwise_removeNode, ListWalk.eraseDups_filter, List.filter_map]
  have hcomp : ((fun n : NodeInfo => decide (n.id ≠ id)) ∘ r.infoOf)
      = fun i => decide (i ≠ id) := by
    funext i
    simp
  rw [hcomp]
  apply List.map_congr_left
  intro i hi
  exact infoOf_removeNode (by simpa using (List.mem_filter.mp hi).2)

/-- Any number of removals. -/
def removeNodes (r : HashRing) (ids : List NodeId) : HashRing :=
  ids.foldl removeNode r

theorem removeNodes_cons (r : HashRing) (id : NodeId) (ids : List NodeId) :
    r.removeNodes (id :: ids) = (r.removeNode id).removeNodes ids := rfl

theorem prefOrder_removeNodes (X : Crates) (r : HashRing) (ids : List NodeId) (key : String) :
    (r.removeNodes ids).prefOrder X key
      = (r.prefOrder X key).filter fun n => n.id ∉ ids := by
  induction ids generalizing r with
  | nil => simp [removeNodes]
  | cons id ids ih =>
      rw [removeNodes_cons, ih, prefOrder_removeNode, List.filter_filter]
      apply List.filter_congr
      intro n _
      simp [not_or, Bool.and_comm]

/-! ## The owner of a key -/

/-- The owner depends on the position map alone. -/
theorem getNode_id (X : Crates) (r : HashRing) (key : String) :
    (r.getNode X key).map (·.id) = (r.clockwise (hashKey X key)).head? := by
  have hfind : ∀ e ∈ r.ring.entries, (r.findNode e.2).map (·.id) = some e.2 := by
    intro e he
    have hmem : e.2 ∈ r.clockwise (hashKey X key) := mem_clockwise.mpr ⟨e, he, rfl⟩
    rw [findNode_eq_infoOf hmem]
    simp
  rw [getNode, clockwise]
  cases hrange : r.ring.rangeFrom (hashKey X key) with
  | cons e es =>
      have he : e ∈ r.ring.entries := by
        have : e ∈ r.ring.rangeFrom (hashKey X key) := by simp [hrange]
        exact (List.mem_filter.mp this).1
      simpa using hfind e he
  | nil =>
      cases hring : r.ring.entries with
      | nil => simp
      | cons e es => simpa using hfind e (by simp [hring])

/-! ## Rings built from a member list -/

/-- No two nodes among `ids` share a position. -/
def DistinctPositions (X : Crates) (vnodeCount : Nat) (ids : List NodeId) : Prop :=
  ∀ a ∈ ids, ∀ b ∈ ids, ∀ i < vnodeCount, ∀ j < vnodeCount,
    hashVnode X a i = hashVnode X b j → a = b

/-- Positions that tell whose they are. -/
theorem DistinctPositions.of_owner {X : Crates} {vnodeCount : Nat} {ids : List NodeId}
    (owner : UInt64 → UInt64) (mark : NodeId → UInt64)
    (h : ∀ a ∈ ids, ∀ i < vnodeCount, owner (hashVnode X a i) = mark a)
    (hmark : ∀ a ∈ ids, ∀ b ∈ ids, mark a = mark b → a = b) :
    DistinctPositions X vnodeCount ids := by
  intro a ha b hb i hi j hj heq
  apply hmark a ha b hb
  rw [← h a ha i hi, ← h b hb j hj, heq]

/-- The map holds exactly the virtual nodes of `ids`. -/
def Holds (X : Crates) (r : HashRing) (ids : List NodeId) : Prop :=
  ∀ e, e ∈ r.ring.entries ↔ ∃ id ∈ ids, ∃ i < r.vnodeCount, e = (hashVnode X id i, id)

theorem mem_insertVnodes_iff {X : Crates} {ring : OrderedMap UInt64 NodeId} {id : NodeId}
    {count : Nat} {e : UInt64 × NodeId}
    (hfree : ∀ f ∈ ring.entries, ∀ i < count, f.1 = hashVnode X id i → f.2 = id) :
    e ∈ (insertVnodes X ring id count).entries
      ↔ e ∈ ring.entries ∨ ∃ i < count, e = (hashVnode X id i, id) := by
  induction count with
  | zero => simp [insertVnodes]
  | succ count ih =>
      have ih := ih fun f hf i hi => hfree f hf i (by omega)
      rw [insertVnodes, OrderedMap.mem_insert, ih]
      constructor
      · rintro (h | ⟨_, h | ⟨i, hi, h⟩⟩)
        · exact .inr ⟨count, by omega, h⟩
        · exact .inl h
        · exact .inr ⟨i, by omega, h⟩
      · rintro (h | ⟨i, hi, h⟩)
        · -- an old entry at the new position is the same node's
          by_cases hpos : e.1 = hashVnode X id count
          · exact .inl (Prod.ext hpos (hfree e h count (by omega) hpos))
          · exact .inr ⟨hpos, .inl h⟩
        · by_cases hpos : e.1 = hashVnode X id count
          · exact .inl (by rw [h] at hpos ⊢; exact Prod.ext hpos rfl)
          · refine .inr ⟨hpos, .inr ⟨i, ?_, h⟩⟩
            rcases Nat.lt_succ_iff_lt_or_eq.mp hi with hlt | rfl
            · exact hlt
            · exact absurd (by rw [h]) hpos

theorem Holds.addNode {X : Crates} {r : HashRing} {ids : List NodeId}
    (h : r.Holds X ids) (info : NodeInfo) (hd : DistinctPositions X r.vnodeCount (info.id :: ids)) :
    (r.addNode X info).Holds X (info.id :: ids) := by
  intro e
  have hfree : ∀ f ∈ r.ring.entries, ∀ i < r.vnodeCount,
      f.1 = hashVnode X info.id i → f.2 = info.id := by
    intro f hf i hi hpos
    obtain ⟨id, hid, j, hj, rfl⟩ := (h f).mp hf
    exact hd id (by simp [hid]) info.id (by simp) j hj i hi hpos
  show e ∈ (insertVnodes X r.ring info.id r.vnodeCount).entries ↔ _
  rw [mem_insertVnodes_iff hfree, h e]
  constructor
  · rintro (⟨id, hid, hi⟩ | hi)
    · exact ⟨id, by simp [hid], hi⟩
    · exact ⟨info.id, by simp, hi⟩
  · rintro ⟨id, hid, hi⟩
    rcases List.mem_cons.mp hid with rfl | hid
    · exact .inr hi
    · exact .inl ⟨id, hid, hi⟩

/-- Add members in order. -/
def addNodes (X : Crates) (r : HashRing) (infos : List NodeInfo) : HashRing :=
  infos.foldl (addNode X) r

theorem addNodes_cons (X : Crates) (r : HashRing) (info : NodeInfo) (infos : List NodeInfo) :
    r.addNodes X (info :: infos) = (r.addNode X info).addNodes X infos := rfl

@[simp] theorem vnodeCount_addNodes (X : Crates) (r : HashRing) (infos : List NodeInfo) :
    (r.addNodes X infos).vnodeCount = r.vnodeCount := by
  induction infos generalizing r with
  | nil => rfl
  | cons info infos ih => exact ih (r.addNode X info)

@[simp] theorem nodes_addNodes (X : Crates) (r : HashRing) (infos : List NodeInfo) :
    (r.addNodes X infos).nodes = r.nodes ++ infos := by
  induction infos generalizing r with
  | nil => simp [addNodes]
  | cons info infos ih =>
      rw [addNodes_cons, ih]
      simp [addNode]

/-- The positions depend on the ids alone. -/
theorem ring_addNodes (X : Crates) (r : HashRing) (infos : List NodeInfo) :
    (r.addNodes X infos).ring
      = (infos.map (·.id)).foldl (fun ring id => insertVnodes X ring id r.vnodeCount) r.ring := by
  induction infos generalizing r with
  | nil => rfl
  | cons info infos ih => exact ih (r.addNode X info)

theorem Holds.addNodes {X : Crates} {r : HashRing} {ids : List NodeId}
    (h : r.Holds X ids) (infos : List NodeInfo)
    (hd : DistinctPositions X r.vnodeCount (infos.map (·.id) ++ ids)) :
    (r.addNodes X infos).Holds X (infos.map (·.id) ++ ids) := by
  induction infos generalizing r ids with
  | nil => exact h
  | cons info infos ih =>
      have hsub : ∀ id ∈ info.id :: ids, id ∈ (info :: infos).map (·.id) ++ ids := by
        intro id hid
        rcases List.mem_cons.mp hid with rfl | hid <;> simp_all
      have hone := h.addNode info fun a ha b hb => hd a (hsub a ha) b (hsub b hb)
      have hswap : ∀ id, id ∈ infos.map (·.id) ++ info.id :: ids
          ↔ id ∈ (info :: infos).map (·.id) ++ ids := by
        intro id
        simp only [List.mem_append, List.mem_cons, List.map_cons]
        tauto
      have hall := ih hone fun a ha b hb => hd a ((hswap a).mp ha) b ((hswap b).mp hb)
      intro e
      rw [addNodes_cons, hall e]
      simp only [hswap]

theorem holds_new (X : Crates) : new.Holds X [] := by
  intro e
  simp [new, withVnodeCount, OrderedMap.empty]

/-- Owners are decided by the positions. -/
theorem getNode_id_of_ring {X : Crates} {r r' : HashRing} (h : r.ring = r'.ring) (key : String) :
    (r.getNode X key).map (·.id) = (r'.getNode X key).map (·.id) := by
  rw [getNode_id, getNode_id, clockwise, clockwise, h]

theorem getNode_id_eq_of_ids_eq {X : Crates} {as bs : List NodeInfo}
    (h : as.map (·.id) = bs.map (·.id)) (key : String) :
    ((new.addNodes X as).getNode X key).map (·.id)
      = ((new.addNodes X bs).getNode X key).map (·.id) := by
  apply getNode_id_of_ring
  rw [ring_addNodes, ring_addNodes, h]

/-- **The ring is a function of the node set**: two rings built from the
same ids, in any orders and with any addresses, agree on every owner. -/
theorem getNode_id_eq_of_same_ids {X : Crates} {as bs : List NodeInfo}
    (hd : DistinctPositions X defaultVnodeCount (as.map (·.id)))
    (hids : ∀ id, id ∈ as.map (·.id) ↔ id ∈ bs.map (·.id)) (key : String) :
    ((new.addNodes X as).getNode X key).map (·.id)
      = ((new.addNodes X bs).getNode X key).map (·.id) := by
  have hd' : DistinctPositions X defaultVnodeCount (bs.map (·.id)) :=
    fun a ha b hb => hd a ((hids a).mpr ha) b ((hids b).mpr hb)
  have ha := (holds_new X).addNodes as (by rw [List.append_nil]; exact hd)
  have hb := (holds_new X).addNodes bs (by rw [List.append_nil]; exact hd')
  apply getNode_id_of_ring
  apply OrderedMap.ext_mem
  intro e
  rw [ha e, hb e]
  simp [hids]

end HashRing

end SelfHealingCache
