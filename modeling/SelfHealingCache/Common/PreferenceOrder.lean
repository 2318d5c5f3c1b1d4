import SelfHealingCache.Common.RingHistory

/-!
# What a preference list is

`prefOrder` is defined by the loop's own walk: from the key's hash to the
top of the ring, then the whole ring once more, each owner at its first
visit. This module says what that order MEANS: the owners by increasing
clockwise distance from the key to the nearest position each of them
holds (`ClockwiseOrder`), an order there is exactly one of.

The second turn of the walk passes the upper part again, where every
owner has been seen, so the walk is the upper part followed by the lower
one (`eraseDups_clockwise`). Along those two parts the distances ascend,
and the first position met of an owner is its nearest.

Nothing here depends on how the ring was built. A history is any list of
calls, ids added twice and positions overwritten included.
-/

namespace SelfHealingCache

namespace HashRing

/-! ## Histories without conditions -/

/-- One call, whatever is on the ring. -/
def apply (X : Crates) (r : HashRing) : RingOp → HashRing
  | .add info => r.addNode X info
  | .remove id => r.removeNode id

/-- The ring after a list of calls. -/
def built (X : Crates) (vnodeCount : Nat) (ops : List RingOp) : HashRing :=
  ops.foldl (apply X) (withVnodeCount vnodeCount)

/-! ## Distances -/

/-- Clockwise from `hash` to the nearest position of `id`; the machine
subtraction is the one modulo `2 ^ 64`. -/
def distance (r : HashRing) (hash : UInt64) (id : NodeId) : Option UInt64 :=
  ((r.ring.entries.filter fun e => e.2 = id).map fun e => e.1 - hash).min?

/-- `a`'s nearest position comes before `b`'s. -/
def Nearer (r : HashRing) (hash : UInt64) (a b : NodeId) : Prop :=
  ∃ j k, r.distance hash a = some j ∧ r.distance hash b = some k ∧ j < k

/-- The owners of positions, each nearer than those after it. -/
structure ClockwiseOrder (r : HashRing) (hash : UInt64) (order : List NodeId) : Prop where
  owners : ∀ id, id ∈ order ↔ ∃ e ∈ r.ring.entries, e.2 = id
  ascending : order.Pairwise (r.Nearer hash)

section Order

variable {r : HashRing} {hash : UInt64}

theorem ClockwiseOrder.nodup {order : List NodeId} (h : r.ClockwiseOrder hash order) :
    order.Nodup := by
  apply h.ascending.imp
  intro a b hab heq
  subst heq
  exact ListWalk.Nearer.irrefl hab

/-- There is one such order. -/
theorem ClockwiseOrder.unique {order order' : List NodeId} (h : r.ClockwiseOrder hash order)
    (h' : r.ClockwiseOrder hash order') : order = order' := by
  have hperm : order.Perm order' := by
    rw [List.perm_ext_iff_of_nodup h.nodup h'.nodup]
    intro id
    rw [h.owners, h'.owners]
  exact hperm.eq_of_pairwise (fun a b _ _ hab hba => (ListWalk.Nearer.asymm hab hba).elim)
    h.ascending h'.ascending

/-! ## The walk -/

/-- The positions below `hash`, ascending. -/
def rangeBelow (r : HashRing) (hash : UInt64) : List (UInt64 × NodeId) :=
  r.ring.entries.filter fun e => e.1 < hash

theorem mem_turn (r : HashRing) (hash : UInt64) {e : UInt64 × NodeId} :
    e ∈ r.ring.rangeFrom hash ++ r.rangeBelow hash ↔ e ∈ r.ring.entries := by
  rw [List.mem_append, OrderedMap.rangeFrom, rangeBelow, List.mem_filter, List.mem_filter,
    ← and_or_left]
  simp [le_or_gt]

/-- Along one turn from `hash` the distances ascend. -/
theorem turn_ascending (r : HashRing) (hash : UInt64) :
    (r.ring.rangeFrom hash ++ r.rangeBelow hash).Pairwise
      fun e f => e.1 - hash < f.1 - hash := by
  rw [List.pairwise_append]
  refine ⟨?_, ?_, ?_⟩
  · apply (r.ring.sorted.filter _).imp_of_mem
    intro e f he hf hlt
    have he' : hash ≤ e.1 := by simpa using (List.mem_filter.mp he).2
    have hf' : hash ≤ f.1 := by simpa using (List.mem_filter.mp hf).2
    exact U64.sub_lt_sub_clockwise (.inl ⟨hlt, iff_of_true he' hf'⟩)
  · apply (r.ring.sorted.filter _).imp_of_mem
    intro e f he hf hlt
    have he' : e.1 < hash := by simpa using (List.mem_filter.mp he).2
    have hf' : f.1 < hash := by simpa using (List.mem_filter.mp hf).2
    exact U64.sub_lt_sub_clockwise (.inl ⟨hlt, iff_of_false he'.not_ge hf'.not_ge⟩)
  · intro e he f hf
    have he' : hash ≤ e.1 := by simpa using (List.mem_filter.mp he).2
    have hf' : f.1 < hash := by simpa using (List.mem_filter.mp hf).2
    exact U64.sub_lt_sub_clockwise (.inr ⟨he', hf'⟩)

/-- An ascending map is its lower part and then its upper part. -/
theorem entries_eq (r : HashRing) (hash : UInt64) :
    r.ring.entries = r.rangeBelow hash ++ r.ring.rangeFrom hash := by
  have hsplit : (r.rangeBelow hash ++ r.ring.rangeFrom hash).Pairwise fun e f => e.1 < f.1 := by
    refine List.pairwise_append.mpr ⟨r.ring.sorted.filter _, r.ring.sorted.filter _, ?_⟩
    intro e he f hf
    have he' : e.1 < hash := by simpa using (List.mem_filter.mp he).2
    have hf' : hash ≤ f.1 := by simpa using (List.mem_filter.mp hf).2
    exact he'.trans_le hf'
  -- a sorted map is determined by its elements
  have hsame : r.ring = ⟨_, hsplit⟩ := by
    apply OrderedMap.ext_mem
    intro e
    rw [← mem_turn r hash, List.mem_append, List.mem_append, or_comm]
  exact congrArg OrderedMap.entries hsame

/-- **The walk of the loop is one turn.** -/
theorem eraseDups_clockwise (r : HashRing) (hash : UInt64) :
    (r.clockwise hash).eraseDups
      = ((r.ring.rangeFrom hash ++ r.rangeBelow hash).map (·.2)).eraseDups := by
  have hwalk : r.clockwise hash
      = (r.ring.rangeFrom hash ++ r.rangeBelow hash).map (·.2)
        ++ (r.ring.rangeFrom hash).map (·.2) := by
    rw [clockwise, ← List.map_append, List.append_assoc, ← entries_eq]
  -- the second visit of the upper part meets nobody new
  rw [hwalk]
  apply ListWalk.eraseDups_append_of_subset
  intro id hid
  rw [List.map_append]
  exact List.mem_append_left _ hid

/-- The walk's first visits are the clockwise order. -/
theorem clockwiseOrder_eraseDups (r : HashRing) (hash : UInt64) :
    r.ClockwiseOrder hash (r.clockwise hash).eraseDups := by
  constructor
  · intro id
    rw [List.mem_eraseDups, mem_clockwise]
  · rw [eraseDups_clockwise]
    apply (ListWalk.pairwise_eraseDups_map _ (turn_ascending r hash)).imp
    intro a b hab
    obtain ⟨j, k, hj, hk, hlt⟩ := hab
    have hdistance : ∀ id, ListWalk.least (fun e => e.1 - hash) (·.2)
        (r.ring.rangeFrom hash ++ r.rangeBelow hash) id = r.distance hash id := by
      intro id
      exact ListWalk.least_congr fun e _ => mem_turn r hash
    rw [hdistance] at hj hk
    exact ⟨j, k, hj, hk, hlt⟩

end Order

/-! ## The specification -/

theorem map_id_prefOrder (X : Crates) (r : HashRing) (key : String) :
    (r.prefOrder X key).map (·.id) = (r.clockwise (hashKey X key)).eraseDups := by
  rw [prefOrder, List.map_map]
  conv_rhs => rw [← List.map_id (r.clockwise (hashKey X key)).eraseDups]
  apply List.map_congr_left
  intro id _
  exact infoOf_id r id

/-- What the ring answers for an owner is a listed record. -/
theorem mem_nodes_of_mem_prefOrder {X : Crates} {r : HashRing} {key : String} {n : NodeInfo}
    (h : n ∈ r.prefOrder X key) : n ∈ r.nodes := by
  obtain ⟨id, hid, rfl⟩ := List.mem_map.mp h
  rw [List.mem_eraseDups] at hid
  exact List.mem_of_find?_eq_some (findNode_eq_infoOf hid)

theorem mem_nodes_of_getNode {X : Crates} {r : HashRing} {key : String} {n : NodeInfo}
    (h : r.getNode X key = some n) : n ∈ r.nodes := by
  rw [getNode_eq_head?] at h
  exact mem_nodes_of_mem_prefOrder (List.mem_of_head? h)

theorem prefOrder_eq_nil {X : Crates} {r : HashRing} {key : String} :
    r.prefOrder X key = [] ↔ r.ring.entries = [] := by
  constructor
  · intro h
    rw [List.eq_nil_iff_forall_not_mem]
    intro e he
    have hid : e.2 ∈ (r.prefOrder X key).map (·.id) := by
      rw [map_id_prefOrder, List.mem_eraseDups, mem_clockwise]
      exact ⟨e, he, rfl⟩
    rw [h] at hid
    exact List.not_mem_nil hid
  · intro h
    simp [prefOrder, clockwise, OrderedMap.rangeFrom, h]

/-- **The preference list of a key.** On the ring any list of calls
builds, it is the beginning of the one clockwise order of the owners, of
listed records with distinct ids; it starts with the owner of the key,
and it is empty only on a ring without positions. -/
theorem getPreferenceList_clockwise (X : Crates) (vnodeCount : Nat) (ops : List RingOp)
    (key : String) (n : Nat) (hn : 1 ≤ n) :
    let r := built X vnodeCount ops
    (∃ order, (∀ l, r.ClockwiseOrder (hashKey X key) l ↔ l = order)
        ∧ (r.getPreferenceList X key n).map (·.id) = order.take n)
      ∧ ((r.getPreferenceList X key n).map (·.id)).Nodup
      ∧ (∀ m ∈ r.getPreferenceList X key n, m ∈ r.nodes)
      ∧ r.getNode X key = (r.getPreferenceList X key n).head?
      ∧ (r.getPreferenceList X key n = [] ↔ r.ring.entries = [])
      ∧ (r.getNode X key = none ↔ r.ring.entries = []) := by
  intro r
  have horder := r.clockwiseOrder_eraseDups (hashKey X key)
  have hlist : r.getPreferenceList X key n = (r.prefOrder X key).take n := by
    rw [getPreferenceList_eq, max_eq_left hn]
  have hids : (r.getPreferenceList X key n).map (·.id)
      = (r.clockwise (hashKey X key)).eraseDups.take n := by
    rw [hlist, List.map_take, map_id_prefOrder]
  refine ⟨⟨_, fun l => ⟨fun hl => hl.unique horder, ?_⟩, hids⟩, ?_, ?_, ?_, ?_, ?_⟩
  · rintro rfl
    exact horder
  · rw [hids]
    exact horder.nodup.sublist (List.take_sublist _ _)
  · intro m hm
    rw [hlist] at hm
    exact mem_nodes_of_mem_prefOrder (List.mem_of_mem_take hm)
  · rw [getNode_eq_head?, hlist, List.head?_take, if_neg (by omega)]
  · rw [hlist, List.take_eq_nil_iff, prefOrder_eq_nil]
    exact or_iff_right (by omega)
  · rw [getNode_eq_head?, List.head?_eq_none_iff, prefOrder_eq_nil]

/-- An id added twice with two addresses, and another one removed. -/
def addedTwice : List RingOp :=
  [.add ⟨⟨1⟩, "a"⟩, .add ⟨⟨2⟩, "b"⟩, .add ⟨⟨1⟩, "c"⟩, .add ⟨⟨3⟩, "d"⟩, .remove ⟨2⟩]

theorem getPreferenceList_clockwise_addedTwice :
    let r := built (.hyphenated byteHash) 2 addedTwice
    r.getPreferenceList (.hyphenated byteHash) "key" 2 = [⟨⟨1⟩, "a"⟩, ⟨⟨3⟩, "d"⟩]
      ∧ r.getNode (.hyphenated byteHash) "key"
        = (r.getPreferenceList (.hyphenated byteHash) "key" 2).head? :=
  ⟨by decide +kernel,
    (getPreferenceList_clockwise (.hyphenated byteHash) 2 addedTwice "key" 2
      (by decide)).2.2.2.1⟩

end HashRing

end SelfHealingCache
