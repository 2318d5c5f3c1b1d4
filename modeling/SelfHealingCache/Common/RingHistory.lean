import SelfHealingCache.Common.HashRing
import SelfHealingCache.Lib.Trace

/-!
# Rings and their histories

A ring is what some sequence of `add_node` and `remove_node` calls left
behind. The positions and the member list are updated by separate lines
of each call; `Settled` is what links them in BOTH directions: a member
holds all its positions, a position belongs to a member, and no id is
listed twice. Every admissible history keeps it, and a settled ring is a
function of its member set alone.

An admissible history adds an id only while it is not on the ring, and no
two ids that take part in it share a position.
-/

namespace SelfHealingCache

inductive RingOp where
  | add (info : NodeInfo)
  | remove (id : NodeId)

namespace HashRing

/-- One call; an id that is on the ring is not added again. -/
def step (X : Crates) (r : HashRing) : RingOp → Option HashRing
  | .add info => if r.containsNode info.id then none else some (r.addNode X info)
  | .remove id => some (r.removeNode id)

/-- What a history that adds only ids among `ids` leads to. -/
def Reached (X : Crates) (vnodeCount : Nat) (ids : List NodeId) (r : HashRing) : Prop :=
  ∃ ops, (∀ info, .add info ∈ ops → info.id ∈ ids)
    ∧ Trace.exec (step X) (withVnodeCount vnodeCount) ops = some r

theorem containsNode_iff {r : HashRing} {id : NodeId} :
    r.containsNode id = true ↔ id ∈ r.nodes.map (·.id) := by
  rw [containsNode, List.any_eq_true, List.mem_map]
  simp only [decide_eq_true_eq]

/-! ## The invariant -/

structure Settled (X : Crates) (vnodeCount : Nat) (ids : List NodeId) (r : HashRing) : Prop where
  vnodes : r.vnodeCount = vnodeCount
  inPlay : ∀ id ∈ r.nodes.map (·.id), id ∈ ids
  nodup : (r.nodes.map (·.id)).Nodup
  holds : r.Holds X (r.nodes.map (·.id))

section History

variable {X : Crates} {vnodeCount : Nat} {ids : List NodeId} {r : HashRing}

theorem settled_empty (X : Crates) (vnodeCount : Nat) (ids : List NodeId) :
    (withVnodeCount vnodeCount).Settled X vnodeCount ids where
  vnodes := rfl
  inPlay := by simp [withVnodeCount]
  nodup := by simp [withVnodeCount]
  holds := by
    intro e
    simp [withVnodeCount, OrderedMap.empty]

theorem Settled.addNode (hd : DistinctPositions X vnodeCount ids) (h : r.Settled X vnodeCount ids)
    {info : NodeInfo} (hnew : r.containsNode info.id = false) (hid : info.id ∈ ids) :
    (r.addNode X info).Settled X vnodeCount ids := by
  have habsent : info.id ∉ r.nodes.map (·.id) := by
    rw [← containsNode_iff, hnew]
    exact Bool.false_ne_true
  have hplay : ∀ id ∈ info.id :: r.nodes.map (·.id), id ∈ ids := by
    intro id hmem
    rcases List.mem_cons.mp hmem with rfl | hmem
    · exact hid
    · exact h.inPlay id hmem
  have hadded := h.holds.addNode info (by
    rw [h.vnodes]
    exact fun a ha b hb => hd a (hplay a ha) b (hplay b hb))
  have hnodes : (r.addNode X info).nodes.map (·.id) = r.nodes.map (·.id) ++ [info.id] := by
    simp [HashRing.addNode]
  refine ⟨h.vnodes, ?_, ?_, ?_⟩
  · intro id hmem
    rw [hnodes] at hmem
    apply hplay
    rcases List.mem_append.mp hmem with hmem | hmem
    · exact List.mem_cons_of_mem _ hmem
    · rw [List.mem_singleton.mp hmem]
      exact List.mem_cons_self
  · rw [hnodes]
    rw [← List.concat_eq_append]
    exact h.nodup.concat habsent
  · intro e
    have hswap : ∀ id,
        id ∈ info.id :: r.nodes.map (·.id) ↔ id ∈ r.nodes.map (·.id) ++ [info.id] := by
      intro id
      rw [List.mem_cons, List.mem_append, List.mem_singleton, or_comm]
    rw [hadded e, hnodes]
    simp only [hswap]

theorem Settled.removeNode (h : r.Settled X vnodeCount ids) (id : NodeId) :
    (r.removeNode id).Settled X vnodeCount ids := by
  have hnodes : (r.removeNode id).nodes.map (·.id)
      = (r.nodes.map (·.id)).filter fun i => i ≠ id := by
    rw [HashRing.removeNode, List.filter_map]
    rfl
  refine ⟨h.vnodes, ?_, ?_, ?_⟩
  · intro i hi
    rw [hnodes] at hi
    exact h.inPlay i (List.mem_filter.mp hi).1
  · rw [hnodes]
    exact h.nodup.filter _
  · intro e
    show e ∈ (r.ring.retain fun _ owner => owner ≠ id).entries ↔ _
    rw [OrderedMap.mem_retain, h.holds e, hnodes]
    constructor
    · rintro ⟨⟨i, hi, j, hj, he⟩, hne⟩
      have hi' : i ≠ id := by simpa [he] using hne
      exact ⟨i, List.mem_filter.mpr ⟨hi, by simpa using hi'⟩, j, hj, he⟩
    · rintro ⟨i, hi, j, hj, he⟩
      obtain ⟨hi, hne⟩ := List.mem_filter.mp hi
      exact ⟨⟨i, hi, j, hj, he⟩, by simpa [he] using hne⟩

/-- **Every admissible history keeps positions and members in step.** -/
theorem Reached.settled (hd : DistinctPositions X vnodeCount ids)
    (h : r.Reached X vnodeCount ids) : r.Settled X vnodeCount ids := by
  obtain ⟨ops, hops, hrun⟩ := h
  have hadds : ∀ op ∈ ops, ∀ info, op = .add info → info.id ∈ ids := by
    intro op hop info heq
    rw [heq] at hop
    exact hops info hop
  refine Trace.exec_invariant (I := Settled X vnodeCount ids) ?_
    (settled_empty X vnodeCount ids) (Trace.along_of_forall hadds _) hrun
  intro s op t hs hop hstep
  cases op with
  | add info =>
      rw [step] at hstep
      split_ifs at hstep with hnew
      cases hstep
      exact hs.addNode hd (by simpa using hnew) (hop info rfl)
  | remove id =>
      cases hstep
      exact hs.removeNode id

theorem Reached.step (h : r.Reached X vnodeCount ids) (op : RingOp) {t : HashRing}
    (hop : ∀ info, op = .add info → info.id ∈ ids) (hstep : r.step X op = some t) :
    t.Reached X vnodeCount ids := by
  obtain ⟨ops, hops, hrun⟩ := h
  refine ⟨ops ++ [op], ?_, Trace.exec_append.mpr ⟨r, hrun, ?_⟩⟩
  · intro info hinfo
    rcases List.mem_append.mp hinfo with hinfo | hinfo
    · exact hops info hinfo
    · exact hop info (List.mem_singleton.mp hinfo).symm
  · exact Trace.exec_cons.mpr ⟨t, hstep, rfl⟩

/-! ## A settled ring is its member set -/

/-- The record of a member is the member. -/
theorem Settled.infoOf (h : r.Settled X vnodeCount ids) {n : NodeInfo} (hn : n ∈ r.nodes) :
    r.infoOf n.id = n := by
  obtain ⟨m, hm⟩ : ∃ m, r.findNode n.id = some m := by
    rw [← Option.isSome_iff_exists, findNode, List.find?_isSome]
    exact ⟨n, hn, by simp⟩
  have hmem : m ∈ r.nodes := List.mem_of_find?_eq_some hm
  have hid : m.id = n.id := by simpa using List.find?_some hm
  rw [HashRing.infoOf, hm]
  exact List.inj_on_of_nodup_map h.nodup hmem hn hid

theorem Settled.ring_eq {r' : HashRing} (h : r.Settled X vnodeCount ids)
    (h' : r'.Settled X vnodeCount ids)
    (hids : ∀ id, id ∈ r.nodes.map (·.id) ↔ id ∈ r'.nodes.map (·.id)) : r.ring = r'.ring := by
  apply OrderedMap.ext_mem
  intro e
  rw [h.holds e, h'.holds e, h.vnodes, h'.vnodes]
  simp only [hids]

theorem Settled.clockwise_eq {r' : HashRing} (h : r.Settled X vnodeCount ids)
    (h' : r'.Settled X vnodeCount ids)
    (hids : ∀ id, id ∈ r.nodes.map (·.id) ↔ id ∈ r'.nodes.map (·.id)) (hash : UInt64) :
    r.clockwise hash = r'.clockwise hash := by
  rw [clockwise, clockwise, h.ring_eq h' hids]

/-- An id on the walk is a member's. -/
theorem Settled.mem_of_clockwise (h : r.Settled X vnodeCount ids) {hash : UInt64} {id : NodeId}
    (hid : id ∈ r.clockwise hash) : ∃ n ∈ r.nodes, n.id = id := by
  obtain ⟨e, he, rfl⟩ := mem_clockwise.mp hid
  obtain ⟨i, hi, _, _, rfl⟩ := (h.holds e).mp he
  obtain ⟨n, hn, hn'⟩ := List.mem_map.mp hi
  exact ⟨n, hn, hn'⟩

theorem Settled.prefOrder_eq {r' : HashRing} (h : r.Settled X vnodeCount ids)
    (h' : r'.Settled X vnodeCount ids) (hnodes : ∀ n, n ∈ r.nodes ↔ n ∈ r'.nodes)
    (key : String) : r.prefOrder X key = r'.prefOrder X key := by
  have hids : ∀ id, id ∈ r.nodes.map (·.id) ↔ id ∈ r'.nodes.map (·.id) := by
    intro id
    simp only [List.mem_map, hnodes]
  rw [prefOrder, prefOrder, h.clockwise_eq h' hids]
  apply List.map_congr_left
  intro id hid
  rw [List.mem_eraseDups] at hid
  obtain ⟨n, hn, rfl⟩ := h'.mem_of_clockwise hid
  rw [h'.infoOf hn, h.infoOf ((hnodes n).mpr hn)]

/-- The owner is the head of the order. -/
theorem getNode_eq_head? (X : Crates) (r : HashRing) (key : String) :
    r.getNode X key = (r.prefOrder X key).head? := by
  have hfind : ∀ e ∈ r.ring.entries, r.findNode e.2 = some (r.infoOf e.2) := by
    intro e he
    have hmem : e.2 ∈ r.clockwise (hashKey X key) := mem_clockwise.mpr ⟨e, he, rfl⟩
    exact findNode_eq_infoOf hmem
  rw [getNode, prefOrder, clockwise]
  cases hrange : r.ring.rangeFrom (hashKey X key) with
  | cons e es =>
      have he : e ∈ r.ring.entries := by
        have hin : e ∈ r.ring.rangeFrom (hashKey X key) := by simp [hrange]
        exact (List.mem_filter.mp hin).1
      simp [hfind e he, List.eraseDups_cons]
  | nil =>
      cases hring : r.ring.entries with
      | nil => simp
      | cons e es =>
          have he : e ∈ r.ring.entries := by simp [hring]
          simp [hfind e he, List.eraseDups_cons]

/-- With a virtual node each, the order lists every member once. -/
theorem Settled.prefOrder_perm (h : r.Settled X vnodeCount ids) (hv : 1 ≤ vnodeCount)
    (key : String) : (r.prefOrder X key).Perm r.nodes := by
  have hnodes : r.nodes.Nodup := List.Nodup.of_map _ h.nodup
  rw [List.perm_ext_iff_of_nodup (prefOrder_nodup X r key) hnodes]
  intro n
  rw [prefOrder, List.mem_map]
  constructor
  · rintro ⟨id, hid, hinfo⟩
    rw [List.mem_eraseDups] at hid
    obtain ⟨m, hm, rfl⟩ := h.mem_of_clockwise hid
    rw [h.infoOf hm] at hinfo
    rw [← hinfo]
    exact hm
  · intro hn
    refine ⟨n.id, ?_, h.infoOf hn⟩
    rw [List.mem_eraseDups, mem_clockwise]
    refine ⟨(hashVnode X n.id 0, n.id), ?_, rfl⟩
    rw [h.holds]
    exact ⟨n.id, List.mem_map_of_mem hn, 0, by rw [h.vnodes]; exact hv, rfl⟩

/-- Adding a node and removing it again changes no order. -/
theorem Settled.prefOrder_addNode (hd : DistinctPositions X vnodeCount ids)
    (h : r.Settled X vnodeCount ids) {info : NodeInfo}
    (hnew : r.containsNode info.id = false) (hid : info.id ∈ ids) (key : String) :
    ((r.addNode X info).prefOrder X key).filter (fun n => n.id ≠ info.id)
      = r.prefOrder X key := by
  rw [← prefOrder_removeNode]
  refine ((h.addNode hd hnew hid).removeNode info.id).prefOrder_eq h (fun n => ?_) key
  have hne : ∀ n ∈ r.nodes, n.id ≠ info.id := by
    intro n hn heq
    have hin : info.id ∈ r.nodes.map (·.id) := by
      rw [← heq]
      exact List.mem_map_of_mem hn
    rw [← containsNode_iff, hnew] at hin
    cases hin
  simp only [HashRing.removeNode, HashRing.addNode, List.mem_filter, List.mem_append,
    List.mem_singleton, decide_eq_true_eq]
  constructor
  · rintro ⟨hn, hid'⟩
    rcases hn with hn | rfl
    · exact hn
    · exact absurd rfl hid'
  · intro hn
    exact ⟨.inl hn, hne n hn⟩

end History

/-! ## Adding and removing one node -/

/-- The head of a list survives a filter, or fails it. -/
theorem head?_filter_of_head {p : NodeInfo → Bool} {l : List NodeInfo} {n : NodeInfo}
    (h : l.head? = some n) (hp : p n = true) : (l.filter p).head? = some n := by
  obtain ⟨rest, rfl⟩ := List.head?_eq_some_iff.mp h
  rw [List.filter_cons_of_pos hp, List.head?_cons]

/-- **Minimal reshuffling.** Adding a node inserts it into a key's
preference list and pushes at most the last entry out; removing one takes
it out and moves the others up. So an added node takes keys only for
itself, and a removed one gives up only its own. -/
theorem preferenceList_minimal_reshuffle (X : Crates) {vnodeCount : Nat} (hv : 1 ≤ vnodeCount)
    {ids : List NodeId} (hd : DistinctPositions X vnodeCount ids) {r : HashRing}
    (h : r.Reached X vnodeCount ids) (key : String) {n : Nat} (hn : 1 ≤ n) :
    (∀ info : NodeInfo, info.id ∈ ids → r.containsNode info.id = false →
      ((r.addNode X info).getPreferenceList X key n).filter (fun m => m.id ≠ info.id)
          <+: r.getPreferenceList X key n
      ∧ min n r.nodes.length - 1
          ≤ (((r.addNode X info).getPreferenceList X key n).filter fun m => m.id ≠ info.id).length
      ∧ ((r.addNode X info).getNode X key = some info
        ∨ (r.addNode X info).getNode X key = r.getNode X key))
    ∧ (∀ id : NodeId,
      (r.getPreferenceList X key n).filter (fun m => m.id ≠ id)
          <+: (r.removeNode id).getPreferenceList X key n
      ∧ ((r.getNode X key).map (·.id) ≠ some id →
        (r.removeNode id).getNode X key = r.getNode X key)) := by
  have hs := h.settled hd
  have hmax : max n 1 = n := by omega
  constructor
  · intro info hid hnew
    have hs' := hs.addNode hd hnew hid
    have horder := hs.prefOrder_addNode hd hnew hid key
    rw [getPreferenceList_eq, getPreferenceList_eq, hmax, getNode_eq_head?, getNode_eq_head?]
    refine ⟨?_, ?_, ?_⟩
    · rw [← horder]
      exact ListWalk.filter_take_prefix _ _ _
    · have hcount := ListWalk.length_filter_take_add (fun m : NodeInfo => decide (m.id ≠ info.id))
        ((r.addNode X info).prefOrder X key) n
      rw [horder, (hs.prefOrder_perm hv key).length_eq, (hs'.prefOrder_perm hv key).length_eq]
        at hcount
      have hlen : (r.addNode X info).nodes.length = r.nodes.length + 1 := by simp [addNode]
      omega
    · cases hhead : ((r.addNode X info).prefOrder X key).head? with
      | none =>
          right
          rw [List.head?_eq_none_iff.mp hhead] at horder
          rw [← horder]
          rfl
      | some m =>
          by_cases hm : m.id = info.id
          · -- the only member with this id is the new one
            left
            have hmem : m ∈ (r.addNode X info).nodes :=
              (hs'.prefOrder_perm hv key).mem_iff.mp (List.mem_of_head? hhead)
            have hinfo : info ∈ (r.addNode X info).nodes := by simp [addNode]
            rw [← hs'.infoOf hmem, hm, hs'.infoOf hinfo]
          · right
            rw [← horder, head?_filter_of_head hhead (by simpa using hm)]
  · intro id
    rw [getPreferenceList_eq, getPreferenceList_eq, hmax, getNode_eq_head?, getNode_eq_head?,
      prefOrder_removeNode]
    refine ⟨ListWalk.filter_take_prefix _ _ _, fun hne => ?_⟩
    cases hhead : (r.prefOrder X key).head? with
    | none =>
        rw [List.head?_eq_none_iff.mp hhead]
        rfl
    | some m =>
        rw [hhead] at hne
        exact head?_filter_of_head hhead (by simpa using hne)

/-- A positional byte hash; it keeps four small ids apart. -/
def byteHash (bytes : ByteArray) : UInt64 :=
  bytes.data.toList.foldl (fun h b => h * 31 + b.toUInt64) 7

def smallIds : List NodeId := [⟨1⟩, ⟨2⟩, ⟨3⟩, ⟨4⟩]

theorem distinctPositions_smallIds : DistinctPositions (.hyphenated byteHash) 2 smallIds := by
  unfold DistinctPositions
  decide +kernel

/-- Three members added, the last of them removed again. -/
def shrunkRing : HashRing :=
  ((((withVnodeCount 2).addNode (.hyphenated byteHash) ⟨⟨1⟩, "a"⟩).addNode
    (.hyphenated byteHash) ⟨⟨2⟩, "b"⟩).addNode (.hyphenated byteHash) ⟨⟨3⟩, "c"⟩).removeNode ⟨3⟩

theorem reached_shrunkRing : shrunkRing.Reached (.hyphenated byteHash) 2 smallIds :=
  ⟨[.add ⟨⟨1⟩, "a"⟩, .add ⟨⟨2⟩, "b"⟩, .add ⟨⟨3⟩, "c"⟩, .remove ⟨3⟩],
    by simp [smallIds], rfl⟩

theorem preferenceList_minimal_reshuffle_shrunkRing :
    ((shrunkRing.addNode (.hyphenated byteHash) ⟨⟨4⟩, "d"⟩).getPreferenceList
        (.hyphenated byteHash) "key" 2).filter (fun m => m.id ≠ ⟨4⟩)
      <+: shrunkRing.getPreferenceList (.hyphenated byteHash) "key" 2 :=
  ((preferenceList_minimal_reshuffle (.hyphenated byteHash) (by decide)
    distinctPositions_smallIds reached_shrunkRing "key" (by decide)).1
      ⟨⟨4⟩, "d"⟩ (by simp [smallIds]) (by decide)).1

end HashRing

end SelfHealingCache
