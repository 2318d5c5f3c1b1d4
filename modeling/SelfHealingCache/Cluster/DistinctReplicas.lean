import SelfHealingCache.Common.PreferenceOrder
import SelfHealingCache.Cluster.RingAgreement

/-!
# Replicas and addresses

The ring tells nodes apart by id. Ids have three sources: the
configuration, the nodes themselves, and `main`, which makes one up for
each seed address. A made-up id that gossip brings to the router is a
second member at the address of a node that may be on the ring already,
and a preference list that walks over both counts one process twice.

`replicas_distinct` is the exact condition: each addition to the ring
brings an address that no member has.
-/

namespace SelfHealingCache

/-! ## What a step does to the ring -/

namespace Cluster

/-- The router's ring. -/
def ring (s : Cluster) : HashRing := s.router.router.ring

/-- In this step `exchange_gossip` adds `info` to the ring. -/
def Adds (s : Cluster) (e : ClusterEvent) (info : NodeInfo) : Prop :=
  e = .router .nextUpdate ∧ s.router.Adds info

theorem Adds.ring {X : Crates} {monitored : List NodeId} {s t : Cluster} {e : ClusterEvent}
    {info : NodeInfo} (h : s.Adds e info) (hstep : s.step X monitored e = some t) :
    t.ring = s.ring.addNode X info := by
  obtain ⟨rfl, hadds⟩ := h
  cases move_of_step hstep with
  | router hobs hrouter => exact hadds.ring hrouter

theorem ring_step {X : Crates} {monitored : List NodeId} {s t : Cluster} {e : ClusterEvent}
    (h : s.step X monitored e = some t) :
    t.ring = s.ring
    ∨ (∃ info, s.Adds e info ∧ t.ring = s.ring.addNode X info)
    ∨ ∃ id, t.ring = s.ring.removeNode id := by
  cases move_of_step h with
  | start now seeds hfree => exact .inl rfl
  | node hn hears hmove => exact .inl rfl
  | send now hn hlist => exact .inl rfl
  | router hobs hrouter =>
      obtain hsame | ⟨info, rfl, hadds, hring⟩ | hremoved := RouterSys.ring_step hrouter
      · exact .inl hsame
      · exact .inr (.inl ⟨info, ⟨rfl, hadds⟩, hring⟩)
      · exact .inr (.inr hremoved)

end Cluster

/-! ## Distinct addresses -/

namespace HashRing

/-- Members at distinct addresses give lists of distinct addresses. -/
theorem nodup_addrs_getPreferenceList {r : HashRing} (h : (r.nodes.map (·.addr)).Nodup)
    (X : Crates) (key : String) (n : Nat) :
    ((r.getPreferenceList X key n).map (·.addr)).Nodup := by
  rw [getPreferenceList_eq]
  refine List.Nodup.map_on ?_ ((prefOrder_nodup X r key).sublist (List.take_sublist _ _))
  intro a ha b hb heq
  have ha' := mem_nodes_of_mem_prefOrder (List.mem_of_mem_take ha)
  have hb' := mem_nodes_of_mem_prefOrder (List.mem_of_mem_take hb)
  exact List.inj_on_of_nodup_map h ha' hb' heq

/-- On a settled ring the list of as many nodes as there are members is
the members. -/
theorem Settled.getPreferenceList_perm {X : Crates} {vnodeCount : Nat} {ids : List NodeId}
    {r : HashRing} (h : r.Settled X vnodeCount ids) (hv : 1 ≤ vnodeCount) (key : String) :
    (r.getPreferenceList X key r.nodes.length).Perm r.nodes := by
  have hperm := h.prefOrder_perm hv key
  rw [getPreferenceList_eq, List.take_of_length_le]
  · exact hperm
  · rw [hperm.length_eq]
    exact le_max_left _ _

end HashRing

namespace Cluster

/-- The replicas of every key, however many, are at distinct addresses. -/
def DistinctReplicas (X : Crates) (s : Cluster) : Prop :=
  ∀ key n, ((s.ring.getPreferenceList X key n).map (·.addr)).Nodup

/-- What this step adds to the ring is at an address no member has. -/
def BringsNewAddr (s : Cluster) (e : ClusterEvent) : Prop :=
  ∀ info, s.Adds e info → info.addr ∉ s.ring.nodes.map (·.addr)

theorem nodup_addrs_step {X : Crates} {monitored : List NodeId} {s t : Cluster}
    {e : ClusterEvent} (h : (s.ring.nodes.map (·.addr)).Nodup) (hnew : s.BringsNewAddr e)
    (hstep : s.step X monitored e = some t) : (t.ring.nodes.map (·.addr)).Nodup := by
  obtain hsame | ⟨info, hadds, hring⟩ | ⟨id, hring⟩ := ring_step hstep
  · rw [hsame]
    exact h
  · rw [hring, HashRing.addNode, List.map_append, List.map_singleton, ← List.concat_eq_append]
    exact h.concat (hnew info hadds)
  · rw [hring, HashRing.removeNode]
    exact h.sublist (List.filter_sublist.map _)

theorem settled_step {X : Crates} {monitored : List NodeId} {vnodeCount : Nat}
    {ids : List NodeId} (hd : HashRing.DistinctPositions X vnodeCount ids) {s t : Cluster}
    {e : ClusterEvent} (h : s.ring.Settled X vnodeCount ids)
    (hplay : ∀ info, s.Adds e info → info.id ∈ ids) (hstep : s.step X monitored e = some t) :
    t.ring.Settled X vnodeCount ids := by
  obtain hsame | ⟨info, hadds, hring⟩ | ⟨id, hring⟩ := ring_step hstep
  · rw [hsame]
    exact h
  · rw [hring]
    obtain ⟨us, _, hnew⟩ := hadds.2
    exact h.addNode hd hnew (hplay info hadds)
  · rw [hring]
    exact h.removeNode id

/-- A settled ring with two members at one address has a list with both. -/
theorem not_distinctReplicas {X : Crates} {vnodeCount : Nat} {ids : List NodeId} {s : Cluster}
    (hs : s.ring.Settled X vnodeCount ids) (hv : 1 ≤ vnodeCount)
    (h : ¬ (s.ring.nodes.map (·.addr)).Nodup) : ¬ s.DistinctReplicas X := by
  intro hdistinct
  apply h
  have hlist := hdistinct "" s.ring.nodes.length
  rwa [((hs.getPreferenceList_perm hv "").map _).nodup_iff] at hlist

/-- A router that has just read its configuration. -/
def boot (X : Crates) (config : List NodeInfo) : Cluster :=
  init ⟨HashRing.new.addNodes X config, .new⟩

theorem nodes_boot (X : Crates) (config : List NodeInfo) : (boot X config).ring.nodes = config := by
  simp [boot, ring, init, RouterSys.start, HashRing.new, HashRing.withVnodeCount]

theorem settled_boot {X : Crates} {ids : List NodeId} {config : List NodeInfo}
    (hd : HashRing.DistinctPositions X defaultVnodeCount ids) (hnodup : (config.map (·.id)).Nodup)
    (hids : ∀ info ∈ config, info.id ∈ ids) :
    (boot X config).ring.Settled X defaultVnodeCount ids := by
  refine HashRing.Reached.settled hd ((HashRing.reached_empty X _ ids).addNodes ?_ hids)
  simpa [HashRing.withVnodeCount] using hnodup

/-- **Replicas at distinct addresses**, and the exact condition. The
router starts with distinct ids at distinct addresses. In every run whose
additions to the ring each bring an address that no member has, every
preference list ever returned is of nodes at distinct addresses. As long
as no two ids in play share a position, no other run is that good. -/
theorem replicas_distinct (X : Crates) (monitored : List NodeId) (config : List NodeInfo)
    (hids : (config.map (·.id)).Nodup) (haddrs : (config.map (·.addr)).Nodup)
    (es : List ClusterEvent) :
    (Trace.Along (step X monitored) BringsNewAddr (boot X config) es →
      Trace.Throughout (step X monitored) (DistinctReplicas X) (boot X config) es)
    ∧ ∀ ids, HashRing.DistinctPositions X defaultVnodeCount ids →
      (∀ info ∈ config, info.id ∈ ids) →
      Trace.Along (step X monitored) (fun s e => ∀ info, s.Adds e info → info.id ∈ ids)
        (boot X config) es →
      Trace.Throughout (step X monitored) (DistinctReplicas X) (boot X config) es →
      Trace.Along (step X monitored) BringsNewAddr (boot X config) es := by
  have hboot : ((boot X config).ring.nodes.map (·.addr)).Nodup := by
    rw [nodes_boot]
    exact haddrs
  constructor
  · intro hnew
    have hnodup := Trace.throughout_of_along
      (fun s e t hs hC hstep => nodup_addrs_step hs hC hstep) hboot hnew
    exact hnodup.mono fun s hs key n => HashRing.nodup_addrs_getPreferenceList hs X key n
  · intro ids hd hconfig hplay
    refine Trace.Throughout.along (I := fun s => s.ring.Settled X defaultVnodeCount ids) ?_ ?_
      (settled_boot hd hids hconfig) hplay
    · intro s e t hs hin _ hstep
      exact settled_step hd hs hin hstep
    · -- the ring after the addition has both nodes, and so has its longest list
      intro s e t hs hin hold hstep
      rw [BringsNewAddr] at hold
      push Not at hold
      obtain ⟨info, hadds, hshared⟩ := hold
      refine not_distinctReplicas (settled_step hd hs hin hstep) (by decide) ?_
      rw [hadds.ring hstep, HashRing.addNode, List.map_append, List.nodup_append]
      intro hnodup
      exact hnodup.2.2 _ hshared _ (by simp) rfl

/-- Node 2 tells the router about itself. -/
def heardRun : List ClusterEvent :=
  let two : MemberEntry := ⟨⟨⟨2⟩, ""⟩, .alive, 0, 0⟩
  [.start 0 ⟨2⟩ [], .send ⟨2⟩ 0 [two],
    .router (.respond (buildGossipMessage (.hyphenated digitHash) 0 ⟨2⟩ [two]).members),
    .router .nextMember, .router .nextUpdate]

/-- Only its last step can add to the ring, and only node 2. -/
theorem along_heardRun {P : Cluster → NodeInfo → Prop} {config : List NodeInfo}
    (hlast : ∀ s : Cluster, s.ring.nodes = config → s.ring.containsNode ⟨2⟩ = false →
      P s ⟨⟨2⟩, ""⟩) :
    Trace.Along (step (.hyphenated digitHash) [⟨1⟩])
      (fun s e => ∀ info, s.Adds e info → P s info) (boot (.hyphenated digitHash) config)
      heardRun := by
  refine Trace.along_of_step rfl (fun info hadds => absurd hadds.1 (by simp)) ?_
  refine Trace.along_of_step rfl (fun info hadds => absurd hadds.1 (by simp)) ?_
  refine Trace.along_of_step rfl (fun info hadds => absurd hadds.1 (by simp)) ?_
  refine Trace.along_of_step rfl (fun info hadds => absurd hadds.1 (by simp)) ?_
  refine Trace.along_of_step rfl ?_ trivial
  intro info hadds
  obtain ⟨us, hcurrent, hnew⟩ := hadds.2
  have hnext : [RouterUpdate.addNode ⟨⟨2⟩, ""⟩] = .addNode info :: us := hcurrent
  cases hnext
  exact hlast _ (nodes_boot _ config) hnew

/-- A router configured with node 1 alone puts it on its ring, at an
address of its own. -/
theorem replicas_distinct_heardRun :
    ∃ s, Trace.exec (step (.hyphenated digitHash) [⟨1⟩])
        (boot (.hyphenated digitHash) [⟨⟨1⟩, "10.0.0.1:5001"⟩]) heardRun = some s
      ∧ s.ring.containsNode ⟨2⟩ = true ∧ s.DistinctReplicas (.hyphenated digitHash) := by
  obtain ⟨s, hrun, htwo⟩ : ∃ s, Trace.exec (step (.hyphenated digitHash) [⟨1⟩])
        (boot (.hyphenated digitHash) [⟨⟨1⟩, "10.0.0.1:5001"⟩]) heardRun = some s
      ∧ s.ring.containsNode ⟨2⟩ = true := ⟨_, rfl, rfl⟩
  have hall := (replicas_distinct (.hyphenated digitHash) [⟨1⟩] [⟨⟨1⟩, "10.0.0.1:5001"⟩] (by simp)
    (by simp) heardRun).1
  refine ⟨s, hrun, htwo, Trace.throughout_iff_prefix.mp (hall ?_) _ List.prefix_rfl s hrun⟩
  refine along_heardRun (P := fun s info => info.addr ∉ s.ring.nodes.map (·.addr)) ?_
  intro s hnodes _
  rw [hnodes]
  decide

/-- Node 2 stands alone. Node 1 starts with both addresses as seeds, its
own and that of node 2, hears from node 2 and tells the router what it
knows. -/
def learntRun : List ClusterEvent :=
  let say := buildGossipMessage (.hyphenated digitHash) 0
  let one : MemberEntry := ⟨⟨⟨1⟩, ""⟩, .joining, 0, 0⟩
  let two : MemberEntry := ⟨⟨⟨2⟩, ""⟩, .alive, 0, 0⟩
  let seed : MemberEntry := ⟨⟨⟨3⟩, "10.0.0.1:5001"⟩, .alive, 0, 0⟩
  let seed' : MemberEntry := ⟨⟨⟨4⟩, "10.0.0.2:5001"⟩, .alive, 0, 0⟩
  [.start 0 ⟨2⟩ [], .start 0 ⟨1⟩ [seed.info, seed'.info],
    .send ⟨2⟩ 0 [two],
    .node ⟨1⟩ (.gossip (.receive 0 (fun _ => ⟨0⟩) (say ⟨2⟩ [two]))),
    .send ⟨1⟩ 0 [one, two, seed, seed'],
    .router (.respond (say ⟨1⟩ [one, two, seed, seed']).members),
    .router .nextMember,
    .router .nextMember, .router .nextUpdate,
    .router .nextMember, .router .nextUpdate]

theorem freshIds_learntRun : Trace.Along (step (.hyphenated digitHash) [⟨1⟩]) FreshIds
    (boot (.hyphenated digitHash) [⟨⟨1⟩, "10.0.0.1:5001"⟩]) learntRun := by
  refine Trace.along_of_step rfl ⟨by simp [boot, init], by simp⟩ ?_
  refine Trace.along_of_step rfl ⟨by simp [boot, init], ?_⟩ (along_freshIds_of_started ?_ _)
  · simp [boot, init, Function.update]
  · simp

/-- The router has put node 2 on its ring, and the placeholder for node 1
beside node 1. -/
theorem exec_learntRun :
    ∃ s, Trace.exec (step (.hyphenated digitHash) [⟨1⟩])
        (boot (.hyphenated digitHash) [⟨⟨1⟩, "10.0.0.1:5001"⟩]) learntRun = some s
      ∧ s.ring = ((boot (.hyphenated digitHash) [⟨⟨1⟩, "10.0.0.1:5001"⟩]).ring.addNode
        (.hyphenated digitHash) ⟨⟨2⟩, ""⟩).addNode (.hyphenated digitHash)
          ⟨⟨3⟩, "10.0.0.1:5001"⟩ :=
  ⟨_, rfl, rfl⟩

theorem settled_learntRun {s : Cluster}
    (hring : s.ring = ((boot (.hyphenated digitHash) [⟨⟨1⟩, "10.0.0.1:5001"⟩]).ring.addNode
      (.hyphenated digitHash) ⟨⟨2⟩, ""⟩).addNode (.hyphenated digitHash)
        ⟨⟨3⟩, "10.0.0.1:5001"⟩) :
    s.ring.Settled (.hyphenated digitHash) defaultVnodeCount [⟨1⟩, ⟨2⟩, ⟨3⟩]
      ∧ s.ring.nodes = [⟨⟨1⟩, "10.0.0.1:5001"⟩, ⟨⟨2⟩, ""⟩, ⟨⟨3⟩, "10.0.0.1:5001"⟩] := by
  have hboot := settled_boot distinctPositions_digitHash
    (show ([⟨⟨1⟩, "10.0.0.1:5001"⟩].map NodeInfo.id).Nodup by simp) (by simp)
  have htwo : ((boot (.hyphenated digitHash) [⟨⟨1⟩, "10.0.0.1:5001"⟩]).ring.addNode
      (.hyphenated digitHash) ⟨⟨2⟩, ""⟩).Settled (.hyphenated digitHash) defaultVnodeCount _ :=
    hboot.addNode distinctPositions_digitHash rfl (by simp)
  rw [hring]
  refine ⟨htwo.addNode distinctPositions_digitHash rfl (by simp), ?_⟩
  simp [HashRing.addNode, nodes_boot]

/-- Node 1 and its placeholder are two replicas in one process. -/
theorem replicas_not_distinct_learntRun :
    Trace.Along (step (.hyphenated digitHash) [⟨1⟩]) FreshIds
        (boot (.hyphenated digitHash) [⟨⟨1⟩, "10.0.0.1:5001"⟩]) learntRun
      ∧ ¬ Trace.Throughout (step (.hyphenated digitHash) [⟨1⟩])
        (DistinctReplicas (.hyphenated digitHash))
        (boot (.hyphenated digitHash) [⟨⟨1⟩, "10.0.0.1:5001"⟩]) learntRun := by
  refine ⟨freshIds_learntRun, fun hall => ?_⟩
  obtain ⟨s, hrun, hring⟩ := exec_learntRun
  obtain ⟨hsettled, hnodes⟩ := settled_learntRun hring
  refine not_distinctReplicas hsettled (by decide) ?_
    (Trace.throughout_iff_prefix.mp hall _ List.prefix_rfl s hrun)
  rw [hnodes]
  decide

end Cluster

end SelfHealingCache
