import SelfHealingCache.Cluster.System

/-!
# The ring a joining node rebalances with

`main` gives each seed ADDRESS a made-up id, and the table starts with
these placeholders as Alive. The rebalancer waits for a routable peer and
then builds its ring from the routable peers. No message ever touches a
placeholder: its id is no node's own, so gossip adds the real node beside
it. The placeholder stays routable until the timeout sweep suspects it,
and the ring built before that assigns keys to an id nobody has.

`rebalance_ring_real_iff` is the exact condition: the ring is that of real
nodes when every placeholder in the table has timed out.
-/

namespace SelfHealingCache

namespace Cluster

/-! ## Where ids come from -/

/-- Ids are drawn at random: no node starts under an id that was made up
for an address, and no node has an id that is made up. -/
def FreshIds (s : Cluster) : ClusterEvent → Prop
  | .start _ id seeds => id ∉ s.seeded ∧ ∀ j ∈ seeds.map (·.id), j ≠ id ∧ s.nodes j = none
  | _ => True

/-- In the run `es` node `id` has merged a message that mentions `j`. -/
def Heard (X : Crates) (es : List ClusterEvent) (id j : NodeId) : Prop :=
  ∃ now fresh msg, .node id (.gossip (.receive now fresh msg)) ∈ es
    ∧ ∃ m ∈ msg.members, X.parse m.nodeId = some j

theorem Heard.append {X : Crates} {es : List ClusterEvent} {id j : NodeId}
    (h : Heard X es id j) (e : ClusterEvent) : Heard X (es ++ [e]) id j := by
  obtain ⟨now, fresh, msg, hmem, hm⟩ := h
  exact ⟨now, fresh, msg, List.mem_append_left _ hmem, hm⟩

/-- Every id in the system is some node's own or was made up, never
both, and what a table holds beyond made-up ids it has heard. -/
structure Sourced (X : Crates) (es : List ClusterEvent) (s : Cluster) : Prop where
  view : s.View X fun j _ => (s.nodes j).isSome ∨ j ∈ s.seeded
  seeded : ∀ j ∈ s.seeded, s.nodes j = none
  heard : ∀ id n, s.nodes id = some n →
    n.table.Others fun j _ => j ∈ s.seeded ∨ Heard X es id j

theorem Move.isSome_nodes {X : Crates} {monitored : List NodeId} {s t : Cluster}
    {e : ClusterEvent} (h : Move X monitored s e t) {j : NodeId} (hj : (s.nodes j).isSome) :
    (t.nodes j).isSome := by
  cases h with
  | @start now id seeds hfree =>
      by_cases hid : j = id <;> simp [hid, hj]
  | @node id e n n' hn hears hmove =>
      by_cases hid : j = id <;> simp [hid, hj]
  | send now hn hlist => exact hj
  | router hobs hstep => exact hj

theorem Move.mem_seeded {X : Crates} {monitored : List NodeId} {s t : Cluster}
    {e : ClusterEvent} (h : Move X monitored s e t) {j : NodeId} (hj : j ∈ s.seeded) :
    j ∈ t.seeded := by
  cases h with
  | start now seeds hfree => exact List.mem_append_right _ hj
  | node hn hears hmove => exact hj
  | send now hn hlist => exact hj
  | router hobs hstep => exact hj

/-- Made-up ids stay nobody's. -/
theorem Move.seeded_none {X : Crates} {monitored : List NodeId} {s t : Cluster}
    {e : ClusterEvent} (h : Move X monitored s e t) (hfresh : s.FreshIds e)
    (hs : ∀ j ∈ s.seeded, s.nodes j = none) : ∀ j ∈ t.seeded, t.nodes j = none := by
  cases h with
  | @start now id seeds hfree =>
      obtain ⟨hid, hseeds⟩ := hfresh
      intro j hj
      dsimp only at hj ⊢
      rcases List.mem_append.mp hj with hj | hj
      · rw [Function.update_of_ne (hseeds j hj).1]
        exact (hseeds j hj).2
      · have hne : j ≠ id := fun heq => hid (by rw [← heq]; exact hj)
        rw [Function.update_of_ne hne]
        exact hs j hj
  | @node id e n n' hn hears hmove =>
      intro j hj
      have hnone := hs j hj
      have hne : j ≠ id := by
        intro heq
        rw [heq, hn] at hnone
        cases hnone
      show Function.update s.nodes id (some n') j = none
      rw [Function.update_of_ne hne]
      exact hnone
  | send now hn hlist => exact hs
  | router hobs hstep => exact hs

theorem Sourced.heard_move {X : Crates} {monitored : List NodeId} {es : List ClusterEvent}
    {s t : Cluster} {e : ClusterEvent} (h : s.Sourced X es) (hmove : Move X monitored s e t) :
    ∀ id n, t.nodes id = some n →
      n.table.Others fun j _ => j ∈ t.seeded ∨ Heard X (es ++ [e]) id j := by
  have hold : ∀ id n, s.nodes id = some n →
      n.table.Others fun j _ => j ∈ t.seeded ∨ Heard X (es ++ [e]) id j := by
    intro id n hn j entry hj hlook
    exact (h.heard id n hn j entry hj hlook).imp hmove.mem_seeded fun hh => hh.append e
  cases hmove with
  | @start now id seeds hfree =>
      refine forall_nodes_update hold fun j entry hj hlook => .inl ?_
      obtain ⟨_, _, hmem⟩ := NodeSys.others_start now id seeds j entry hj hlook
      exact List.mem_append_left _ hmem
  | @node id e n n' hn hears hmove =>
      have rule := WireRule.of_id fun j => j ∈ s.seeded ∨ Heard X (es ++ [.node id e]) id j
      refine forall_nodes_update hold (hmove.others rule.toEntryRule (hold id n hn) ?_)
      -- what is merged now has just been heard
      intro now fresh msg he r hr
      subst he
      obtain ⟨_, _, _, m, hm, hparse⟩ := (h.view.net msg hears).decoded hr
      exact .inr ⟨now, fresh, msg, by simp, m, hm, hparse⟩
  | send now hn hlist => exact hold
  | router hobs hstep => exact hold

theorem Sourced.move {X : Crates} {monitored : List NodeId} {es : List ClusterEvent}
    {s t : Cluster} {e : ClusterEvent} (h : s.Sourced X es) (hfresh : s.FreshIds e)
    (hmove : Move X monitored s e t) : t.Sourced X (es ++ [e]) := by
  refine ⟨?_, hmove.seeded_none hfresh h.seeded, h.heard_move hmove⟩
  have hview : s.View X fun j _ => (t.nodes j).isSome ∨ j ∈ t.seeded :=
    h.view.mono fun j _ hj => hj.imp hmove.isSome_nodes hmove.mem_seeded
  apply View.move (WireRule.of_id fun j => (t.nodes j).isSome ∨ j ∈ t.seeded) hview hmove
  · intro now id seeds he j hj _ _ _
    subst he
    cases hmove with
    | start now seeds hfree => exact .inr (List.mem_append_left _ hj)
  · intro id n hn
    exact .inl (hmove.isSome_nodes (by rw [hn]; rfl))

theorem sourced_exec {X : Crates} {monitored : List NodeId} {r : Router}
    {es : List ClusterEvent} {s : Cluster}
    (hrun : Trace.exec (step X monitored) (init r) es = some s)
    (hfresh : Trace.Along (step X monitored) FreshIds (init r) es) : s.Sourced X es := by
  have hinit : (init r).Sourced X [] := by
    refine ⟨view_init X _ r, ?_, ?_⟩
    · intro j hj
      cases hj
    · intro id n hn
      cases hn
  exact Trace.exec_history (I := Sourced X)
    (fun past u e t hu hf hstep => hu.move hf (move_of_step hstep)) [] hinit hfresh hrun

/-! ## The ring -/

/-- The ring of node `id` is the real cluster: every member but `id`
itself is the own id of a node and was learnt from a message, and every
key has the owner it has in a ring built from `id` and the real members
in any order. (Where two nodes share a position the later insertion wins,
so there the order has to be the same.) -/
structure RealRing (X : Crates) (es : List ClusterEvent) (s : Cluster) (id : NodeId)
    (ring : HashRing) : Prop where
  members : ∀ info ∈ ring.nodes,
    info.id = id ∨ ((s.nodes info.id).isSome ∧ Heard X es id info.id)
  owners : ∀ real : List NodeInfo,
    (∀ j, j ∈ real.map (·.id) ↔ j = id ∨ (j ∈ ring.nodes.map (·.id) ∧ (s.nodes j).isSome)) →
    real.map (·.id) = ring.nodes.map (·.id)
      ∨ HashRing.DistinctPositions X defaultVnodeCount (real.map (·.id)) →
    ∀ key, (ring.getNode X key).map (·.id)
      = ((HashRing.new.addNodes X real).getNode X key).map (·.id)

theorem nodes_buildRing (X : Crates) (t : MembershipTable) (peers : List MemberEntry) :
    (buildRing X t peers).nodes = ⟨t.localId, t.localAddr⟩ :: peers.map (·.info) := by
  simp [buildRing, HashRing.new, HashRing.withVnodeCount]

/-- Real members give real owners. -/
theorem realRing_buildRing {X : Crates} {es : List ClusterEvent} {s : Cluster}
    {t : MembershipTable} {peers : List MemberEntry}
    (h : ∀ e ∈ peers, (s.nodes e.info.id).isSome ∧ Heard X es t.localId e.info.id) :
    RealRing X es s t.localId (buildRing X t peers) := by
  constructor
  · intro info hinfo
    rw [nodes_buildRing] at hinfo
    rcases List.mem_cons.mp hinfo with rfl | hinfo
    · exact .inl rfl
    · obtain ⟨e, he, rfl⟩ := List.mem_map.mp hinfo
      exact .inr (h e he)
  · intro real hreal hpos key
    rw [nodes_buildRing] at hreal hpos
    symm
    rcases hpos with hsame | hdistinct
    · exact HashRing.getNode_id_eq_of_ids_eq hsame key
    · refine HashRing.getNode_id_eq_of_same_ids hdistinct (fun j => ?_) key
      rw [hreal j]
      constructor
      · intro hj
        rcases hj with rfl | ⟨hmem, _⟩
        · simp
        · exact hmem
      · intro hj
        rw [List.map_cons, List.mem_cons] at hj
        rcases hj with hself | hpeer
        · exact .inl hself
        · obtain ⟨info, hinfo, rfl⟩ := List.mem_map.mp hpeer
          obtain ⟨e, he, rfl⟩ := List.mem_map.mp hinfo
          exact .inr ⟨List.mem_cons_of_mem _ hpeer, (h e he).1⟩

/-- What the rebalancer does when it builds its ring. -/
theorem buildRing_of_step {X : Crates} {monitored : List NodeId} {s t : Cluster} {id : NodeId}
    {peers : List MemberEntry} {n n' : NodeSys} {ring : HashRing} {sources : List NodeInfo}
    (hn : s.nodes id = some n)
    (hstep : s.step X monitored (.node id (.rebalance (.buildRing peers))) = some t)
    (hn' : t.nodes id = some n') (hphase : n'.phase = .pulling ring sources) :
    peers.Perm n.table.routablePeers ∧ ring = buildRing X n.table peers := by
  cases move_of_step hstep with
  | node hn₀ hears hmove =>
      rw [hn] at hn₀
      cases hn₀
      dsimp only at hn'
      rw [Function.update_self] at hn'
      cases hn'
      cases hmove with
      | rebalance hre =>
          cases hre with
          | buildRing hbuilding hperm =>
              cases hphase
              exact ⟨hperm, rfl⟩

/-- **The rebalance ring and the real cluster.** In every run with fresh
ids, whenever a rebalancer has left its polling loop and builds its ring:
the ring is that of real nodes exactly when its node's table holds no id
that was made up for a seed address as Alive. -/
theorem rebalance_ring_real_iff (X : Crates) (monitored : List NodeId) (r : Router) (id : NodeId)
    (peers : List MemberEntry) {es : List ClusterEvent} {s t : Cluster} {n n' : NodeSys}
    {ring : HashRing} {sources : List NodeInfo}
    (hrun : Trace.exec (step X monitored) (init r) es = some s)
    (hfresh : Trace.Along (step X monitored) FreshIds (init r) es)
    (hn : s.nodes id = some n)
    (hstep : s.step X monitored (.node id (.rebalance (.buildRing peers))) = some t)
    (hn' : t.nodes id = some n') (hphase : n'.phase = .pulling ring sources) :
    RealRing X es s id ring
      ↔ ∀ j ∈ s.seeded, ∀ e, n.table.members.lookup j = some e → e.status ≠ .alive := by
  have hs := sourced_exec hrun hfresh
  have hlocal := hs.view.localIds id n hn
  obtain ⟨hperm, rfl⟩ := buildRing_of_step hn hstep hn' hphase
  constructor
  · -- a placeholder that is still Alive is in the ring, and no node has its id
    intro hreal j hj e hlook halive
    have hnone := hs.seeded j hj
    have hne : j ≠ id := by
      intro heq
      rw [heq, hn] at hnone
      cases hnone
    have hkey := n.table.keyed j e hlook
    have hroutable : e ∈ n.table.routablePeers := by
      rw [MembershipTable.mem_routablePeers, hkey, hlocal]
      exact ⟨hlook, hne, halive⟩
    have hmem : e.info ∈ (buildRing X n.table peers).nodes := by
      rw [nodes_buildRing]
      exact List.mem_cons_of_mem _ (List.mem_map_of_mem (hperm.mem_iff.mpr hroutable))
    rcases hreal.members e.info hmem with hself | ⟨hsome, _⟩
    · exact hne (hkey.symm.trans hself)
    · rw [hkey, hnone] at hsome
      cases hsome
  · intro hcond
    rw [← hlocal]
    apply realRing_buildRing
    intro e he
    obtain ⟨hlook, hne, halive⟩ := MembershipTable.mem_routablePeers.mp (hperm.mem_iff.mp he)
    have hreal : e.info.id ∉ s.seeded := fun hj => hcond _ hj e hlook halive
    refine ⟨(hs.view.others id n hn _ e hne hlook).resolve_right hreal, ?_⟩
    rw [hlocal]
    exact (hs.heard id n hn _ e hne hlook).resolve_left hreal

/-- The steps after the last start ask nothing of the ids. -/
theorem along_freshIds_of_started {X : Crates} {monitored : List NodeId} {es : List ClusterEvent}
    (h : ∀ e ∈ es, ∀ now id seeds, e ≠ .start now id seeds) (s : Cluster) :
    Trace.Along (step X monitored) FreshIds s es := by
  refine (Trace.along_of_forall h s).mono fun s e he => ?_
  cases e with
  | start now id seeds => exact absurd rfl (he now id seeds)
  | _ => trivial

/-- Node 1 does not poll before its sweep has suspected the placeholder
and node 3 has introduced itself. -/
def patientRun : List ClusterEvent :=
  let placeholder : MemberEntry := ⟨⟨⟨2⟩, "10.0.0.3:5001"⟩, .alive, 0, 0⟩
  let self : MemberEntry := ⟨⟨⟨1⟩, ""⟩, .joining, 0, 0⟩
  let peer : MemberEntry := ⟨⟨⟨3⟩, ""⟩, .alive, 0, 0⟩
  [.start 0 ⟨3⟩ [], .start 0 ⟨1⟩ [placeholder.info],
    .node ⟨1⟩ (.gossip (.sweepBegin 4000000000 [placeholder, self])),
    .node ⟨1⟩ (.gossip .sweepNext),
    .send ⟨3⟩ 4000000000 [peer],
    .node ⟨1⟩ (.gossip (.receive 4000000000 (fun _ => ⟨0⟩)
      (buildGossipMessage (.hyphenated fun _ => 0) 4000000000 ⟨3⟩ [peer]))),
    .node ⟨1⟩ (.rebalance .poll)]

theorem rebalance_ring_real_patientRun :
    ∃ s ring, Trace.exec (step (.hyphenated fun _ => 0) []) (init ⟨.new, .new⟩) patientRun
        = some s
      ∧ ring.containsNode ⟨3⟩ = true
      ∧ RealRing (.hyphenated fun _ => 0) patientRun s ⟨1⟩ ring := by
  obtain ⟨s, hrun⟩ : ∃ s, Trace.exec (step (.hyphenated fun _ => 0) []) (init ⟨.new, .new⟩)
      patientRun = some s := ⟨_, rfl⟩
  obtain ⟨t, n, n', ring, sources, hn, hstep, hn', hphase, hthree, hplaceholder⟩ :
      ∃ t n n' ring sources, s.nodes ⟨1⟩ = some n
        ∧ s.step (.hyphenated fun _ => 0) [] (.node ⟨1⟩ (.rebalance
          (.buildRing [⟨⟨⟨3⟩, ""⟩, .alive, 0, 4000000000⟩]))) = some t
        ∧ t.nodes ⟨1⟩ = some n' ∧ n'.phase = .pulling ring sources
        ∧ ring.containsNode ⟨3⟩ = true
        ∧ ∀ j ∈ s.seeded, ∀ e, n.table.members.lookup j = some e → e.status ≠ .alive := by
    cases hrun
    refine ⟨_, _, _, _, _, rfl, rfl, rfl, rfl, rfl, ?_⟩
    intro j hj e hlook
    cases hj with
    | head =>
        cases hlook
        exact fun heq => by cases heq
    | tail _ hj => cases hj
  refine ⟨s, ring, hrun, hthree, ?_⟩
  refine (rebalance_ring_real_iff _ [] _ ⟨1⟩ _ hrun ?_ hn hstep hn' hphase).mpr hplaceholder
  refine Trace.along_of_step rfl ⟨by simp [init], by simp⟩ ?_
  refine Trace.along_of_step rfl ⟨by simp [init], ?_⟩ (along_freshIds_of_started ?_ _)
  · simp [init, Function.update]
  · simp

/-- Node 1 starts with one seed address, known to it as node 2, and polls
at once. -/
def eagerRun : List ClusterEvent :=
  [.start 0 ⟨1⟩ [⟨⟨2⟩, "10.0.0.2:5001"⟩], .node ⟨1⟩ (.rebalance .poll)]

/-- It has heard of nobody, and its ring holds an id nobody has. -/
theorem rebalance_ring_not_real_eagerRun :
    ∃ s t n ring sources,
      Trace.exec (step (.hyphenated fun _ => 0) []) (init ⟨.new, .new⟩) eagerRun = some s
      ∧ Trace.Along (step (.hyphenated fun _ => 0) []) FreshIds (init ⟨.new, .new⟩) eagerRun
      ∧ s.step (.hyphenated fun _ => 0) [] (.node ⟨1⟩ (.rebalance
          (.buildRing [⟨⟨⟨2⟩, "10.0.0.2:5001"⟩, .alive, 0, 0⟩]))) = some t
      ∧ t.nodes ⟨1⟩ = some n ∧ n.phase = .pulling ring sources
      ∧ s.nodes ⟨2⟩ = none ∧ ring.containsNode ⟨2⟩ = true
      ∧ ¬ RealRing (.hyphenated fun _ => 0) eagerRun s ⟨1⟩ ring := by
  refine ⟨_, _, _, _, _, rfl, ?_, rfl, rfl, rfl, rfl, rfl, fun hreal => ?_⟩
  · refine Trace.along_of_step rfl ⟨by simp [init], ?_⟩ (along_freshIds_of_started ?_ _)
    · simp [init]
    · simp
  · rcases hreal.members ⟨⟨2⟩, "10.0.0.2:5001"⟩ (by simp [nodes_buildRing]) with hself | ⟨hsome, _⟩
    · exact absurd hself (by decide)
    · cases hsome

end Cluster

end SelfHealingCache
