import Mathlib.Data.UInt
import SelfHealingCache.Common.RingHistory
import SelfHealingCache.Cluster.JoiningView
import SelfHealingCache.Cluster.SeedRing

/-!
# Router and rebalancer agree on owners

The router's ring starts from the configuration, in file order, and then
follows the gossip it hears; a rebalancer's ring is built in one go from
its own table, self first. Both are rings with a history of admissible
calls, so both are functions of their member sets.
-/

namespace SelfHealingCache

namespace HashRing

section Agreement

variable {X : Crates} {vnodeCount : Nat} {ids : List NodeId} {r r' : HashRing}

/-- Adding several new members is adding them one by one. -/
theorem Reached.addNodes (h : r.Reached X vnodeCount ids) {infos : List NodeInfo}
    (hnodup : (r.nodes.map (·.id) ++ infos.map (·.id)).Nodup)
    (hids : ∀ info ∈ infos, info.id ∈ ids) : (r.addNodes X infos).Reached X vnodeCount ids := by
  induction infos generalizing r with
  | nil => exact h
  | cons info infos ih =>
      have hnew : ¬ r.containsNode info.id = true := by
        rw [containsNode_iff]
        intro hmem
        exact (List.nodup_append.mp hnodup).2.2 _ hmem info.id (by simp) rfl
      rw [addNodes_cons]
      refine ih (h.step (.add info) ?_ ?_) ?_ fun i hi => hids i (List.mem_cons_of_mem _ hi)
      · intro i heq
        cases heq
        exact hids info List.mem_cons_self
      · rw [HashRing.step, if_neg hnew]
      · simpa [addNode] using hnodup

theorem reached_empty (X : Crates) (vnodeCount : Nat) (ids : List NodeId) :
    (withVnodeCount vnodeCount).Reached X vnodeCount ids :=
  ⟨[], by simp, rfl⟩

/-- Equal member sets give equal answers. -/
theorem Settled.answers_eq (h : r.Settled X vnodeCount ids) (h' : r'.Settled X vnodeCount ids)
    (hnodes : ∀ n, n ∈ r.nodes ↔ n ∈ r'.nodes) (key : String) (n : Nat) :
    r.getNode X key = r'.getNode X key
      ∧ r.getPreferenceList X key n = r'.getPreferenceList X key n := by
  rw [getNode_eq_head?, getNode_eq_head?, getPreferenceList_eq, getPreferenceList_eq,
    h.prefOrder_eq h' hnodes]
  exact ⟨rfl, rfl⟩

/-- Equal id sets, with whatever addresses, give equal owner ids. -/
theorem Settled.owner_eq (h : r.Settled X vnodeCount ids) (h' : r'.Settled X vnodeCount ids)
    (hids : ∀ id, id ∈ r.nodes.map (·.id) ↔ id ∈ r'.nodes.map (·.id)) (key : String) :
    (r.getNode X key).map (·.id) = (r'.getNode X key).map (·.id) :=
  getNode_id_of_ring (h.ring_eq h' hids) key

end Agreement

end HashRing

/-! ## The router's ring -/

/-- An update that adds nothing, or one of `ids`. -/
def RouterUpdate.AddsFrom (ids : List NodeId) (u : RouterUpdate) : Prop :=
  ∀ info, u = .addNode info → info.id ∈ ids

namespace RouterSys

/-- The ids a response says are Alive are among `ids`. -/
def AliveAmong (X : Crates) (ids : List NodeId) (members : List ProtoMemberEntry) : Prop :=
  ∀ m ∈ members, ∀ id, observed X m = some (id, .alive) → id ∈ ids

def HearsFrom (X : Crates) (ids : List NodeId) (e : RouterEvent) : Prop :=
  ∀ members, e = .respond members → AliveAmong X ids members

/-- The ring has an admissible history, and so will what the client still
has to do. -/
structure RingReached (X : Crates) (vnodeCount : Nat) (ids : List NodeId) (s : RouterSys) :
    Prop where
  ring : s.router.ring.Reached X vnodeCount ids
  current : ∀ u ∈ s.current, u.AddsFrom ids
  rest : AliveAmong X ids s.rest

theorem RingReached.step {X : Crates} {monitored : List NodeId} {vnodeCount : Nat}
    {ids : List NodeId} {s t : RouterSys} {e : RouterEvent} (h : s.RingReached X vnodeCount ids)
    (hears : HearsFrom X ids e) (hstep : s.step X monitored e = some t) :
    t.RingReached X vnodeCount ids := by
  have htold : s.Told X fun info status => status = .alive → info.id ∈ ids := by
    refine ⟨?_, fun info hinfo _ => h.current _ hinfo info rfl⟩
    rintro m hm id status hobs rfl
    exact h.rest m hm id hobs
  have hnext : t.Told X fun info status => status = .alive → info.id ∈ ids := by
    refine htold.step ?_ hstep
    rintro members he m hm id status hobs rfl
    exact hears members he m hm id hobs
  refine ⟨?_, ?_, fun m hm id hobs => hnext.rest m hm id .alive hobs rfl⟩
  · obtain hsame | ⟨info, _, hadds, hring⟩ | ⟨id, hring⟩ := ring_step hstep
    · rw [hsame]
      exact h.ring
    · rw [hring]
      have hid := h.current _ hadds.mem_current info rfl
      obtain ⟨us, _, hnew⟩ := hadds
      refine h.ring.step (.add info) ?_ (by simp [HashRing.step, hnew])
      intro i heq
      cases heq
      exact hid
    · rw [hring]
      exact h.ring.step (.remove id) (fun i heq => by cases heq) rfl
  · intro u hu info heq
    subst heq
    exact hnext.current info hu rfl

/-- The ring of a running router has an admissible history. -/
theorem reached_exec {X : Crates} {monitored : List NodeId} {ids : List NodeId}
    {config : List NodeInfo} (hconfig : (config.map (·.id)).Nodup)
    (hids : ∀ info ∈ config, info.id ∈ ids) {health : HealthMonitor} {es : List RouterEvent}
    (hears : ∀ members, .respond members ∈ es → AliveAmong X ids members) {s : RouterSys}
    (hrun : Trace.exec (RouterSys.step X monitored)
      (start ⟨HashRing.new.addNodes X config, health⟩) es = some s) :
    s.router.ring.Reached X defaultVnodeCount ids := by
  have hstart : (start ⟨HashRing.new.addNodes X config, health⟩).RingReached X
      defaultVnodeCount ids := by
    refine ⟨?_, by simp [start], by simp [start, AliveAmong]⟩
    exact (HashRing.reached_empty X defaultVnodeCount ids).addNodes
      (by simpa [HashRing.withVnodeCount] using hconfig) hids
  have hall : ∀ e ∈ es, HearsFrom X ids e := by
    intro e he members heq
    rw [heq] at he
    exact hears members he
  exact (Trace.exec_invariant (fun s e t hs hC hst => RingReached.step hs hC hst)
    hstart (Trace.along_of_forall hall _) hrun).ring

end RouterSys

/-! ## The rebalancer's ring -/

theorem MembershipTable.nodup_routablePeers (t : MembershipTable) :
    (t.routablePeers.map (·.info.id)).Nodup := by
  have hkeys : t.routablePeers.map (·.info.id)
      = (t.members.entries.filter fun e => e.1 ≠ t.localId ∧ e.2.status = .alive).map (·.1) := by
    rw [routablePeers, List.map_map]
    apply List.map_congr_left
    intro e he
    exact t.keyed e.1 e.2 (AList.mem_lookup_iff.mpr (List.mem_filter.mp he).1)
  rw [hkeys]
  exact (List.filter_sublist.map _).nodup t.members.nodupKeys

theorem reached_buildRing {X : Crates} {ids : List NodeId} {t : MembershipTable}
    {peers : List MemberEntry} (hperm : peers.Perm t.routablePeers) (hself : t.localId ∈ ids)
    (hpeers : ∀ e ∈ peers, e.info.id ∈ ids) :
    (buildRing X t peers).Reached X defaultVnodeCount ids := by
  refine (HashRing.reached_empty X defaultVnodeCount ids).addNodes ?_ ?_
  · have hnodup : (peers.map (·.info.id)).Nodup :=
      (hperm.map _).nodup_iff.mpr t.nodup_routablePeers
    have hlocal : t.localId ∉ peers.map (·.info.id) := by
      intro hmem
      obtain ⟨e, he, heq⟩ := List.mem_map.mp hmem
      exact (MembershipTable.mem_routablePeers.mp (hperm.mem_iff.mp he)).2.1 heq
    simpa [HashRing.withVnodeCount, Function.comp_def] using ⟨by simpa using hlocal, hnodup⟩
  · intro info hinfo
    rcases List.mem_cons.mp hinfo with rfl | hinfo
    · exact hself
    · obtain ⟨e, he, rfl⟩ := List.mem_map.mp hinfo
      exact hpeers e he

/-! ## One ring for one member set -/

/-- **The ring is a function of its member set.** Two histories that end
with the same members give the same answers to every lookup; adding a
member and removing it again restores them; and a running router and a
rebalancer whose rings hold the same ids name the same owner for every
key. -/
theorem HashRing.function_of_members (X : Crates) (ids : List NodeId) :
    (∀ vnodeCount, DistinctPositions X vnodeCount ids →
      ∀ r r' : HashRing, r.Reached X vnodeCount ids → r'.Reached X vnodeCount ids →
      (∀ n, n ∈ r.nodes ↔ n ∈ r'.nodes) → ∀ key n,
        r.getNode X key = r'.getNode X key
        ∧ r.getPreferenceList X key n = r'.getPreferenceList X key n)
    ∧ (∀ vnodeCount, DistinctPositions X vnodeCount ids →
      ∀ r : HashRing, r.Reached X vnodeCount ids →
      ∀ info : NodeInfo, info.id ∈ ids → r.containsNode info.id = false → ∀ key n,
        ((r.addNode X info).removeNode info.id).getNode X key = r.getNode X key
        ∧ ((r.addNode X info).removeNode info.id).getPreferenceList X key n
          = r.getPreferenceList X key n)
    ∧ (DistinctPositions X defaultVnodeCount ids →
      ∀ (monitored : List NodeId) (config : List NodeInfo) (health : HealthMonitor)
        (es : List RouterEvent) (s : RouterSys) (t : MembershipTable) (peers : List MemberEntry),
      (config.map (·.id)).Nodup → (∀ info ∈ config, info.id ∈ ids) →
      (∀ members, .respond members ∈ es → RouterSys.AliveAmong X ids members) →
      Trace.exec (RouterSys.step X monitored) (.start ⟨new.addNodes X config, health⟩) es
        = some s →
      peers.Perm t.routablePeers → t.localId ∈ ids → (∀ e ∈ peers, e.info.id ∈ ids) →
      (∀ id, id ∈ s.router.ring.nodes.map (·.id) ↔ id ∈ (buildRing X t peers).nodes.map (·.id)) →
      ∀ key, (s.router.ring.getNode X key).map (·.id)
        = ((buildRing X t peers).getNode X key).map (·.id)) := by
  refine ⟨?_, ?_, ?_⟩
  · intro vnodeCount hd r r' hr hr' hnodes key n
    exact (hr.settled hd).answers_eq (hr'.settled hd) hnodes key n
  · intro vnodeCount hd r hr info hid hnew key n
    have horder := (hr.settled hd).prefOrder_addNode hd hnew hid key
    rw [getNode_eq_head?, getNode_eq_head?, getPreferenceList_eq, getPreferenceList_eq,
      prefOrder_removeNode, horder]
    exact ⟨rfl, rfl⟩
  · intro hd monitored config health es s t peers hconfig hin hears hrun hperm hself hpeers hids key
    have hrouter := RouterSys.reached_exec hconfig hin hears hrun
    have hnode := reached_buildRing (X := X) hperm hself hpeers
    exact (hrouter.settled hd).owner_eq (hnode.settled hd) hids key

/-- The last digit of an id above, the index of the virtual node below. -/
def digitHash (bytes : ByteArray) : UInt64 :=
  let text := bytes.data.toList
  (text.getD 35 0).toUInt64 * 2 ^ 32
    + (text.drop 36).foldl (fun h b => h * 31 + b.toUInt64) 7

theorem distinctPositions_digitHash :
    HashRing.DistinctPositions (.hyphenated digitHash) defaultVnodeCount [⟨1⟩, ⟨2⟩, ⟨3⟩] :=
  .of_owner (· / 2 ^ 32) (fun a => 48 + UInt64.ofNat a.uuid.toNat) (by decide +kernel) (by decide)

/-- A report that node 2 is Alive. -/
def aliveReport : ProtoMemberEntry :=
  ⟨(Crates.hyphenated digitHash).display ⟨2⟩, "b", 0, 0, 0⟩

theorem observed_aliveReport :
    observed (.hyphenated digitHash) aliveReport = some (⟨2⟩, .alive) := by
  rw [observed, aliveReport, (Crates.hyphenated digitHash).parse_display]
  rfl

/-- A router configured with node 1 that has heard of node 2. -/
def heardRouter : RouterSys where
  router := ⟨(HashRing.new.addNodes (.hyphenated digitHash) [⟨⟨1⟩, "a"⟩]).addNode
    (.hyphenated digitHash) ⟨⟨2⟩, "b"⟩, HealthMonitor.new.markAlive ⟨2⟩⟩
  rest := []
  current := []
  last := Function.update (fun _ => none) ⟨2⟩ (some .alive)

theorem exec_heardRouter :
    Trace.exec (RouterSys.step (.hyphenated digitHash) [])
      (.start ⟨HashRing.new.addNodes (.hyphenated digitHash) [⟨⟨1⟩, "a"⟩], .new⟩)
      [.respond [aliveReport], .nextMember, .nextUpdate] = some heardRouter := by
  have hnew : (HashRing.new.addNodes (.hyphenated digitHash) [⟨⟨1⟩, "a"⟩]).containsNode ⟨2⟩
      = false := by
    rw [HashRing.containsNode, HashRing.nodes_addNodes]
    rfl
  have haddr : aliveReport.addr = "b" := rfl
  simp [Trace.exec, RouterSys.step, RouterSys.start, RouterSys.takeUp, observed_aliveReport,
    memberUpdates, Router.apply, haddr, heardRouter]
  intro hin
  exact absurd (hnew.symm.trans hin) Bool.false_ne_true

/-- Node 2 has node 1 from its seed list, the router has node 2 from a
response; both rings hold the two ids. -/
theorem HashRing.function_of_members_two_nodes : ∀ key,
    (heardRouter.router.ring.getNode (.hyphenated digitHash) key).map (·.id)
      = ((buildRing (.hyphenated digitHash) (.new 0 ⟨2⟩ [⟨⟨1⟩, "a"⟩])
        [⟨⟨⟨1⟩, "a"⟩, .alive, 0, 0⟩]).getNode (.hyphenated digitHash) key).map (·.id) := by
  refine (function_of_members (.hyphenated digitHash) _).2.2 distinctPositions_digitHash
    [] [⟨⟨1⟩, "a"⟩] .new _ _ _ _ (by simp) (by simp) ?_ exec_heardRouter (List.Perm.refl _)
    ?_ ?_ ?_
  · intro members hmem m hm id hobs
    simp only [List.mem_cons, RouterEvent.respond.injEq, reduceCtorEq, List.not_mem_nil,
      or_false] at hmem
    subst hmem
    rw [List.mem_singleton.mp hm, observed_aliveReport] at hobs
    cases hobs
    simp
  · decide
  · decide
  · intro id
    rw [Cluster.nodes_buildRing]
    simp [heardRouter, addNode, new, withVnodeCount, MembershipTable.localId_new, or_comm]

end SelfHealingCache
