import SelfHealingCache.Router.GossipOrder

/-!
# What a gossip response leaves at the router

One response, worked through without interruption. It is a list of
updates of the ring and of the health monitor, each about one node
(`exchangeGossip_eq_foldl`), so a node that no well-formed entry names is
left alone. For the others the last entry decides: the router marks a
node Dead by recording three failures, and from every state the monitor
can be in with its threshold of three these reach Dead
(`HealthMonitor.Reachable.kept`).
-/

namespace SelfHealingCache

/-! ## The updates of a response -/

section Response

variable (X : Crates)

/-- The updates one entry makes; a malformed one makes none. -/
def entryUpdates (m : ProtoMemberEntry) : List RouterUpdate :=
  match observed X m with
  | some (id, status) =>
      (memberUpdates ⟨id, m.addr⟩ status).1 :: (memberUpdates ⟨id, m.addr⟩ status).2
  | none => []

/-- The updates a response makes, in order. -/
def responseUpdates (members : List ProtoMemberEntry) : List RouterUpdate :=
  members.flatMap (entryUpdates X)

theorem exchangeMember_eq_foldl (r : Router) (m : ProtoMemberEntry) :
    exchangeMember X r m = (entryUpdates X m).foldl (Router.apply X) r := by
  rw [exchangeMember, entryUpdates]
  cases observed X m with
  | none => rfl
  | some seen => rfl

theorem exchangeGossip_eq_foldl (r : Router) (members : List ProtoMemberEntry) :
    exchangeGossip X r members = (responseUpdates X members).foldl (Router.apply X) r := by
  induction members generalizing r with
  | nil => rfl
  | cons m members ih =>
      show exchangeGossip X (exchangeMember X r m) members = _
      rw [ih, exchangeMember_eq_foldl, ← List.foldl_append]
      rfl

/-- An update is about a node that some well-formed entry names. -/
theorem subject_responseUpdates {members : List ProtoMemberEntry} {u : RouterUpdate}
    (h : u ∈ responseUpdates X members) : history X u.subject members ≠ [] := by
  obtain ⟨m, hm, hu⟩ := List.mem_flatMap.mp h
  rw [entryUpdates] at hu
  cases hobs : observed X m with
  | none =>
      rw [hobs] at hu
      cases hu
  | some seen =>
      obtain ⟨id, status⟩ := seen
      rw [hobs] at hu
      obtain ⟨hfirst, hlater⟩ := subject_memberUpdates ⟨id, m.addr⟩ status
      have hsubject : u.subject = id := by
        rcases List.mem_cons.mp hu with rfl | hu
        · exact hfirst
        · exact hlater u hu
      have hmem : status ∈ history X u.subject members :=
        List.mem_filterMap.mpr ⟨m, hm, by rw [hobs, hsubject]; exact if_pos rfl⟩
      exact List.ne_nil_of_mem hmem

end Response

/-! ## Ids on the ring -/

/-- No id is on the ring twice. -/
def HashRing.DistinctIds (r : HashRing) : Prop := (r.nodes.map (·.id)).Nodup

theorem Router.distinctIds_apply {X : Crates} {r : Router} (h : r.ring.DistinctIds)
    (u : RouterUpdate) : (r.apply X u).ring.DistinctIds := by
  cases u with
  | markAlive id => exact h
  | markJoining id => exact h
  | recordFailure id => exact h
  | addNode info =>
      rw [apply]
      split_ifs with hin
      · exact h
      · -- the ring was asked first, so the id is new
        have hnew : ∀ n ∈ r.ring.nodes, n.id ≠ info.id := by
          simpa [HashRing.containsNode] using hin
        rw [HashRing.DistinctIds, HashRing.addNode, List.map_append, List.nodup_append]
        refine ⟨h, List.nodup_singleton _, ?_⟩
        intro id hid id' hid' heq
        obtain ⟨n, hn, rfl⟩ := List.mem_map.mp hid
        rw [List.map_singleton, List.mem_singleton] at hid'
        exact hnew n hn (heq.trans hid')
  | removeNode id =>
      rw [apply]
      split_ifs
      · exact h.sublist (List.filter_sublist.map _)
      · exact h

/-- An update about another node leaves a ring entry alone. -/
theorem Router.mem_nodes_apply_ne {X : Crates} {r : Router} {u : RouterUpdate} {info : NodeInfo}
    (h : u.subject ≠ info.id) : info ∈ (r.apply X u).ring.nodes ↔ info ∈ r.ring.nodes := by
  cases u with
  | markAlive id => exact Iff.rfl
  | markJoining id => exact Iff.rfl
  | recordFailure id => exact Iff.rfl
  | addNode added =>
      have hne : info ≠ added := fun heq => h (by rw [heq]; rfl)
      rw [apply]
      split_ifs
      · exact Iff.rfl
      · simp [HashRing.addNode, hne]
  | removeNode id =>
      have hne : info.id ≠ id := fun heq => h heq.symm
      rw [apply]
      split_ifs
      · simp [HashRing.removeNode, hne]
      · exact Iff.rfl

theorem Router.distinctIds_foldl {X : Crates} {r : Router} (h : r.ring.DistinctIds)
    (us : List RouterUpdate) : (us.foldl (Router.apply X) r).ring.DistinctIds := by
  induction us generalizing r with
  | nil => exact h
  | cons u us ih => exact ih (distinctIds_apply h u)

/-- Updates about other nodes leave a node alone, on the ring and in the
monitor. -/
theorem Router.foldl_apply_ne {X : Crates} {r : Router} {us : List RouterUpdate} {id : NodeId}
    (h : ∀ u ∈ us, u.subject ≠ id) :
    (∀ info : NodeInfo, info.id = id →
      (info ∈ (us.foldl (Router.apply X) r).ring.nodes ↔ info ∈ r.ring.nodes))
    ∧ (us.foldl (Router.apply X) r).health.nodes.lookup id = r.health.nodes.lookup id := by
  induction us generalizing r with
  | nil => exact ⟨fun _ _ => Iff.rfl, rfl⟩
  | cons u us ih =>
      have hu : u.subject ≠ id := h u List.mem_cons_self
      obtain ⟨hring, hhealth⟩ := @ih (r.apply X u) fun u' hu' => h u' (List.mem_cons_of_mem _ hu')
      constructor
      · intro info hinfo
        rw [List.foldl_cons, hring info hinfo]
        exact mem_nodes_apply_ne (by rw [hinfo]; exact hu)
      · rw [List.foldl_cons, hhealth, lookup_apply_ne hu]

/-! ## The last entry decides -/

/-- The status of the last well-formed entry for a node. -/
def lastReport (X : Crates) (id : NodeId) (members : List ProtoMemberEntry) :
    Option MemberStatus :=
  (history X id members).getLast?

section LastReport

variable {X : Crates} {r : Router} {ledger : NodeId → Ledger} {id : NodeId}
  {members : List ProtoMemberEntry} {status : MemberStatus}

/-- What the ring and the monitor say afterwards: what the last entry
makes of what was there before it. -/
theorem exchangeGossip_last (hk : r.health.Kept ledger)
    (hlast : lastReport X id members = some status) :
    ∃ (onRing : Bool) (l : Ledger),
      (exchangeGossip X r members).ring.containsNode id = onRingAfter onRing status
      ∧ (exchangeGossip X r members).health.isAlive id = decide (l.record status).Routable := by
  obtain ⟨earlier, hearlier⟩ := List.getLast?_eq_some_iff.mp hlast
  obtain ⟨hring, hkept⟩ := exchangeGossip_history (X := X) hk members
  have hshows := hkept.shows id
  refine ⟨earlier.foldl onRingAfter (r.ring.containsNode id),
    earlier.foldl Ledger.record (ledger id), ?_, ?_⟩
  · rw [hring, hearlier, List.foldl_append]
    rfl
  · rw [hshows.routable, hearlier, List.foldl_append]
    rfl

end LastReport

/-- **What a gossip response leaves.** Ring ids stay distinct. A node whose
last well-formed entry says Alive is on the ring and routable, one whose
last says Dead is neither, one whose last says Joining is not routable;
and a node without a well-formed entry is on the ring and in the monitor
as it was. -/
theorem exchangeGossip_postcondition (X : Crates) {r : Router} (hreach : r.health.Reachable)
    (hdistinct : r.ring.DistinctIds) (members : List ProtoMemberEntry) :
    let after := exchangeGossip X r members
    after.ring.DistinctIds
    ∧ (∀ id, lastReport X id members = some .alive →
        after.ring.containsNode id = true ∧ after.health.isAlive id = true)
    ∧ (∀ id, lastReport X id members = some .dead →
        after.ring.containsNode id = false ∧ after.health.isAlive id = false)
    ∧ (∀ id, lastReport X id members = some .joining → after.health.isAlive id = false)
    ∧ (∀ id, lastReport X id members = none →
        (∀ info : NodeInfo, info.id = id →
          (info ∈ after.ring.nodes ↔ info ∈ r.ring.nodes))
        ∧ after.health.nodes.lookup id = r.health.nodes.lookup id) := by
  intro after
  obtain ⟨ledger, hk⟩ := hreach.kept
  have hfold : after = (responseUpdates X members).foldl (Router.apply X) r :=
    exchangeGossip_eq_foldl X r members
  refine ⟨?_, fun id hlast => ?_, fun id hlast => ?_, fun id hlast => ?_, fun id hlast => ?_⟩
  · rw [hfold]
    exact Router.distinctIds_foldl hdistinct _
  · obtain ⟨onRing, l, hring, halive⟩ := exchangeGossip_last hk hlast
    exact ⟨hring, halive.trans (decide_eq_true l.routable_record_alive)⟩
  · obtain ⟨onRing, l, hring, halive⟩ := exchangeGossip_last hk hlast
    exact ⟨hring, halive.trans (decide_eq_false l.not_routable_record_dead)⟩
  · obtain ⟨onRing, l, -, halive⟩ := exchangeGossip_last hk hlast
    exact halive.trans (decide_eq_false l.not_routable_record_joining)
  · have hnone : history X id members = [] := List.getLast?_eq_none_iff.mp hlast
    rw [hfold]
    apply Router.foldl_apply_ne
    intro u hu hsubject
    apply subject_responseUpdates X hu
    rw [hsubject]
    exact hnone

/-- Node 1, Suspect after one failure, is reported Dead; then comes an
entry with an unknown status, and then Alive. -/
theorem exchangeGossip_postcondition_revived :
    ∃ after, after = exchangeGossip (.hyphenated fun _ => 0)
        ⟨.new, HealthMonitor.new.recordFailure ⟨1⟩⟩
        [reportOne .dead 1, { reportOne .dead 1 with status := 7 }, reportOne .alive 0]
      ∧ after.ring.containsNode ⟨1⟩ = true ∧ after.health.isAlive ⟨1⟩ = true := by
  have hlast : lastReport (.hyphenated fun _ => 0) ⟨1⟩
      [reportOne .dead 1, { reportOne .dead 1 with status := 7 }, reportOne .alive 0]
      = some .alive := by
    have hbad : observed (.hyphenated fun _ => 0) { reportOne .dead 1 with status := 7 }
        = none := by simp [observed, MemberStatus.ofProto]
    rw [lastReport, history_cons_of_observed (observed_reportOne _ _), if_pos rfl,
      history_cons_of_skipped hbad, history_cons_of_observed (observed_reportOne _ _), if_pos rfl]
    rfl
  have hpost := exchangeGossip_postcondition (.hyphenated fun _ => 0)
    (r := ⟨.new, HealthMonitor.new.recordFailure ⟨1⟩⟩) (.recordFailure ⟨1⟩ .new) List.nodup_nil
    [reportOne .dead 1, { reportOne .dead 1 with status := 7 }, reportOne .alive 0]
  obtain ⟨hring, halive⟩ := hpost.2.1 ⟨1⟩ hlast
  exact ⟨_, rfl, hring, halive⟩

end SelfHealingCache
