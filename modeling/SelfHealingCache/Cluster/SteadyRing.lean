import SelfHealingCache.Cluster.Handoff
import SelfHealingCache.Cluster.Suspicion
import SelfHealingCache.Router.GossipOrder

/-!
# The router and the members it has

The router has no timeouts of its own. It takes a node off its ring when
a gossip response calls the node Dead and never otherwise; a failed
heartbeat lowers the node's health and leaves the ring alone. So behind
every node the ring has lost stands a verdict of some node's sweep
(`loss_has_cause`).

A node started without seeds never says that it is Joining. While nobody
carries out a verdict against it and none of its heartbeats fails, all the
router hears of it is Alive, and the keys it owns go to it first
(`owner_is_primary`).
-/

namespace SelfHealingCache

/-! ## One update of the router -/

/-- Only a Dead entry leaves the client more to do than to add. -/
theorem adds_of_mem_memberUpdates {info : NodeInfo} {status : MemberStatus} {u : RouterUpdate}
    (h : ¬ status.accuses) (hu : u ∈ (memberUpdates info status).2) :
    ∃ added, u = .addNode added := by
  cases status with
  | alive => exact ⟨info, List.mem_singleton.mp hu⟩
  | joining => cases hu
  | suspect => cases hu
  | dead => exact absurd (.inr rfl) h

/-- An update that does not remove `x` keeps it on the ring. -/
theorem Router.containsNode_apply {X : Crates} {r : Router} {u : RouterUpdate} {x : NodeId}
    (hu : u ≠ .removeNode x) (hin : r.ring.containsNode x = true) :
    (r.apply X u).ring.containsNode x = true := by
  cases u with
  | markAlive id => exact hin
  | markJoining id => exact hin
  | recordFailure id => exact hin
  | addNode info =>
      rw [Router.containsNode_addNode]
      split_ifs
      · rfl
      · exact hin
  | removeNode id =>
      have hne : x ≠ id := fun heq => hu (by rw [heq])
      rw [Router.containsNode_removeNode, if_neg hne, hin]

/-- The entry of `x`, if it has one, says Alive. -/
def HealthMonitor.KnownAlive (h : HealthMonitor) (x : NodeId) : Prop :=
  ∀ entry, h.nodes.lookup x = some entry → entry.health = .alive

theorem HealthMonitor.KnownAlive.isAlive {h : HealthMonitor} {x : NodeId} (hk : h.KnownAlive x) :
    h.isAlive x = true := by
  cases hlook : h.nodes.lookup x with
  | none => rw [HealthMonitor.isAlive, hlook]
  | some entry =>
      rw [HealthMonitor.isAlive_of_lookup hlook, hk entry hlook]
      rfl

theorem HealthMonitor.KnownAlive.markAlive {h : HealthMonitor} {x : NodeId} (hk : h.KnownAlive x)
    (id : NodeId) : (h.markAlive id).KnownAlive x := by
  intro entry hentry
  rw [HealthMonitor.lookup_markAlive] at hentry
  split_ifs at hentry
  · cases hentry
    rfl
  · exact hk entry hentry

/-! ## The client and the checker -/

namespace RouterSys

variable {X : Crates} {monitored : List NodeId} {x : NodeId} {s t : RouterSys} {e : RouterEvent}

theorem told_start (X : Crates) (R : NodeInfo → MemberStatus → Prop) (r : Router) :
    (start r).Told X R where
  rest m hm := by cases hm
  current info hinfo := by cases hinfo

/-- All the client still has to do about `x` is to add it. -/
def OnlyAdds (x : NodeId) (s : RouterSys) : Prop :=
  ∀ u ∈ s.current, u.subject = x → ∃ info, u = .addNode info

theorem OnlyAdds.step (h : s.OnlyAdds x)
    (htold : s.Told X fun info status => info.id = x → ¬ status.accuses)
    (hstep : s.step X monitored e = some t) : t.OnlyAdds x := by
  obtain ⟨members, rfl, _, rfl⟩ | ⟨m, rest, rfl, _, hrest, rfl⟩ | ⟨u, us, rfl, hcurrent, rfl⟩
    | ⟨id, ok, rfl, rfl⟩ := step_cases hstep
  · exact h
  · rw [takeUp]
    cases hm : observed X m with
    | none => exact h
    | some seen =>
        obtain ⟨id, status⟩ := seen
        intro u hu hx
        rw [(subject_memberUpdates ⟨id, m.addr⟩ status).2 u hu] at hx
        exact adds_of_mem_memberUpdates (htold.rest m (by simp [hrest]) id status hm hx) hu
  · exact fun u' hu' => h u' (by simp [hcurrent, hu'])
  · exact h

/-- The ring keeps `x`. -/
theorem OnlyAdds.containsNode (h : s.OnlyAdds x) (hstep : s.step X monitored e = some t)
    (hin : s.router.ring.containsNode x = true) : t.router.ring.containsNode x = true := by
  obtain ⟨members, rfl, _, rfl⟩ | ⟨m, rest, rfl, _, _, rfl⟩ | ⟨u, us, rfl, hcurrent, rfl⟩
    | ⟨id, ok, rfl, rfl⟩ := step_cases hstep
  · exact hin
  · rw [ring_takeUp]
    exact hin
  · refine Router.containsNode_apply ?_ hin
    rintro rfl
    obtain ⟨info, hadd⟩ := h (.removeNode x) (by simp [hcurrent]) rfl
    cases hadd
  · exact hin

/-- So does the monitor keep it Alive, while nothing else is heard of it
and none of its heartbeats fails. -/
theorem OnlyAdds.knownAlive (h : s.OnlyAdds x)
    (htold : s.Told X fun info status => info.id = x → status = .alive)
    (hprobe : e ≠ .heartbeat x false) (hstep : s.step X monitored e = some t)
    (hk : s.router.health.KnownAlive x) : t.router.health.KnownAlive x := by
  obtain ⟨members, rfl, _, rfl⟩ | ⟨m, rest, rfl, _, hrest, rfl⟩ | ⟨u, us, rfl, hcurrent, rfl⟩
    | ⟨id, ok, rfl, rfl⟩ := step_cases hstep
  · exact hk
  · rw [takeUp]
    cases hm : observed X m with
    | none => exact hk
    | some seen =>
        obtain ⟨id, status⟩ := seen
        by_cases hid : id = x
        · obtain rfl := htold.rest m (by simp [hrest]) id status hm hid
          exact hk.markAlive id
        · intro entry hentry
          have hne : (memberUpdates ⟨id, m.addr⟩ status).1.subject ≠ x := by
            rw [(subject_memberUpdates ⟨id, m.addr⟩ status).1]
            exact hid
          exact hk entry ((Router.lookup_apply_ne hne).symm.trans hentry)
  · intro entry hentry
    by_cases hu : u.subject = x
    · obtain ⟨info, rfl⟩ := h u (by simp [hcurrent]) hu
      have hsame := Router.health_addNode X s.router info
      exact hk entry (by rw [← hsame]; exact hentry)
    · exact hk entry ((Router.lookup_apply_ne hu).symm.trans hentry)
  · cases ok with
    | true => exact hk.markAlive id
    | false =>
        have hne : x ≠ id := fun heq => hprobe (by rw [heq])
        intro entry hentry
        exact hk entry (by simpa [recordHeartbeat, hne] using hentry)

end RouterSys

namespace Cluster

variable {X : Crates} {monitored : List NodeId} {x : NodeId} {s t : Cluster} {e : ClusterEvent}

/-- What the router observes is what the messages say. -/
theorem View.observed {Q : NodeId → MemberEntry → Prop} (h : s.View X Q)
    {members : List ProtoMemberEntry} (hobs : s.observes (.respond members))
    {m : ProtoMemberEntry} (hm : m ∈ members) {id : NodeId} {status : MemberStatus}
    (hseen : observed X m = some (id, status)) :
    ∃ entry : MemberEntry, entry.status = status ∧ entry.incarnation = m.incarnation
      ∧ Q id entry := by
  obtain ⟨msg, hmsg, rfl⟩ := List.mem_map.mp hobs
  obtain ⟨entry, hid, hst, hinc, _, hQ⟩ := (h.net msg hmsg).member hm
  rw [SelfHealingCache.observed, hid, hst] at hseen
  cases hseen
  exact ⟨entry, rfl, hinc.symm, hQ⟩

/-! ## Behind every loss there is a verdict -/

/-- Nobody accuses `x`, and nothing the router still has to do would take
it off the ring. -/
structure Spared (X : Crates) (x : NodeId) (s : Cluster) : Prop where
  trusted : ∀ i, s.Trusted X x i
  told : s.router.Told X fun info status => info.id = x → ¬ status.accuses
  adds : s.router.OnlyAdds x

theorem spared_init (X : Crates) (x : NodeId) (r : Router) : (init r).Spared X x where
  trusted _ := ⟨view_init X _ r, fun id n hn => by cases hn⟩
  told := RouterSys.told_start X _ r
  adds u hu := by cases hu

theorem Spared.move (h : s.Spared X x) (hmove : Move X monitored s e t)
    (hnot : ¬ ∃ i, Condemning x i s e) : t.Spared X x := by
  have htrusted : ∀ i, t.Trusted X x i :=
    fun i => (h.trusted i).move hmove fun hcond => hnot ⟨i, hcond⟩
  cases hmove with
  | start now seeds hfree => exact ⟨htrusted, h.told, h.adds⟩
  | node hn hears hnode => exact ⟨htrusted, h.told, h.adds⟩
  | send now hn hlist => exact ⟨htrusted, h.told, h.adds⟩
  | router hobs hstep =>
      refine ⟨htrusted, h.told.step ?_ hstep, h.adds.step h.told hstep⟩
      rintro members rfl m hm id status hseen rfl
      obtain ⟨entry, rfl, hinc, htrust⟩ := (h.trusted m.incarnation).view.observed hobs hm hseen
      exact htrust rfl hinc

/-- A spared node stays on the ring. -/
theorem Spared.containsNode (h : s.Spared X x) (hmove : Move X monitored s e t)
    (hin : s.router.router.ring.containsNode x = true) :
    t.router.router.ring.containsNode x = true := by
  cases hmove with
  | start now seeds hfree => exact hin
  | node hn hears hnode => exact hin
  | send now hn hlist => exact hin
  | router hobs hstep => exact h.adds.containsNode hstep hin

/-- **Behind every loss there is a verdict.** If the router's ring held
`x` at some moment and does not later, then some node's sweep, by then,
had come to its Alive entry for `x` after listing `x` as silent. -/
theorem loss_has_cause (X : Crates) (monitored : List NodeId) (r : Router) (x : NodeId)
    {past es : List ClusterEvent} {s t : Cluster}
    (hpast : Trace.exec (step X monitored) (init r) past = some s)
    (hrun : Trace.exec (step X monitored) s es = some t)
    (hin : s.router.router.ring.containsNode x = true)
    (hout : t.router.router.ring.containsNode x = false) :
    ∃ pre e post u i, past ++ es = pre ++ e :: post
      ∧ Trace.exec (step X monitored) (init r) pre = some u ∧ Condemning x i u e := by
  by_cases hs : s.Spared X x
  · -- the verdict falls between the two moments
    have hlost : ¬ (t.Spared X x ∧ t.router.router.ring.containsNode x = true) := by
      rintro ⟨_, hstill⟩
      rw [hout] at hstill
      cases hstill
    obtain ⟨pre, e, post, u, rfl, hu, _, i, hcond⟩ := Trace.exists_blame
      (I := fun s => s.Spared X x ∧ s.router.router.ring.containsNode x = true)
      (C := fun s e => ∃ i, Condemning x i s e)
      (fun u e v hu hnot hstep => ⟨hu.1.move (move_of_step hstep) hnot,
        hu.1.containsNode (move_of_step hstep) hu.2⟩) ⟨hs, hin⟩ hrun hlost
    exact ⟨past ++ pre, e, post, u, i, by simp, Trace.exec_append.mpr ⟨s, hpast, hu⟩, hcond⟩
  · -- it fell before
    obtain ⟨pre, e, post, u, rfl, hu, _, i, hcond⟩ := Trace.exists_blame
      (C := fun s e => ∃ i, Condemning x i s e)
      (fun u e v hu hnot hstep => hu.move (move_of_step hstep) hnot) (spared_init X x r) hpast hs
    exact ⟨pre, e, post ++ es, u, i, by simp, hu, hcond⟩

/-- Node 2 hears nothing of node 1, its seed, until it holds it Dead, and
tells the router. -/
def condemnedRun : List ClusterEvent :=
  let seed : MemberEntry := ⟨⟨⟨1⟩, "a"⟩, .alive, 0, 0⟩
  let self : MemberEntry := ⟨⟨⟨2⟩, ""⟩, .joining, 0, 0⟩
  let listing : List MemberEntry := [{ seed with status := .dead }, self]
  [.start 0 ⟨2⟩ [seed.info], .node ⟨2⟩ (.gossip (.sweepBegin 4000000000 [seed, self])),
    .node ⟨2⟩ (.gossip .sweepNext), .node ⟨2⟩ (.gossip .sweepNext), .node ⟨2⟩ (.gossip .sweepNext),
    .node ⟨2⟩ (.gossip (.sweepBegin 6000000000 [{ seed with status := .suspect }, self])),
    .node ⟨2⟩ (.gossip .sweepNext), .send ⟨2⟩ 7000000000 listing,
    .router (.respond (buildGossipMessage ThreeNodes.crates 7000000000 ⟨2⟩ listing).members),
    .router .nextMember, .router .nextUpdate, .router .nextUpdate, .router .nextUpdate]

theorem loss_has_cause_condemnedRun :
    ∃ pre e post u i, condemnedRun = pre ++ e :: post
      ∧ Trace.exec (step ThreeNodes.crates []) (init ⟨ThreeNodes.ring, .new⟩) pre = some u
      ∧ Condemning ⟨1⟩ i u e := by
  obtain ⟨t, hrun, hout⟩ : ∃ t, Trace.exec (step ThreeNodes.crates [])
      (init ⟨ThreeNodes.ring, .new⟩) condemnedRun = some t
      ∧ t.router.router.ring.containsNode ⟨1⟩ = false := ⟨_, rfl, rfl⟩
  exact @loss_has_cause ThreeNodes.crates [] _ ⟨1⟩ [] condemnedRun _ t rfl hrun (by decide) hout

/-! ## A node nobody has anything to say against -/

/-- Everybody who mentions `x` calls it Alive, the router's monitor
included. -/
structure Praised (X : Crates) (x : NodeId) (s : Cluster) : Prop extends Spared X x s where
  standing : s.View X fun id entry => id = x → entry.status ≠ .joining
  own : ∀ n, s.nodes x = some n → n.table.localEntry.status = .alive
  heard : s.router.Told X fun info status => info.id = x → status = .alive
  health : s.router.router.health.KnownAlive x

theorem praised_init (X : Crates) {x : NodeId} {r : Router} (h : r.health.KnownAlive x) :
    (init r).Praised X x where
  toSpared := spared_init X x r
  standing := view_init X _ r
  own n hn := by cases hn
  heard := RouterSys.told_start X _ r
  health := h

/-- Neither a touch nor a verdict makes an entry Joining. -/
theorem standing_rule (x : NodeId) :
    WireRule fun id entry => id = x → entry.status ≠ .joining where
  touch _ _ _ h := h
  suspect _ _ _ _ _ := by simp
  dead _ _ _ _ _ := by simp
  wire _ _ h := h

/-- Started without seeds it is Alive, and it stays so. -/
theorem Praised.own_move (h : s.Praised X x) (hmove : Move X monitored s e t)
    (hstart : ∀ now seeds, e = .start now x seeds → seeds = []) :
    ∀ n, t.nodes x = some n → n.table.localEntry.status = .alive := by
  have hall : ∀ id n, t.nodes id = some n → id = x → n.table.localEntry.status = .alive := by
    have hold : ∀ id n, s.nodes id = some n → id = x → n.table.localEntry.status = .alive := by
      rintro id n hn rfl
      exact h.own n hn
    cases hmove with
    | @start now id seeds hfree =>
        refine forall_nodes_update hold ?_
        rintro rfl
        obtain rfl := hstart now seeds rfl
        exact (MembershipTable.localEntry_new now id []).2
    | node hn hears hnode =>
        exact forall_nodes_update hold fun hid => hnode.advances.stays_alive (hold _ _ hn hid)
    | send now hn hlist => exact hold
    | router hobs hstep => exact hold
  exact fun n hn => hall x n hn rfl

theorem Praised.move (h : s.Praised X x) (hmove : Move X monitored s e t)
    (hnot : ¬ ∃ i, Condemning x i s e) (hstart : ∀ now seeds, e = .start now x seeds → seeds = [])
    (hprobe : e ≠ .router (.heartbeat x false)) : t.Praised X x := by
  have hstanding : t.View X fun id entry => id = x → entry.status ≠ .joining := by
    apply View.move (standing_rule x) h.standing hmove
    · intro now id seeds _ j _ entry _ hst _
      rw [hst]
      decide
    · rintro id n hn rfl
      rw [h.own n hn]
      decide
  refine ⟨h.toSpared.move hmove hnot, hstanding, h.own_move hmove hstart, ?_, ?_⟩
  · cases hmove with
    | start now seeds hfree => exact h.heard
    | node hn hears hnode => exact h.heard
    | send now hn hlist => exact h.heard
    | router hobs hstep =>
        refine h.heard.step ?_ hstep
        rintro members rfl m hm id status hseen rfl
        -- what the router is told is an entry of some table: not accused, not Joining
        obtain ⟨entry, hst, hinc, htrust⟩ :=
          (h.trusted m.incarnation).view.observed hobs hm hseen
        obtain ⟨entry', hst', _, hstands⟩ := h.standing.observed hobs hm hseen
        have hnotaccused := htrust rfl hinc
        have hnotjoining := hstands rfl
        rw [hst] at hnotaccused
        rw [hst'] at hnotjoining
        cases status with
        | alive => rfl
        | joining => exact absurd rfl hnotjoining
        | suspect => exact absurd (.inl rfl) hnotaccused
        | dead => exact absurd (.inr rfl) hnotaccused
  · cases hmove with
    | start now seeds hfree => exact h.health
    | node hn hears hnode => exact h.health
    | send now hn hlist => exact h.health
    | router hobs hstep =>
        exact h.adds.knownAlive h.heard (fun heq => hprobe (by rw [heq])) hstep h.health

/-- **The owner is the primary.** Nobody carries out a verdict against
`x`, it was not started with seeds, no heartbeat of it has failed, and the
router knew nothing against it at first. Then it has not lost its place on
the ring, and every key it owns goes to it first. -/
theorem owner_is_primary (X : Crates) (monitored : List NodeId) (r : Router) (x : NodeId)
    {es : List ClusterEvent} {s : Cluster}
    (hrun : Trace.exec (step X monitored) (init r) es = some s)
    (hspared : Trace.Along (step X monitored) (fun u e => ∀ i, ¬ Condemning x i u e) (init r) es)
    (hstart : ∀ now seeds, .start now x seeds ∈ es → seeds = [])
    (hprobe : .router (.heartbeat x false) ∉ es) (hknown : r.health.KnownAlive x) :
    (r.ring.containsNode x = true → s.router.router.ring.containsNode x = true)
    ∧ ∀ cfg key n, 1 ≤ cfg.replicationFactor →
      s.router.router.ring.getNode X key = some n → n.id = x →
      (alivePreferenceList X cfg s.router.router.ring s.router.router.health key).head?
        = some n := by
  have hevents : ∀ e ∈ es, (∀ now seeds, e = .start now x seeds → seeds = [])
      ∧ e ≠ .router (.heartbeat x false) := by
    intro e he
    refine ⟨fun now seeds heq => hstart now seeds (by rw [← heq]; exact he), fun heq => ?_⟩
    rw [heq] at he
    exact hprobe he
  have hboth : s.Praised X x
      ∧ (r.ring.containsNode x = true → s.router.router.ring.containsNode x = true) := by
    refine Trace.exec_invariant (I := fun s => s.Praised X x
      ∧ (r.ring.containsNode x = true → s.router.router.ring.containsNode x = true)) ?_
      ⟨praised_init X hknown, id⟩ (hspared.and (Trace.along_of_forall hevents _)) hrun
    rintro u e v ⟨hu, hring⟩ ⟨hnot, hseeds, hprobes⟩ hstep
    have hmove := move_of_step hstep
    exact ⟨hu.move hmove (not_exists.mpr hnot) hseeds hprobes,
      fun hr => hu.toSpared.containsNode hmove (hring hr)⟩
  refine ⟨hboth.2, ?_⟩
  rintro cfg key n hr hn rfl
  exact head?_alivePreferenceList hr hn hboth.1.health.isAlive

/-- Node 1 starts without seeds, tells of itself and answers a heartbeat. -/
def praisedRun : List ClusterEvent :=
  let self : MemberEntry := ⟨⟨⟨1⟩, ""⟩, .alive, 0, 0⟩
  [.start 0 ⟨1⟩ [], .send ⟨1⟩ 5 [self],
    .router (.respond (buildGossipMessage ThreeNodes.crates 5 ⟨1⟩ [self]).members),
    .router .nextMember, .router .nextUpdate, .router (.heartbeat ⟨1⟩ true)]

theorem owner_is_primary_praisedRun :
    ∃ s, Trace.exec (step ThreeNodes.crates [⟨1⟩]) (init ⟨ThreeNodes.ring, .new⟩) praisedRun
        = some s
      ∧ (alivePreferenceList ThreeNodes.crates ⟨2, 1⟩ s.router.router.ring
        s.router.router.health "").head? = some ThreeNodes.a := by
  obtain ⟨s, hrun, howner⟩ : ∃ s, Trace.exec (step ThreeNodes.crates [⟨1⟩])
      (init ⟨ThreeNodes.ring, .new⟩) praisedRun = some s
      ∧ s.router.router.ring.getNode ThreeNodes.crates "" = some ThreeNodes.a := ⟨_, rfl, rfl⟩
  have hspared : Trace.Along (step ThreeNodes.crates [⟨1⟩]) (fun u e => ∀ i, ¬ Condemning ⟨1⟩ i u e)
      (init ⟨ThreeNodes.ring, .new⟩) praisedRun := by
    have hnosweep : ∀ e ∈ praisedRun, ∀ w, e ≠ .node w (.gossip .sweepNext) := by
      simp [praisedRun]
    refine (Trace.along_of_forall hnosweep _).mono ?_
    rintro u e he i ⟨w, _, _, _, heq, _⟩
    exact he w heq
  refine ⟨s, hrun, ?_⟩
  refine (owner_is_primary ThreeNodes.crates [⟨1⟩] _ ⟨1⟩ hrun hspared ?_ ?_ ?_).2 ⟨2, 1⟩ ""
    ThreeNodes.a (by decide) howner rfl
  · simp [praisedRun]
  · simp [praisedRun]
  · intro entry hentry
    cases hentry

end Cluster

end SelfHealingCache
