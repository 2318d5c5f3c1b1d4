import SelfHealingCache.Cluster.System
import SelfHealingCache.Node.TimeoutSweep

/-!
# Every suspicion has a cause

Accusations travel: a node repeats the Suspect and Dead entries of its
table in every message it builds, and its peers merge them. But they are
MADE in one place only, where a timeout sweep carries out its verdict on
an entry that is Alive. So a run after which anybody, or any message,
calls `x` Suspect or Dead at incarnation `i` contains the sweep that
first did: `exists_blame` finds its step, and the snapshot behind it is
found by looking back to where that sweep began.

In a run without such a sweep nothing is ever refuted either, and what a
node says about itself depends only on whether it was given seeds and
whether its rebalance has finished.
-/

namespace SelfHealingCache

/-! ## One verdict -/

@[simp] theorem judge_incarnation (now : Instant) (member e : MemberEntry) :
    (judge now member e).incarnation = e.incarnation := by
  rw [judge]
  split
  · split_ifs <;> rfl
  · rfl

/-- A verdict needs a snapshot entry that is silent and not yet Dead. -/
theorem silent_of_verdict {now : Instant} {member : MemberEntry} {status : MemberStatus}
    (h : verdict now member = some status) :
    member.status ≠ .dead ∧ suspectTimeout < now - member.lastSeen := by
  have hdead : suspectTimeout < deadTimeout := by decide
  rw [verdict] at h
  cases hst : member.status with
  | dead => simp [hst] at h
  | suspect =>
      simp only [hst] at h
      split_ifs at h with hlate
      exact ⟨by simp, hdead.trans hlate⟩
  | alive =>
      simp only [hst] at h
      split_ifs at h with hlate
      exact ⟨by simp, hlate⟩
  | joining =>
      simp only [hst] at h
      split_ifs at h with hlate
      exact ⟨by simp, hlate⟩

/-- Only an Alive entry is newly accused. -/
theorem alive_of_judge_accuses {now : Instant} {member e : MemberEntry}
    (h : (judge now member e).status.accuses) (he : ¬ e.status.accuses) :
    e.status = .alive ∧ member.status ≠ .dead ∧ suspectTimeout < now - member.lastSeen := by
  rw [judge] at h
  cases hverdict : verdict now member with
  | none =>
      rw [hverdict] at h
      exact absurd h he
  | some status =>
      simp only [hverdict] at h
      split_ifs at h with hheeds
      · refine ⟨?_, silent_of_verdict hverdict⟩
        cases hst : e.status with
        | alive => rfl
        | suspect => exact absurd (.inl hst) he
        | dead => exact absurd (.inr hst) he
        | joining =>
            rw [hst] at hheeds
            cases status <;> simp [heeds] at hheeds
      · exact absurd h he

/-! ## One process -/

/-- A property of the other entries that a touch respects is kept by a
gossip step when a message brings it along and the verdict that is
carried out keeps it. -/
theorem MembershipTable.Others.gossip_step {X : Crates} {Q : NodeId → MemberEntry → Prop}
    {g g' : GossipNode} {e : GossipEvent} (h : g.table.Others Q) (hstep : g.step X e = some g')
    (htouch : ∀ id entry now, Q id entry → Q id { entry with lastSeen := now })
    (hmsg : ∀ now fresh msg, e = .receive now fresh msg →
      ∀ r ∈ decodeMembers X fresh msg.members, Q r.nodeId (r.toMember now))
    (hjudge : ∀ now member rest entry, e = .sweepNext → g.sweep = some (now, member :: rest) →
      member.info.id ≠ g.table.localId → g.table.members.lookup member.info.id = some entry →
      Q member.info.id entry → Q member.info.id (judge now member entry)) :
    g'.table.Others Q := by
  cases e with
  | receive now fresh msg =>
      cases hstep
      exact h.merge fun r hr _ => hmsg now fresh msg rfl r hr
  | touch now id =>
      cases hstep
      intro j entry hj hlook
      rw [lookup_touch] at hlook
      split_ifs at hlook
      · obtain ⟨entry', he', rfl⟩ := Option.map_eq_some_iff.mp hlook
        exact htouch j entry' now (h j entry' hj he')
      · exact h j entry hj hlook
  | sweepBegin now snapshot =>
      rw [GossipNode.step] at hstep
      split_ifs at hstep
      cases hstep
      exact h
  | sweepNext =>
      rw [GossipNode.step] at hstep
      split at hstep
      · rename_i now member rest hsweep
        cases hstep
        intro j entry hj hlook
        rw [localId_sweepMember] at hj
        rw [lookup_sweepMember] at hlook
        split_ifs at hlook with hcond
        · obtain ⟨entry', he', rfl⟩ := Option.map_eq_some_iff.mp hlook
          obtain ⟨rfl, _⟩ := hcond
          exact hjudge now member rest entry' rfl hsweep hj he' (h _ entry' hj he')
        · exact h j entry hj hlook
      · cases hstep
        exact h
      · cases hstep

namespace NodeSys.NodeMove

variable {X : Crates} {n n' : NodeSys} {e : NodeEvent}

theorem advances (h : NodeMove X n e n') : Advances n.table n'.table := by
  rcases h.table_cases with heq | ⟨ge, _, hg⟩ | ⟨_, heq⟩
  · rw [heq]
    exact .refl _
  · exact advances_step (c := .gossip ge) hg
  · rw [heq]
    exact MembershipTable.advances_markSelfAlive _

/-- What a step does to the sweep. -/
theorem sweep_cases (h : NodeMove X n e n') :
    n'.gossip.sweep = n.gossip.sweep
    ∨ (∃ now snapshot, e = .gossip (.sweepBegin now snapshot) ∧ Lists n.table snapshot
      ∧ n'.gossip.sweep = some (now, snapshot))
    ∨ (∃ now member rest, e = .gossip .sweepNext ∧ n.gossip.sweep = some (now, member :: rest)
      ∧ n'.gossip.sweep = some (now, rest))
    ∨ n'.gossip.sweep = none := by
  cases h with
  | @gossip ge g hg =>
      cases ge with
      | receive now fresh msg =>
          cases hg
          exact .inl rfl
      | touch now id =>
          cases hg
          exact .inl rfl
      | sweepBegin now snapshot =>
          rw [GossipNode.step] at hg
          split_ifs at hg with hbegin
          cases hg
          exact .inr (.inl ⟨now, snapshot, rfl, hbegin.2, rfl⟩)
      | sweepNext =>
          rw [GossipNode.step] at hg
          split at hg
          · rename_i now member rest hsweep
            cases hg
            exact .inr (.inr (.inl ⟨now, member, rest, rfl, hsweep, rfl⟩))
          · cases hg
            exact .inr (.inr (.inr rfl))
          · cases hg
  | purge now => exact .inl rfl
  | call req hfree => exact .inl rfl
  | advance htask hmove => exact .inl rfl
  | rebalance hre => cases hre <;> exact .inl rfl

end NodeSys.NodeMove

namespace Cluster

variable {X : Crates} {monitored : List NodeId} {r : Router}

/-! ## Who accuses whom -/

/-- Somebody's table, or some message, calls `x` Suspect or Dead at
incarnation `i`. -/
def Accused (X : Crates) (x : NodeId) (i : UInt64) (s : Cluster) : Prop :=
  (∃ id n entry, s.nodes id = some n ∧ n.table.members.lookup x = some entry
    ∧ entry.incarnation = i ∧ entry.status.accuses)
  ∨ ∃ msg ∈ s.net, ∃ m ∈ msg.members, X.parse m.nodeId = some x ∧ m.incarnation = i
    ∧ ∃ status, MemberStatus.ofProto m.status = some status ∧ status.accuses

/-- An entry about `x` at incarnation `i` does not accuse it. -/
def TrustsAt (x : NodeId) (i : UInt64) (id : NodeId) (e : MemberEntry) : Prop :=
  id = x → e.incarnation = i → ¬ e.status.accuses

/-- The process is about to carry out a verdict on its Alive entry for
`x` at incarnation `i`, having listed `x` as `member` when it began the
sweep at `now`. -/
structure Condemns (x : NodeId) (i : UInt64) (now : Instant) (member : MemberEntry)
    (n : NodeSys) : Prop where
  other : x ≠ n.table.localId
  sweep : ∃ rest, n.gossip.sweep = some (now, member :: rest)
  listed : member.info.id = x
  silent : suspectTimeout < now - member.lastSeen
  standing : member.status ≠ .dead
  entry : ∃ e, n.table.members.lookup x = some e ∧ e.status = .alive ∧ e.incarnation = i

/-- The step carries out such a verdict. -/
def Condemning (x : NodeId) (i : UInt64) (s : Cluster) (e : ClusterEvent) : Prop :=
  ∃ w n now member, e = .node w (.gossip .sweepNext) ∧ s.nodes w = some n
    ∧ Condemns x i now member n

/-- No node accuses itself. -/
def SelfTrusting (s : Cluster) : Prop :=
  ∀ id n, s.nodes id = some n → ¬ n.table.localEntry.status.accuses

theorem SelfTrusting.move {s t : Cluster} {e : ClusterEvent} (h : s.SelfTrusting)
    (hmove : Move X monitored s e t) : t.SelfTrusting := by
  cases hmove with
  | start now seeds hfree =>
      exact forall_nodes_update h (MembershipTable.not_accuses_new now _ seeds)
  | node hn hears hnode => exact forall_nodes_update h (hnode.advances.not_accuses (h _ _ hn))
  | send now hn hlist => exact h
  | router hobs hstep => exact h

/-- The invariant: nobody accuses `x` at incarnation `i`. -/
structure Trusted (X : Crates) (x : NodeId) (i : UInt64) (s : Cluster) : Prop where
  view : s.View X (TrustsAt x i)
  own : s.SelfTrusting

theorem Trusted.move {x : NodeId} {i : UInt64} {s t : Cluster} {e : ClusterEvent}
    (h : s.Trusted X x i) (hmove : Move X monitored s e t) (hnot : ¬ Condemning x i s e) :
    t.Trusted X x i := by
  refine ⟨h.view.move_of hmove (fun _ _ hQ => hQ) ?_ ?_ ?_, h.own.move hmove⟩
  · intro now id seeds _ j _ entry _ hst _ _
    rw [hst]
    decide
  · intro id n hn _ _
    exact h.own id n hn
  · intro id ne n n' he hn hnode hmsg
    rcases hnode.table_cases with heq | ⟨ge, rfl, hg⟩ | ⟨_, heq⟩
    · rw [heq]
      exact h.view.others id n hn
    · refine (h.view.others id n hn).gossip_step hg (fun _ _ _ hQ => hQ) ?_ ?_
      · intro now fresh msg hge
        exact hmsg now fresh msg (by rw [hge])
      · intro now member rest entry hge hsweep hlocal hlook htrust hx hinc hacc
        rw [judge_incarnation] at hinc
        obtain ⟨halive, hdead, hsilent⟩ := alive_of_judge_accuses hacc (htrust hx hinc)
        rw [hx] at hlocal hlook
        exact hnot ⟨id, n, now, member, by rw [he, hge], hn,
          ⟨hlocal, ⟨rest, hsweep⟩, hx, hsilent, hdead, entry, hlook, halive, hinc⟩⟩
    · rw [heq]
      exact (h.view.others id n hn).markSelfAlive

theorem Trusted.not_accused {x : NodeId} {i : UInt64} {s : Cluster} (h : s.Trusted X x i) :
    ¬ s.Accused X x i := by
  rintro (⟨id, n, entry, hn, hlook, hinc, hacc⟩ | ⟨msg, hmsg, m, hm, hid, hinc, status, hst, hacc⟩)
  · by_cases hself : x = n.table.localId
    · rw [hself] at hlook
      rw [← MembershipTable.localEntry_eq hlook] at hacc
      exact h.own id n hn hacc
    · exact h.view.others id n hn x entry hself hlook rfl hinc hacc
  · obtain ⟨entry, hid', hst', hinc', _, htrust⟩ := (h.view.net msg hmsg).member hm
    rw [hid] at hid'
    rw [hst] at hst'
    cases hid'
    cases hst'
    exact htrust rfl (hinc'.symm.trans hinc) hacc

/-! ## Where the sweep began -/

/-- The sweep process `n` of node `w` is in began, during `past`, with a
listing of its table, no other sweep of `w` has begun since, and what is
left of it is part of that listing. -/
def SweepListed (X : Crates) (monitored : List NodeId) (r : Router) (past : List ClusterEvent)
    (w : NodeId) (n : NodeSys) : Prop :=
  ∀ now rest, n.gossip.sweep = some (now, rest) →
    ∃ pre snapshot mid u m, past = pre ++ .node w (.gossip (.sweepBegin now snapshot)) :: mid
      ∧ (∀ t l, .node w (.gossip (.sweepBegin t l)) ∉ mid)
      ∧ Trace.exec (step X monitored) (init r) pre = some u ∧ u.nodes w = some m
      ∧ Lists m.table snapshot ∧ rest ⊆ snapshot

/-- A node begins one sweep at a time. -/
theorem idle_of_sweepBegin {s t : Cluster} {w : NodeId} {n : NodeSys} {now : Instant}
    {snapshot : List MemberEntry} (hn : s.nodes w = some n)
    (hstep : s.step X monitored (.node w (.gossip (.sweepBegin now snapshot))) = some t) :
    n.gossip.sweep = none := by
  cases move_of_step hstep with
  | @node _ _ m n' hm hears hnode =>
      obtain rfl : n = m := Option.some.inj (hn.symm.trans hm)
      cases hnode with
      | gossip hg =>
          rw [GossipNode.step] at hg
          split_ifs at hg with hbegin
          exact Option.isNone_iff_eq_none.mp hbegin.1

section SweepListed

variable {past : List ClusterEvent} {w : NodeId} {n n' : NodeSys}

/-- Later events leave the past as it was, and a sweep only shrinks. -/
theorem SweepListed.later (h : SweepListed X monitored r past w n) (e : ClusterEvent)
    (hidle : ∀ t l, e = .node w (.gossip (.sweepBegin t l)) → n.gossip.sweep = none)
    (hsub : ∀ now rest, n'.gossip.sweep = some (now, rest) →
      ∃ rest', n.gossip.sweep = some (now, rest') ∧ rest ⊆ rest') :
    SweepListed X monitored r (past ++ [e]) w n' := by
  intro now rest hsweep
  obtain ⟨rest', hbefore, hrest⟩ := hsub now rest hsweep
  obtain ⟨pre, snapshot, mid, u, m, rfl, honly, hu, hm, hlists, hsnap⟩ := h now rest' hbefore
  refine ⟨pre, snapshot, mid ++ [e], u, m, by simp, fun t l hmem => ?_, hu, hm, hlists,
    List.Subset.trans hrest hsnap⟩
  rcases List.mem_append.mp hmem with hmid | hlast
  · exact honly t l hmid
  · rw [hidle t l (List.mem_singleton.mp hlast).symm] at hbefore
    cases hbefore

theorem SweepListed.nodeMove {s : Cluster} {e : NodeEvent}
    (h : SweepListed X monitored r past w n)
    (hpast : Trace.exec (step X monitored) (init r) past = some s) (hn : s.nodes w = some n)
    (hidle : ∀ t l, e = .gossip (.sweepBegin t l) → n.gossip.sweep = none)
    (hmove : NodeSys.NodeMove X n e n') :
    SweepListed X monitored r (past ++ [.node w e]) w n' := by
  have hidle' : ∀ t l, ClusterEvent.node w e = .node w (.gossip (.sweepBegin t l)) →
      n.gossip.sweep = none := by
    intro t l he
    cases he
    exact hidle t l rfl
  rcases hmove.sweep_cases with hsame | ⟨now', snapshot, rfl, hlists, hbegin⟩
    | ⟨now', member, rest', rfl, hbefore, hafter⟩ | hnone
  · apply h.later _ hidle'
    intro now rest hsweep
    exact ⟨rest, hsame ▸ hsweep, fun _ hmem => hmem⟩
  · intro now rest hsweep
    rw [hbegin] at hsweep
    cases hsweep
    exact ⟨past, snapshot, [], s, n, rfl, by simp, hpast, hn, hlists, fun _ hmem => hmem⟩
  · apply h.later _ hidle'
    intro now rest hsweep
    rw [hafter] at hsweep
    cases hsweep
    exact ⟨member :: rest', hbefore, fun _ hmem => List.mem_cons_of_mem _ hmem⟩
  · intro now rest hsweep
    rw [hnone] at hsweep
    cases hsweep

end SweepListed

theorem sweepListed_exec {past : List ClusterEvent} {s : Cluster}
    (hrun : Trace.exec (step X monitored) (init r) past = some s) :
    ∀ w n, s.nodes w = some n → SweepListed X monitored r past w n := by
  have hboth := Trace.exec_history (C := fun _ _ => True)
    (I := fun past s => Trace.exec (step X monitored) (init r) past = some s
      ∧ ∀ w n, s.nodes w = some n → SweepListed X monitored r past w n)
    ?_ [] ⟨rfl, fun w n hn => by cases hn⟩ (Trace.along_of_forall (fun _ _ => trivial) _) hrun
  · exact hboth.2
  · intro past s e t ⟨hpast, hs⟩ _ hstep
    refine ⟨Trace.exec_append.mpr ⟨s, hpast, Trace.exec_cons.mpr ⟨t, hstep, rfl⟩⟩, ?_⟩
    have hidle : ∀ w n, s.nodes w = some n → ∀ t l,
        e = .node w (.gossip (.sweepBegin t l)) → n.gossip.sweep = none := by
      rintro w n hn t l rfl
      exact idle_of_sweepBegin hn hstep
    have hold : ∀ w n, s.nodes w = some n → SweepListed X monitored r (past ++ [e]) w n := by
      intro w n hn
      apply (hs w n hn).later e (hidle w n hn)
      exact fun _ rest hsweep => ⟨rest, hsweep, fun _ hmem => hmem⟩
    cases move_of_step hstep with
    | start now seeds hfree =>
        exact forall_nodes_update hold fun now rest hsweep => by cases hsweep
    | @node id ne n n' hn hears hnode =>
        refine forall_nodes_update hold ((hs id n hn).nodeMove hpast hn (fun t l he => ?_) hnode)
        exact hidle id n hn t l (by rw [he])
    | send now hn hlist => exact hold
    | router hobs hstep => exact hold

/-! ## The cause -/

/-- **Every suspicion has a cause.** If after a run some table or some
message calls `x` Suspect or Dead at incarnation `i`, then some node
other than `x` itself began a sweep during the run at a moment when it
had not refreshed its entry for `x` for more than `SUSPECT_TIMEOUT`, and
that same sweep (no other of the node began in between) later came to `x`
while the node held it Alive at that same incarnation. -/
theorem suspicion_has_cause (X : Crates) (monitored : List NodeId) (r : Router) (x : NodeId)
    (i : UInt64) {es : List ClusterEvent} {s : Cluster}
    (hrun : Trace.exec (step X monitored) (init r) es = some s) (h : s.Accused X x i) :
    ∃ pre w now snapshot mid post u n member rest u' n' e,
      es = pre ++ .node w (.gossip (.sweepBegin now snapshot)) :: mid
        ++ .node w (.gossip .sweepNext) :: post
      ∧ w ≠ x
      ∧ Trace.exec (step X monitored) (init r) pre = some u ∧ u.nodes w = some n
      ∧ n.table.members.lookup x = some member ∧ member ∈ snapshot
      ∧ member.status ≠ .dead ∧ suspectTimeout < now - member.lastSeen
      ∧ (∀ t l, .node w (.gossip (.sweepBegin t l)) ∉ mid)
      ∧ Trace.exec (step X monitored) (init r)
          (pre ++ .node w (.gossip (.sweepBegin now snapshot)) :: mid) = some u'
      ∧ u'.nodes w = some n' ∧ n'.gossip.sweep = some (now, member :: rest)
      ∧ member.info.id = x ∧ n'.table.members.lookup x = some e
      ∧ e.status = .alive ∧ e.incarnation = i := by
  have hstart : (init r).Trusted X x i := ⟨view_init X _ r, fun id n hn => by cases hn⟩
  obtain ⟨past, _, post, u', rfl, hpast, htrusted, w, n', now, member, rfl, hn', hcond⟩ :=
    Trace.exists_blame (fun u e t hu hnot hstep => hu.move (move_of_step hstep) hnot) hstart hrun
      fun htrusted => htrusted.not_accused h
  obtain ⟨rest, hsweep⟩ := hcond.sweep
  obtain ⟨pre, snapshot, mid, u, n, rfl, honly, hu, hn, hlists, hsub⟩ :=
    sweepListed_exec hpast w n' hn' now _ hsweep
  obtain ⟨e, he, halive, hinc⟩ := hcond.entry
  have hother : w ≠ x := by
    rw [← htrusted.view.localIds w n' hn']
    exact hcond.other.symm
  have hmember : n.table.members.lookup x = some member := by
    rw [← hcond.listed]
    exact hlists.mem.mp (hsub List.mem_cons_self)
  exact ⟨pre, w, now, snapshot, mid, post, u, n, member, rest, u', n', e, rfl, hother, hu, hn,
    hmember, hsub List.mem_cons_self, hcond.standing, hcond.silent, honly, hpast, hn', hsweep,
    hcond.listed, he, halive, hinc⟩

/-- Node 2 starts with node 1 as its seed and hears nothing for four
seconds. -/
def silentRun : List ClusterEvent :=
  let seed : MemberEntry := ⟨⟨⟨1⟩, "a"⟩, .alive, 0, 0⟩
  let self : MemberEntry := ⟨⟨⟨2⟩, ""⟩, .joining, 0, 0⟩
  [.start 0 ⟨2⟩ [seed.info], .node ⟨2⟩ (.gossip (.sweepBegin 4000000000 [seed, self])),
    .node ⟨2⟩ (.gossip .sweepNext)]

theorem suspicion_has_cause_silentRun :
    ∃ pre w now snapshot mid post, silentRun
        = pre ++ .node w (.gossip (.sweepBegin now snapshot)) :: mid
          ++ .node w (.gossip .sweepNext) :: post ∧ w ≠ ⟨1⟩
      ∧ ∃ member ∈ snapshot, member.info.id = ⟨1⟩ ∧ suspectTimeout < now - member.lastSeen := by
  obtain ⟨s, hrun, haccused⟩ : ∃ s,
      Trace.exec (step (.hyphenated fun _ => 0) []) (init ⟨.new, .new⟩) silentRun = some s
        ∧ s.Accused (.hyphenated fun _ => 0) ⟨1⟩ 0 :=
    ⟨_, rfl, .inl ⟨⟨2⟩, _, _, rfl, rfl, rfl, .inl rfl⟩⟩
  obtain ⟨pre, w, now, snapshot, mid, post, _, _, member, _, _, _, _, hes, hother, _, _, _, hlisted,
    _, hsilent, _, _, _, _, hid, _⟩ := suspicion_has_cause _ [] _ ⟨1⟩ 0 hrun haccused
  exact ⟨pre, w, now, snapshot, mid, post, hes, hother, member, hlisted, hid, hsilent⟩

/-! ## Runs without a verdict -/

/-- The step is none of a sweep that comes to a member it found silent. -/
def Timely (s : Cluster) (e : ClusterEvent) : Prop :=
  ∀ w n now member rest, e = .node w (.gossip .sweepNext) → s.nodes w = some n →
    n.gossip.sweep = some (now, member :: rest) → member.info.id ≠ w →
    now - member.lastSeen ≤ suspectTimeout

/-- What node `id` says of itself, from how it was started and whether
its rebalance has finished. -/
inductive OwnVersion (past : List ClusterEvent) (id : NodeId) (n : NodeSys) : Prop where
  | standalone (now : Instant) (hstart : .start now id [] ∈ past) (hphase : n.phase = .done)
      (hown : n.table.localEntry.version = toLex (0, .alive))
  | joining (now : Instant) {seeds : List NodeInfo} (hseeds : seeds ≠ [])
      (hstart : .start now id seeds ∈ past) (hphase : n.phase ≠ .done)
      (hnot : .node id (.rebalance .markAlive) ∉ past)
      (hown : n.table.localEntry.version = toLex (0, .joining))
  | joined (now : Instant) {seeds : List NodeInfo} (hseeds : seeds ≠ [])
      (hstart : .start now id seeds ∈ past) (hphase : n.phase = .done)
      (hdone : .node id (.rebalance .markAlive) ∈ past)
      (hown : n.table.localEntry.version = toLex (1, .alive))

end Cluster

/-- Only its last step brings the rebalancer to its end. -/
theorem NodeSys.NodeMove.phase_cases {X : Crates} {n n' : NodeSys} {e : NodeEvent}
    (h : NodeMove X n e n') :
    (e ≠ .rebalance .markAlive ∧ (n'.phase = .done ↔ n.phase = .done))
    ∨ (e = .rebalance .markAlive ∧ n.phase = .marking ∧ n'.phase = .done
      ∧ n'.table = n.table.markSelfAlive) := by
  cases h with
  | gossip hg => exact .inl ⟨by simp, Iff.rfl⟩
  | purge now => exact .inl ⟨by simp, Iff.rfl⟩
  | call req hfree => exact .inl ⟨by simp, Iff.rfl⟩
  | advance htask hmove => exact .inl ⟨by simp, Iff.rfl⟩
  | rebalance hre =>
      cases hre with
      | markAlive hphase => exact .inr ⟨rfl, hphase, rfl, rfl⟩
      | wait hphase => exact .inl ⟨by simp, Iff.rfl⟩
      | converge hphase _ => exact .inl ⟨by simp, by simp [hphase]⟩
      | buildRing hphase _ => exact .inl ⟨by simp, by simp [hphase]⟩
      | chunk hphase _ => exact .inl ⟨by simp, by simp [hphase]⟩
      | nextPeer hphase => exact .inl ⟨by simp, by simp [hphase]⟩
      | count hphase => exact .inl ⟨by simp, by simp [hphase]⟩
      | beginPass hphase _ => exact .inl ⟨by simp, by simp [hphase]⟩
      | skipPass hphase => exact .inl ⟨by simp, by simp [hphase]⟩
      | visit hphase _ _ => exact .inl ⟨by simp, by simp [hphase]⟩
      | endPass hphase _ => exact .inl ⟨by simp, by simp [hphase]⟩

/-- Without an accusation on the wire only the rebalancer changes what a
process says of itself. -/
theorem NodeSys.NodeMove.version_localEntry {X : Crates} {n n' : NodeSys} {e : NodeEvent}
    (h : NodeMove X n e n') (he : e ≠ .rebalance .markAlive)
    (hquiet : ∀ now fresh msg, e = .gossip (.receive now fresh msg) →
      ∀ r ∈ decodeMembers X fresh msg.members, ¬ r.accuses) :
    n'.table.localEntry.version = n.table.localEntry.version := by
  rcases h.table_cases with heq | ⟨ge, rfl, hg⟩ | ⟨hmark, _⟩
  · rw [heq]
  · rcases GossipNode.localVersion_step hg with hsame | ⟨now, fresh, msg, rfl, hmerge⟩
    · exact hsame
    · have hmerged : n'.table = n.table.merge now (decodeMembers X fresh msg.members) := hmerge
      rw [hmerged, MembershipTable.localEntry_merge_of_unaccused]
      intro r hr _
      exact hquiet now fresh msg rfl r hr
  · exact absurd hmark he

namespace Cluster

theorem OwnVersion.later {past : List ClusterEvent} {id : NodeId} {n n' : NodeSys}
    (h : OwnVersion past id n) {e : ClusterEvent} (he : e ≠ .node id (.rebalance .markAlive))
    (hphase' : n'.phase = .done ↔ n.phase = .done)
    (hown' : n'.table.localEntry.version = n.table.localEntry.version) :
    OwnVersion (past ++ [e]) id n' := by
  cases h with
  | standalone now hstart hphase hown =>
      exact .standalone now (by simp [hstart]) (hphase'.mpr hphase) (hown'.trans hown)
  | joining now hseeds hstart hphase hnot hown =>
      exact .joining now hseeds (by simp [hstart]) (mt hphase'.mp hphase)
        (by simp [hnot, Ne.symm he]) (hown'.trans hown)
  | joined now hseeds hstart hphase hdone hown =>
      exact .joined now hseeds (by simp [hstart]) (hphase'.mpr hphase) (by simp [hdone])
        (hown'.trans hown)

theorem OwnVersion.incarnation_le {past : List ClusterEvent} {id : NodeId} {n : NodeSys}
    (h : OwnVersion past id n) : n.table.localEntry.incarnation ≤ 1 := by
  cases h with
  | standalone now hstart hphase hown =>
      rw [(MemberEntry.version_eq_iff.mp hown).1]
      decide
  | joining now hseeds hstart hphase hnot hown =>
      rw [(MemberEntry.version_eq_iff.mp hown).1]
      decide
  | joined now hseeds hstart hphase hdone hown =>
      rw [(MemberEntry.version_eq_iff.mp hown).1]

/-- The invariant of a run without a verdict. -/
structure Healthy (X : Crates) (past : List ClusterEvent) (s : Cluster) : Prop where
  trusted : ∀ x i, s.Trusted X x i
  low : s.View X fun _ e => e.incarnation ≤ 1
  own : ∀ id n, s.nodes id = some n → OwnVersion past id n
  unborn : ∀ id, s.nodes id = none → ∀ e, .node id e ∉ past

theorem healthy_init (X : Crates) (r : Router) : Healthy X [] (init r) where
  trusted _ _ := ⟨view_init X _ r, fun id n hn => by cases hn⟩
  low := view_init X _ r
  own id n hn := by cases hn
  unborn id _ e := by simp

theorem ownVersion_start {past : List ClusterEvent} (now : Instant) {id : NodeId}
    (seeds : List NodeInfo) (hunborn : ∀ e, .node id e ∉ past) :
    OwnVersion (past ++ [.start now id seeds]) id (.start now id seeds) := by
  obtain ⟨hinc, hst⟩ := MembershipTable.localEntry_new now id seeds
  by_cases hseeds : seeds = []
  · subst hseeds
    exact .standalone now (by simp) rfl (MemberEntry.version_eq_iff.mpr ⟨hinc, hst⟩)
  · have hempty : seeds.isEmpty = false := by simpa using hseeds
    rw [hempty] at hst
    refine .joining now hseeds (by simp) ?_ (by simp [hunborn])
      (MemberEntry.version_eq_iff.mpr ⟨hinc, hst⟩)
    simp [NodeSys.start, hseeds]

theorem Healthy.not_accuses {past : List ClusterEvent} {s : Cluster} (h : Healthy X past s)
    {msg : GossipMessage} (hmsg : msg ∈ s.net) {fresh : Nat → NodeId} {r : RemoteEntry}
    (hr : r ∈ decodeMembers X fresh msg.members) : ¬ r.accuses := by
  obtain ⟨entry, rfl, htrust, _⟩ :=
    ((h.trusted r.nodeId r.incarnation).view.net msg hmsg).decoded hr
  exact htrust rfl rfl

/-- What each process says of itself still comes from how it began. -/
theorem Healthy.own_move {past : List ClusterEvent} {s t : Cluster} {e : ClusterEvent}
    (h : Healthy X past s) (hmove : Move X monitored s e t) :
    ∀ id n, t.nodes id = some n → OwnVersion (past ++ [e]) id n := by
  have hold : ∀ id n, (∀ ne, e ≠ .node id ne) → s.nodes id = some n →
      OwnVersion (past ++ [e]) id n :=
    fun id n hne hn => (h.own id n hn).later (hne _) Iff.rfl rfl
  cases hmove with
  | @start now id seeds hfree =>
      exact forall_nodes_update (fun j n hn => hold j n (by simp) hn)
        (ownVersion_start now seeds (h.unborn id hfree))
  | @node id ne n n' hn hears hnode =>
      intro j m hm
      by_cases hj : j = id
      · subst hj
        have hm' : n' = m := by simpa using hm
        subst hm'
        rcases hnode.phase_cases with ⟨hne, hphase⟩ | ⟨rfl, hmarking, hdone, htable⟩
        · refine (h.own j n hn).later (by simpa using hne) hphase
            (hnode.version_localEntry hne ?_)
          intro now fresh msg he r hr
          rw [he] at hears
          exact h.not_accuses hears hr
        · -- the rebalance ends: Joining at zero becomes Alive at one
          cases h.own j n hn with
          | standalone now hstart hphase hown => simp [hmarking] at hphase
          | joined now hseeds hstart hphase _ hown => simp [hmarking] at hphase
          | joining now hseeds hstart hphase hnot hown =>
              refine .joined now hseeds (by simp [hstart]) hdone (by simp) ?_
              rw [htable, MembershipTable.localEntry_markSelfAlive,
                MemberEntry.version_eq_iff, (MemberEntry.version_eq_iff.mp hown).1]
              exact ⟨rfl, rfl⟩
      · have hm' : s.nodes j = some m := by simpa [hj] using hm
        exact hold j m (by simp [Ne.symm hj]) hm'
  | send now hn hlist => exact fun j n hn => hold j n (by simp) hn
  | router hobs hstep => exact fun j n hn => hold j n (by simp) hn

/-- A process that was never started has taken no step. -/
theorem Healthy.unborn_move {past : List ClusterEvent} {s t : Cluster} {e : ClusterEvent}
    (h : Healthy X past s) (hmove : Move X monitored s e t) :
    ∀ id, t.nodes id = none → ∀ ne, .node id ne ∉ past ++ [e] := by
  intro id hnone ne hmem
  have hbefore : s.nodes id = none ∧ e ≠ .node id ne := by
    cases hmove with
    | @start now j seeds hfree =>
        by_cases hj : id = j
        · subst hj
          simp at hnone
        · exact ⟨by simpa [hj] using hnone, by simp⟩
    | @node j ne' n n' hn hears hnode =>
        by_cases hj : id = j
        · subst hj
          simp at hnone
        · exact ⟨by simpa [hj] using hnone, by simp [Ne.symm hj]⟩
    | send now hn hlist => exact ⟨hnone, by simp⟩
    | router hobs hstep => exact ⟨hnone, by simp⟩
  rcases List.mem_append.mp hmem with hpast | hlast
  · exact h.unborn id hbefore.1 ne hpast
  · exact hbefore.2 (List.mem_singleton.mp hlast).symm

theorem Healthy.step {past : List ClusterEvent} {s t : Cluster} {e : ClusterEvent}
    (h : Healthy X past s) (htimely : Timely s e) (hstep : s.step X monitored e = some t) :
    Healthy X (past ++ [e]) t := by
  have hmove := move_of_step hstep
  refine ⟨fun x i => ?_, ?_, h.own_move hmove, h.unborn_move hmove⟩
  · -- a verdict would be one of a sweep at a member found silent
    refine (h.trusted x i).move hmove ?_
    rintro ⟨w, n, now, member, rfl, hn, hcond⟩
    obtain ⟨rest, hsweep⟩ := hcond.sweep
    have hother : member.info.id ≠ w := by
      rw [hcond.listed, ← h.low.localIds w n hn]
      exact hcond.other
    exact absurd (htimely w n now member rest rfl hn hsweep hother) (Nat.not_le.mpr hcond.silent)
  · refine h.low.move ⟨⟨fun _ _ _ hQ => hQ, fun _ _ _ hQ => hQ, fun _ _ _ hQ => hQ⟩,
      fun _ _ hQ => hQ⟩ hmove ?_ fun id n hn => (h.own id n hn).incarnation_le
    intro now id seeds _ j _ entry hinc _
    rw [hinc]
    decide

/-- **Without a verdict the cluster stays healthy.** In a run in which no
sweep comes to a member it found silent, nobody is ever called Suspect or
Dead, no incarnation in a table or on the network exceeds one, and a
process says of itself Alive at zero if it was started without seeds, and
otherwise Joining at zero until its rebalance has finished and Alive at
one from then on. -/
theorem timely_run_is_healthy (X : Crates) (monitored : List NodeId) (r : Router)
    {es : List ClusterEvent} {s : Cluster}
    (hrun : Trace.exec (step X monitored) (init r) es = some s)
    (htimely : Trace.Along (step X monitored) Timely (init r) es) :
    (∀ x i, ¬ s.Accused X x i)
    ∧ (∀ id n x entry, s.nodes id = some n → n.table.members.lookup x = some entry →
      entry.incarnation ≤ 1)
    ∧ (∀ msg ∈ s.net, ∀ m ∈ msg.members, m.incarnation ≤ 1)
    ∧ ∀ id n, s.nodes id = some n → ∃ now seeds, .start now id seeds ∈ es
      ∧ (seeds = [] → n.table.localEntry.version = toLex (0, .alive))
      ∧ (seeds ≠ [] → .node id (.rebalance .markAlive) ∈ es →
        n.table.localEntry.version = toLex (1, .alive))
      ∧ (seeds ≠ [] → .node id (.rebalance .markAlive) ∉ es →
        n.table.localEntry.version = toLex (0, .joining)) := by
  have hhealthy : Healthy X es s :=
    Trace.exec_history (I := Healthy X) (fun past u e t hu hC hstep => hu.step hC hstep) []
      (healthy_init X r) htimely hrun
  refine ⟨fun x i => (hhealthy.trusted x i).not_accused, ?_, ?_, ?_⟩
  · intro id n x entry hn hlook
    by_cases hself : x = n.table.localId
    · rw [hself] at hlook
      rw [← MembershipTable.localEntry_eq hlook]
      exact (hhealthy.own id n hn).incarnation_le
    · exact hhealthy.low.others id n hn x entry hself hlook
  · intro msg hmsg m hm
    obtain ⟨entry, _, _, hinc, _, hlow⟩ := (hhealthy.low.net msg hmsg).member hm
    rw [hinc]
    exact hlow
  · intro id n hn
    cases hhealthy.own id n hn with
    | standalone now hstart hphase hown =>
        exact ⟨now, [], hstart, fun _ => hown, fun h => absurd rfl h, fun h => absurd rfl h⟩
    | @joining now seeds hseeds hstart hphase hnot hown =>
        exact ⟨now, seeds, hstart, fun h => absurd h hseeds, fun _ h => absurd h hnot,
          fun _ _ => hown⟩
    | @joined now seeds hseeds hstart hphase hdone hown =>
        exact ⟨now, seeds, hstart, fun h => absurd h hseeds, fun _ _ => hown,
          fun _ h => absurd hdone h⟩

/-- Node 2 starts with node 1 as its seed and sweeps after two seconds. -/
def promptRun : List ClusterEvent :=
  let seed : MemberEntry := ⟨⟨⟨1⟩, "a"⟩, .alive, 0, 0⟩
  let self : MemberEntry := ⟨⟨⟨2⟩, ""⟩, .joining, 0, 0⟩
  [.start 0 ⟨2⟩ [seed.info], .node ⟨2⟩ (.gossip (.sweepBegin 2000000000 [seed, self])),
    .node ⟨2⟩ (.gossip .sweepNext)]

theorem timely_run_is_healthy_promptRun :
    ∃ s, Trace.exec (step (.hyphenated fun _ => 0) []) (init ⟨.new, .new⟩) promptRun = some s
      ∧ ∀ x i, ¬ s.Accused (.hyphenated fun _ => 0) x i := by
  have htimely : Trace.Along (step (.hyphenated fun _ => 0) []) Timely (init ⟨.new, .new⟩)
      promptRun := by
    refine Trace.along_of_step rfl (fun _ _ _ _ _ he => by cases he) ?_
    refine Trace.along_of_step rfl (fun _ _ _ _ _ he => by cases he) ?_
    refine Trace.along_of_step rfl ?_ trivial
    intro w n now member rest he hn hsweep _
    cases he
    cases hn
    cases hsweep
    decide
  exact ⟨_, rfl, (timely_run_is_healthy _ [] _ rfl htimely).1⟩

end Cluster

end SelfHealingCache
