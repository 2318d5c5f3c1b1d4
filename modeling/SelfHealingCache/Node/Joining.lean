import SelfHealingCache.Node.Process

/-!
# Joining isolation at a node

A node started with seeds is Joining and refuses gRPC writes until its
rebalancer calls `mark_self_alive`. Two places write the local status:
the rebalancer, and the refutation branch of `merge`, which answers an
accusation by setting ALIVE, whatever the status was. At incarnation
zero, where a joining node is, every accusation is answered.

So the isolation lasts exactly as long as no message accuses the local
id before the rebalance is done (`joining_kept_iff`). A node restarted
under its old `--id` meets such a message as soon as a peer remembers it
as Suspect or Dead.
-/

namespace SelfHealingCache

/-! ## The flag test of the gRPC handlers -/

/-- Not a Set handler past its test, and not one answered otherwise than
by refusal. -/
def Task.SetRefused (task : Task) : Prop :=
  (∀ req, task ≠ .setStore req)
    ∧ ∀ req reply, task = .done (.set req) reply → reply = .set (.error .joining)

theorem Task.setRefused_start (req : Request) : (Task.start req).SetRefused := by
  cases req with
  | respDel args =>
      simp only [Task.start]
      cases parseDel args <;> simp [SetRefused]
  | _ => simp [Task.start, SetRefused]

theorem Task.SetRefused.move {srv srv' : CacheService} {now : Instant} {task task' : Task}
    (h : task.SetRefused) (hjoining : srv.table.isSelfJoining = true)
    (hmove : NodeSys.TaskMove srv now task task' srv') : task'.SetRefused := by
  cases hmove with
  | refuseSet _ => simp [SetRefused]
  | admitSet hfalse =>
      rw [hjoining] at hfalse
      cases hfalse
  | set => exact absurd rfl (h.1 _)
  | _ => simp [SetRefused]

namespace NodeSys

/-! ## The invariant -/

/-- Until the rebalance is done the node is Joining, and every gRPC Set
answered so far was refused. -/
def JoiningIsolated (s : NodeSys) : Prop :=
  s.phase ≠ .done →
    s.table.isSelfJoining = true
    ∧ ∀ i req reply, s.tasks i = some (.done (.set req) reply) → reply = .set (.error .joining)

/-- The message merged by this event accuses the local node. -/
def Accused (X : Crates) (s : NodeSys) (e : NodeEvent) : Prop :=
  ∃ now fresh msg, e = .gossip (.receive now fresh msg)
    ∧ ∃ r ∈ decodeMembers X fresh msg.members, r.nodeId = s.table.localId ∧ r.accuses

/-- What carries the isolation through a run: incarnation zero is never
left, and no Set handler is past its test. -/
structure JoiningHeld (s : NodeSys) : Prop where
  entry : s.phase ≠ .done → s.table.localEntry.version = toLex (0, .joining)
  tasks : s.phase ≠ .done → ∀ i task, s.tasks i = some task → task.SetRefused

theorem isSelfJoining_of_version {t : MembershipTable} {inc : UInt64}
    (h : t.localEntry.version = toLex (inc, .joining)) : t.isSelfJoining = true := by
  rw [MembershipTable.isSelfJoining_iff]
  exact (MemberEntry.version_eq_iff.mp h).2

theorem JoiningHeld.isolated {s : NodeSys} (h : s.JoiningHeld) : s.JoiningIsolated :=
  fun hphase => ⟨isSelfJoining_of_version (h.entry hphase),
    fun i req reply hi => (h.tasks hphase i _ hi).2 req reply rfl⟩

/-- Seeds make a node start as Joining, at incarnation zero. -/
theorem version_start (now : Instant) (localId : NodeId) {seeds : List NodeInfo}
    (h : seeds ≠ []) :
    (start now localId seeds).table.localEntry.version = toLex (0, .joining) := by
  obtain ⟨hinc, hst⟩ := MembershipTable.localEntry_new now localId seeds
  rw [List.isEmpty_eq_false_iff.mpr h] at hst
  exact MemberEntry.version_eq_iff.mpr ⟨hinc, hst⟩

theorem joiningHeld_start (now : Instant) (localId : NodeId) (seed : NodeInfo)
    (seeds : List NodeInfo) : (start now localId (seed :: seeds)).JoiningHeld where
  entry _ := version_start now localId (List.cons_ne_nil seed seeds)
  tasks _ i task h := by cases h

/-- A gossip step that does not accuse the local node leaves its status
and incarnation alone. -/
theorem version_gossip {X : Crates} {s : NodeSys} {e : GossipEvent} {g : GossipNode}
    (h : s.gossip.step X e = some g) (hacc : ¬ s.Accused X (.gossip e)) :
    g.table.localEntry.version = s.table.localEntry.version := by
  rcases GossipNode.localVersion_step h with hsame | ⟨now, fresh, msg, rfl, htable⟩
  · exact hsame
  · rw [htable, MembershipTable.localEntry_merge_of_unaccused]
    · rfl
    · intro r hr hlocal haccuses
      exact hacc ⟨now, fresh, msg, rfl, r, hr, hlocal, haccuses⟩

theorem JoiningHeld.move {X : Crates} {s t : NodeSys} {e : NodeEvent} (h : s.JoiningHeld)
    (hacc : s.phase ≠ .done → ¬ s.Accused X e) (hmove : NodeMove X s e t) : t.JoiningHeld := by
  cases hmove with
  | gossip hg =>
      refine ⟨fun hphase => ?_, h.tasks⟩
      exact (version_gossip hg (hacc hphase)).trans (h.entry hphase)
  | purge now => exact ⟨h.entry, h.tasks⟩
  | @call i req hfree =>
      refine ⟨h.entry, fun hphase => ?_⟩
      exact forall_tasks_update (h.tasks hphase) i (Task.setRefused_start req)
  | @advance i now task task' srv htask hmove =>
      refine ⟨h.entry, fun hphase => ?_⟩
      have hjoining := isSelfJoining_of_version (h.entry hphase)
      exact forall_tasks_update (h.tasks hphase) i
        ((h.tasks hphase i task htask).move hjoining hmove)
  | rebalance hre =>
      -- every phase but the last is left for a phase that is not `done`
      cases hre with
      | wait hphase => exact h
      | markAlive hphase =>
          exact ⟨fun hne => absurd rfl hne, fun hne => absurd rfl hne⟩
      | converge hphase _ | buildRing hphase _ | chunk hphase _ | nextPeer hphase
        | count hphase | beginPass hphase _ | skipPass hphase | visit hphase _ _
        | endPass hphase _ =>
          have hne : s.phase ≠ .done := by
            rw [hphase]
            exact fun heq => by cases heq
          exact ⟨fun _ => h.entry hne, fun _ => h.tasks hne⟩

/-- A node that is told nothing is not accused. -/
theorem along_unaccused_of_no_receive {X : Crates} {es : List NodeEvent}
    (h : ∀ e ∈ es, ∀ time fresh msg, e ≠ .gossip (.receive time fresh msg)) (s : NodeSys) :
    Trace.Along (step X) (fun s e => s.phase ≠ .done → ¬ s.Accused X e) s es := by
  refine (Trace.along_of_forall h s).mono fun s e he _ hacc => ?_
  obtain ⟨time, fresh, msg, heq, _⟩ := hacc
  exact he time fresh msg heq

theorem throughout_joiningHeld {X : Crates} {now : Instant} {localId : NodeId} {seed : NodeInfo}
    {seeds : List NodeInfo} {es : List NodeEvent}
    (h : Trace.Along (step X) (fun s e => s.phase ≠ .done → ¬ s.Accused X e)
      (start now localId (seed :: seeds)) es) :
    Trace.Throughout (step X) JoiningHeld (start now localId (seed :: seeds)) es :=
  Trace.throughout_of_along (fun _ _ _ hs hacc hstep => hs.move hacc (move_of_step hstep))
    (joiningHeld_start now localId seed seeds) h

/-- An accusation before the rebalance is done ends the isolation. -/
theorem not_isolated_of_accused {X : Crates} {s t : NodeSys} {e : NodeEvent} (h : s.JoiningHeld)
    (hphase : s.phase ≠ .done) (hacc : s.Accused X e) (hmove : NodeMove X s e t) :
    ¬ t.JoiningIsolated := by
  obtain ⟨now, fresh, msg, rfl, hr⟩ := hacc
  cases hmove with
  | gossip hg =>
      cases hg
      intro hiso
      have hjoining := (hiso hphase).1
      have hinc : s.table.localEntry.incarnation = 0 :=
        (MemberEntry.version_eq_iff.mp (h.entry hphase)).1
      rw [MembershipTable.isSelfJoining_iff] at hjoining
      have halive : (s.table.merge now (decodeMembers X fresh msg.members)).localEntry.status
          = .alive := MembershipTable.status_localEntry_merge_of_accused hinc hr
      exact absurd (hjoining.symm.trans halive) (by decide)

/-- **Joining isolation at a node**, and its exact condition: in a run of
a node started with seeds, the node is Joining and refuses every gRPC Set
until the rebalance is done, exactly when no message merged before that
accuses the local id. -/
theorem joining_kept_iff (X : Crates) (now : Instant) (localId : NodeId) (seed : NodeInfo)
    (seeds : List NodeInfo) (es : List NodeEvent) :
    Trace.Throughout (step X) JoiningIsolated (start now localId (seed :: seeds)) es
      ↔ Trace.Along (step X) (fun s e => s.phase ≠ .done → ¬ s.Accused X e)
          (start now localId (seed :: seeds)) es := by
  apply Trace.throughout_iff_along (I := JoiningHeld)
  · intro s h
    exact h.isolated
  · intro s e t h hacc hstep
    exact h.move hacc (move_of_step hstep)
  · intro s e t h hacc hstep
    push Not at hacc
    exact not_isolated_of_accused h hacc.1 hacc.2 (move_of_step hstep)
  · exact joiningHeld_start now localId seed seeds

/-- A node restarted under its old id, with one seed, hears that it is
Dead: it turns Alive with the rebalance not begun, and accepts a Set. -/
theorem joining_not_kept_when_remembered_dead :
    ¬ Trace.Throughout (step (.hyphenated fun _ => 0)) JoiningIsolated
      (start 0 ⟨1⟩ [⟨⟨2⟩, "10.0.0.2:5001"⟩])
      [.gossip (.receive 0 (fun _ => ⟨0⟩)
          ⟨[⟨"00000000-0000-0000-0000-000000000001", "", 2, 0, 0⟩], ""⟩),
        .call 0 (.set ⟨"k", [7], none⟩), .advance 0 0, .advance 0 0] := by
  rw [Trace.throughout_iff_prefix]
  intro h
  have hlast := h _ List.prefix_rfl _ rfl (fun heq => by cases heq)
  have hreply := hlast.2 0 ⟨"k", [7], none⟩ (.set (.ok ⟨true⟩)) rfl
  cases hreply

end NodeSys

end SelfHealingCache
