import SelfHealingCache.Cluster.Authenticity
import SelfHealingCache.Node.Detection

/-!
# Crashed nodes are detected

A run of the cluster, read at one node, is a run of the calls on that
node's table (`exec_tableCalls`), so what `Node.Detection` proves of one
table holds in every run of the cluster. Authenticity closes the one way
out it leaves: a higher incarnation than the one the node held can only
come from the silent node itself.
-/

namespace SelfHealingCache

namespace Cluster

variable {X : Crates} {monitored : List NodeId}

/-! ## A run, read at one node -/

/-- What an event of the cluster does to the table of node `a`. -/
def tableCall (a : NodeId) : ClusterEvent → Option TableCall
  | .node id (.gossip e) => if id = a then some (.gossip e) else none
  | .node id (.rebalance .markAlive) => if id = a then some .markSelfAlive else none
  | _ => none

/-- What a process step does to the gossip side. -/
theorem NodeMove.tableCall {id : NodeId} {n n' : NodeSys} {e : NodeEvent}
    (h : NodeSys.NodeMove X n e n') :
    match tableCall id (.node id e) with
    | some c => TableCall.step X n.gossip c = some n'.gossip
    | none => n'.gossip = n.gossip := by
  cases h with
  | gossip hg =>
      rw [Cluster.tableCall, if_pos rfl]
      exact hg
  | purge now => rfl
  | call req hfree => rfl
  | advance htask hmove => rfl
  | rebalance hre =>
      cases hre with
      | markAlive hphase =>
          rw [Cluster.tableCall, if_pos rfl]
          rfl
      | _ => rfl

/-- **The projection rule.** -/
theorem exec_tableCalls {a : NodeId} {s t : Cluster} {es : List ClusterEvent} {n : NodeSys}
    (hrun : Trace.exec (step X monitored) s es = some t) (hn : s.nodes a = some n) :
    ∃ n', t.nodes a = some n'
      ∧ Trace.exec (TableCall.step X) n.gossip (es.filterMap (tableCall a)) = some n'.gossip := by
  induction es generalizing s n with
  | nil =>
      cases hrun
      exact ⟨n, hn, rfl⟩
  | cons e es ih =>
      obtain ⟨u, hu, hut⟩ := Trace.exec_cons.mp hrun
      -- an event that leaves the node alone is none of its calls
      have hskip : tableCall a e = none → u.nodes a = some n → ∃ n', t.nodes a = some n'
          ∧ Trace.exec (TableCall.step X) n.gossip ((e :: es).filterMap (tableCall a))
            = some n'.gossip := by
        intro hcall hsame
        rw [List.filterMap_cons_none hcall]
        exact ih hut hsame
      cases move_of_step hu with
      | @start now id seeds hfree =>
          have hid : a ≠ id := by
            rintro rfl
            rw [hn] at hfree
            cases hfree
          apply hskip rfl
          show Function.update s.nodes id _ a = some n
          rw [Function.update_of_ne hid, hn]
      | send now hm hlist => exact hskip rfl hn
      | router hobs hstep => exact hskip rfl hn
      | @node id ne m m' hm hears hnode =>
          by_cases hid : a = id
          · subst hid
            obtain rfl : n = m := Option.some.inj (hn.symm.trans hm)
            have hlater : Function.update s.nodes a (some m') a = some m' :=
              Function.update_self ..
            obtain ⟨n', hn', hexec⟩ := ih hut hlater
            refine ⟨n', hn', ?_⟩
            have hcall := @NodeMove.tableCall X a _ _ _ hnode
            cases hc : tableCall a (.node a ne) with
            | none =>
                rw [hc] at hcall
                rw [List.filterMap_cons_none hc, ← hcall]
                exact hexec
            | some c =>
                rw [hc] at hcall
                rw [List.filterMap_cons_some hc]
                exact Trace.exec_cons.mpr ⟨m'.gossip, hcall, hexec⟩
          · apply hskip
            · cases ne with
              | gossip e => exact if_neg (Ne.symm hid)
              | rebalance e =>
                  cases e with
                  | markAlive => exact if_neg (Ne.symm hid)
                  | _ => rfl
              | purge now => rfl
              | call i req => rfl
              | advance i now => rfl
            · show Function.update s.nodes id _ a = some n
              rw [Function.update_of_ne hid, hn]

/-- The calls among the events are the node's own. -/
theorem mem_tableCalls {a : NodeId} {es : List ClusterEvent} {e : GossipEvent}
    (h : .gossip e ∈ es.filterMap (tableCall a)) : .node a (.gossip e) ∈ es := by
  obtain ⟨ev, hmem, hcall⟩ := List.mem_filterMap.mp h
  cases ev with
  | node id ne =>
      cases ne with
      | gossip e' =>
          simp only [tableCall] at hcall
          split_ifs at hcall with hid
          cases hcall
          rw [← hid]
          exact hmem
      | rebalance re =>
          cases re with
          | markAlive =>
              simp only [tableCall] at hcall
              split_ifs at hcall
              cases hcall
          | _ => cases hcall
      | purge now => cases hcall
      | call i req => cases hcall
      | advance i now => cases hcall
  | start now id seeds => cases hcall
  | send id now listing => cases hcall
  | router e => cases hcall

/-- All a node hears in a run of the cluster comes by gossip. -/
theorem heard_tableCalls {a : NodeId} {es : List ClusterEvent} {c : TableCall} {now : Instant}
    {entries : List RemoteEntry} (h : c ∈ es.filterMap (tableCall a))
    (hheard : c.heard X = some (now, entries)) :
    ∃ fresh msg, .node a (.gossip (.receive now fresh msg)) ∈ es := by
  cases c with
  | gossip e =>
      cases e with
      | receive now' fresh msg =>
          cases hheard
          exact ⟨fresh, msg, mem_tableCalls h⟩
      | _ => cases hheard
  | markSelfAlive => cases hheard
  | merge now' entries' =>
      obtain ⟨ev, _, hcall⟩ := List.mem_filterMap.mp h
      cases ev with
      | node id ne =>
          cases ne with
          | gossip e =>
              simp only [tableCall] at hcall
              split_ifs at hcall
              cases hcall
          | rebalance re =>
              cases re with
              | markAlive =>
                  simp only [tableCall] at hcall
                  split_ifs at hcall
                  cases hcall
              | _ => cases hcall
          | _ => cases hcall
      | _ => cases hcall

/-! ## Detection -/

/-- **Crashed nodes are detected.** Node `a` holds `x`, not as Joining,
and does not hear from `x` itself any more. Once it has begun a sweep
more than `SUSPECT_TIMEOUT` after it last refreshed `x`, then a sweep
more than `DEAD_TIMEOUT` after everything it had merged before that one,
and finished it, it holds `x` Dead at the same incarnation, whatever
other nodes reported in the meantime and in whatever order; unless `x`
itself has moved to a higher incarnation. -/
theorem crash_detected (X : Crates) (monitored : List NodeId) (r : Router) {a x : NodeId}
    {past before mid last : List ClusterEvent} {s t : Cluster} {n m : NodeSys} {e : MemberEntry}
    {n₁ n₂ bound : Instant} {l₁ l₂ : List MemberEntry} (hax : a ≠ x)
    (hpast : Trace.exec (step X monitored) (init r) past = some s)
    (hn : s.nodes a = some n) (he : n.table.members.lookup x = some e)
    (hstanding : e.status ≠ .joining)
    (hrun : Trace.exec (step X monitored) s (before ++ .node a (.gossip (.sweepBegin n₁ l₁))
      :: (mid ++ .node a (.gossip (.sweepBegin n₂ l₂)) :: last)) = some t)
    (hm : t.nodes a = some m) (hdone : m.gossip.sweep = none)
    (htouch : ∀ now, .node a (.gossip (.touch now x)) ∉ before ++ mid)
    (hseen : e.lastSeen ≤ bound)
    (hheard : ∀ now fresh msg, .node a (.gossip (.receive now fresh msg)) ∈ before ++ mid →
      now ≤ bound)
    (hfirst : e.lastSeen + suspectTimeout < n₁) (hsecond : bound + deadTimeout < n₂)
    (hbumps : Trace.changes (step X monitored) (own x) (init r)
      (past ++ (before ++ .node a (.gossip (.sweepBegin n₁ l₁))
        :: (mid ++ .node a (.gossip (.sweepBegin n₂ l₂)) :: last))) < 2 ^ 64) :
    ∃ e', m.table.members.lookup x = some e'
      ∧ ((e'.status = .dead ∧ e'.incarnation = e.incarnation)
        ∨ (e.incarnation < e'.incarnation ∧ e'.incarnation ≤ t.own x)) := by
  have hauth := (authenticCount_exec (Trace.exec_append.mpr ⟨s, hpast, hrun⟩) hbumps).1
  obtain ⟨m', hm', hcalls⟩ := exec_tableCalls hrun hn
  obtain rfl : m = m' := Option.some.inj (hm.symm.trans hm')
  have hlocal : x ≠ n.table.localId := by
    have hkept : m.table.localId = n.table.localId := (advances_exec hcalls).localId
    rw [← hkept, hauth.localIds a m hm]
    exact hax.symm
  simp only [List.filterMap_append, List.filterMap_cons, tableCall, if_pos] at hcalls
  have hheld := held_of_silence (X := X) hlocal he hstanding hcalls hdone ?_ hseen ?_ hfirst
    hsecond
  · cases hlook : m.table.members.lookup x with
    | none =>
        have hbot : m.table.held x = ⊥ := by simp [MembershipTable.held, hlook]
        exact absurd (hbot ▸ hheld : _ ≤ ⊥) (by simp)
    | some e' =>
        refine ⟨e', rfl, ?_⟩
        have hle : toLex (e.incarnation, .dead) ≤ e'.version := by
          apply WithBot.coe_le_coe.mp
          rw [← MembershipTable.held_eq hlook]
          exact hheld
        -- a higher incarnation is `x`'s own; at the same one nothing is above Dead
        rcases Prod.Lex.le_iff.mp hle with hlt | ⟨heq, hdead⟩
        · exact .inr ⟨hlt, hauth.incarnation_le hm hlook⟩
        · refine .inl ⟨?_, heq.symm⟩
          have hdead : MemberStatus.dead ≤ e'.status := hdead
          revert hdead
          cases e'.status <;> decide
  · intro now hmem
    rw [← List.filterMap_append] at hmem
    exact htouch now (mem_tableCalls hmem)
  · intro c hc now es hh
    rw [← List.filterMap_append] at hc
    obtain ⟨fresh, msg, hmem⟩ := heard_tableCalls hc hh
    exact hheard now fresh msg hmem

/-- Node 2 knows node 1 as its seed and hears nothing more: it sweeps
after four and after six seconds. -/
def sweepTwice : List ClusterEvent :=
  let seed : MemberEntry := ⟨⟨⟨1⟩, "a"⟩, .alive, 0, 0⟩
  let self : MemberEntry := ⟨⟨⟨2⟩, ""⟩, .joining, 0, 0⟩
  [.node ⟨2⟩ (.gossip (.sweepBegin 4000000000 [seed, self])),
    .node ⟨2⟩ (.gossip .sweepNext), .node ⟨2⟩ (.gossip .sweepNext), .node ⟨2⟩ (.gossip .sweepNext),
    .node ⟨2⟩ (.gossip (.sweepBegin 6000000000 [{ seed with status := .suspect }, self])),
    .node ⟨2⟩ (.gossip .sweepNext), .node ⟨2⟩ (.gossip .sweepNext), .node ⟨2⟩ (.gossip .sweepNext)]

theorem crash_detected_sweepTwice :
    ∃ s t m e', Trace.exec (step (.hyphenated fun _ => 0) []) (init ⟨.new, .new⟩)
        [.start 0 ⟨2⟩ [⟨⟨1⟩, "a"⟩]] = some s
      ∧ Trace.exec (step (.hyphenated fun _ => 0) []) s sweepTwice = some t
      ∧ t.nodes ⟨2⟩ = some m ∧ m.table.members.lookup ⟨1⟩ = some e'
      ∧ ((e'.status = .dead ∧ e'.incarnation = 0)
        ∨ (0 < e'.incarnation ∧ e'.incarnation ≤ t.own ⟨1⟩)) := by
  obtain ⟨s, t, n, m, e, hpast, hrun, hn, hm, hdone, he, hst, hinc, hseen⟩ : ∃ s t n m e,
      Trace.exec (step (.hyphenated fun _ => 0) []) (init ⟨.new, .new⟩)
        [.start 0 ⟨2⟩ [⟨⟨1⟩, "a"⟩]] = some s
      ∧ Trace.exec (step (.hyphenated fun _ => 0) []) s sweepTwice = some t
      ∧ s.nodes ⟨2⟩ = some n ∧ t.nodes ⟨2⟩ = some m ∧ m.gossip.sweep = none
      ∧ n.table.members.lookup ⟨1⟩ = some e ∧ e.status = .alive ∧ e.incarnation = 0
      ∧ e.lastSeen = 0 :=
    ⟨_, _, _, _, _, rfl, rfl, rfl, rfl, rfl, rfl, rfl, rfl, rfl⟩
  have hsweeps : Trace.exec (step (.hyphenated fun _ => 0) []) s ([] ++ .node ⟨2⟩
      (.gossip (.sweepBegin 4000000000 [⟨⟨⟨1⟩, "a"⟩, .alive, 0, 0⟩, ⟨⟨⟨2⟩, ""⟩, .joining, 0, 0⟩]))
      :: ([.node ⟨2⟩ (.gossip .sweepNext), .node ⟨2⟩ (.gossip .sweepNext),
        .node ⟨2⟩ (.gossip .sweepNext)] ++ .node ⟨2⟩ (.gossip (.sweepBegin 6000000000
          [⟨⟨⟨1⟩, "a"⟩, .suspect, 0, 0⟩, ⟨⟨⟨2⟩, ""⟩, .joining, 0, 0⟩]))
        :: [.node ⟨2⟩ (.gossip .sweepNext), .node ⟨2⟩ (.gossip .sweepNext),
          .node ⟨2⟩ (.gossip .sweepNext)])) = some t := hrun
  have hbound : e.lastSeen ≤ 0 := by rw [hseen]
  obtain ⟨e', he', hdead⟩ := crash_detected _ [] ⟨.new, .new⟩ (by decide) hpast hn he
    (by simp [hst]) hsweeps hm hdone (by simp) hbound (by simp) (by rw [hseen]; decide) (by decide)
    (lt_of_le_of_lt (Trace.changes_le_length ..) (by decide))
  rw [hinc] at hdead
  exact ⟨s, t, m, e', hpast, hrun, hm, he', hdead⟩

end Cluster

end SelfHealingCache
