import SelfHealingCache.Cluster.System

/-!
# Incarnations are authentic

Only a node itself raises its incarnation: by one in `mark_self_alive`,
and past an accusation when it refutes one. The refutation takes its new
value from the WIRE, so that it is a raise by one rests on nobody ever
having claimed more than the node's own number: an invariant of all
tables and all messages, kept by every step of every node.

The numbers are 64-bit words and wrap. The count of the steps that
changed a node's incarnation is the incarnation, so with fewer than
`2 ^ 64` of them it never does.
-/

namespace SelfHealingCache

namespace Cluster

/-- The incarnation a node holds of itself; zero before it is started. -/
def own (x : NodeId) (s : Cluster) : UInt64 :=
  match s.nodes x with
  | some n => n.table.localIncarnation
  | none => 0

theorem own_of_node {x : NodeId} {s : Cluster} {n : NodeSys} (h : s.nodes x = some n) :
    s.own x = n.table.localEntry.incarnation := by
  rw [own, h]
  exact MembershipTable.localIncarnation_eq n.table

theorem own_of_nodes {x : NodeId} {s t : Cluster} (h : t.nodes x = s.nodes x) :
    t.own x = s.own x := by
  rw [own, own, h]

/-- An entry about `x` claims at most `b`. -/
def ClaimsAtMost (x : NodeId) (b : UInt64) (id : NodeId) (e : MemberEntry) : Prop :=
  id = x → e.incarnation ≤ b

theorem claimsAtMost_rule (x : NodeId) (b : UInt64) : WireRule (ClaimsAtMost x b) where
  touch _ _ _ h := h
  suspect _ _ _ h := h
  dead _ _ _ h := h
  wire _ _ h := h

/-- Nobody claims more for `x` than `x` itself. -/
def Authentic (X : Crates) (x : NodeId) (s : Cluster) : Prop :=
  s.View X (ClaimsAtMost x (s.own x))

theorem Authentic.move {X : Crates} {monitored : List NodeId} {x : NodeId} {s t : Cluster}
    {e : ClusterEvent} (h : s.Authentic X x) (hmove : Move X monitored s e t)
    (hle : s.own x ≤ t.own x) : t.Authentic X x := by
  have hview : t.View X (ClaimsAtMost x (s.own x)) := by
    apply View.move (claimsAtMost_rule x (s.own x)) h hmove
    · intro now id seeds _ j _ entry hinc _ _
      rw [hinc, UInt64.le_iff_toNat_le]
      exact Nat.zero_le _
    · intro id n hn hid
      subst hid
      rw [own_of_node hn]
  exact hview.mono fun id entry hclaim hid => le_trans (hclaim hid) hle

theorem Authentic.incarnation_le {X : Crates} {x id : NodeId} {s : Cluster}
    (h : s.Authentic X x) {n : NodeSys} {entry : MemberEntry} (hn : s.nodes id = some n)
    (hlook : n.table.members.lookup x = some entry) : entry.incarnation ≤ s.own x := by
  have hlocal := h.localIds id n hn
  by_cases hid : x = n.table.localId
  · rw [hid] at hlook
    rw [own_of_node (by rw [hid, hlocal]; exact hn), MembershipTable.localEntry_eq hlook]
  · exact h.others id n hn x entry hid hlook rfl

/-- **A step changes a node's own incarnation by one, or not at all.** -/
theorem Authentic.own_step {X : Crates} {monitored : List NodeId} {x : NodeId} {s t : Cluster}
    {e : ClusterEvent} (h : s.Authentic X x) (hmove : Move X monitored s e t)
    (hwrap : (s.own x).toNat + 1 < 2 ^ 64) : t.own x = s.own x ∨ t.own x = s.own x + 1 := by
  cases hmove with
  | @start now id seeds hfree =>
      left
      by_cases hid : x = id
      · subst hid
        have hnew : (NodeSys.start now x seeds).table.localEntry.incarnation = 0 :=
          (MembershipTable.localEntry_new now x seeds).1
        rw [own_of_node (Function.update_self ..), hnew, own, hfree]
      · exact own_of_nodes (Function.update_of_ne hid _ _)
  | @node id e n n' hn hears hmove =>
      by_cases hid : x = id
      · subst hid
        have hlocal := h.localIds x n hn
        rw [own_of_node hn] at hwrap ⊢
        rw [own_of_node (Function.update_self ..)]
        rcases hmove.table_cases with heq | ⟨ge, rfl, hg⟩ | ⟨_, heq⟩
        · rw [heq]
          exact .inl rfl
        · rcases GossipNode.localVersion_step hg with hsame | ⟨now, fresh, msg, rfl, hmerge⟩
          · exact .inl (congrArg (fun v => (ofLex v).1) hsame)
          · -- a message: everything it says about `x` is at most what `x` holds
            have hmerged : n'.table = n.table.merge now (decodeMembers X fresh msg.members) :=
              hmerge
            rw [hmerged]
            apply MembershipTable.incarnation_merge_of_bounded hwrap (.inl rfl)
            intro r hr hself
            obtain ⟨entry, rfl, hclaim, _⟩ := (h.net msg hears).decoded hr
            rw [← own_of_node hn]
            exact hclaim (hself.trans hlocal)
        · rw [heq, MembershipTable.localEntry_markSelfAlive]
          exact .inr rfl
      · exact .inl (own_of_nodes (Function.update_of_ne hid _ _))
  | send now hn hlist => exact .inl rfl
  | router hobs hstep => exact .inl rfl

/-- The invariant with the count: `x` has changed its incarnation
`count` times, and that is its incarnation. -/
def AuthenticCount (X : Crates) (x : NodeId) (count : Nat) (s : Cluster) : Prop :=
  s.Authentic X x ∧ (s.own x).toNat = count

theorem authenticCount_exec {X : Crates} {monitored : List NodeId} {r : Router} {x : NodeId}
    {es : List ClusterEvent} {s : Cluster}
    (hrun : Trace.exec (step X monitored) (init r) es = some s)
    (hbumps : Trace.changes (step X monitored) (own x) (init r) es < 2 ^ 64) :
    AuthenticCount X x (Trace.changes (step X monitored) (own x) (init r) es) s := by
  have hstart : AuthenticCount X x 0 (init r) := ⟨view_init X _ r, rfl⟩
  have hcount := Trace.exec_counting (N := 2 ^ 64) (f := own x) ?_ ?_ hstart
    (by rw [Nat.zero_add]; exact hbumps) hrun
  · rw [Nat.zero_add] at hcount
    exact hcount
  · intro count u e t hu hstep hsame
    refine ⟨hu.1.move (move_of_step hstep) (le_of_eq hsame.symm), ?_⟩
    rw [hsame]
    exact hu.2
  · intro count u e t hu hN hstep hchanged
    have hwrap : (u.own x).toNat + 1 < 2 ^ 64 := by
      rw [hu.2]
      exact hN
    have hsucc : t.own x = u.own x + 1 :=
      (hu.1.own_step (move_of_step hstep) hwrap).resolve_left hchanged
    have hnat : (t.own x).toNat = (u.own x).toNat + 1 := by
      rw [hsucc]
      exact U64.toNat_succ_of_lt hwrap
    refine ⟨hu.1.move (move_of_step hstep) ?_, by rw [hnat, hu.2]⟩
    rw [UInt64.le_iff_toNat_le]
    omega

/-- **Incarnation authenticity.** In every run in which `x` changes its
incarnation fewer than `2 ^ 64` times: no table and no message holds `x`
at a higher incarnation than `x` itself, and each step of the run leaves
that incarnation alone or raises it by exactly one. -/
theorem incarnation_authentic (X : Crates) (monitored : List NodeId) (r : Router) (x : NodeId)
    {es : List ClusterEvent} {s : Cluster}
    (hrun : Trace.exec (step X monitored) (init r) es = some s)
    (hbumps : Trace.changes (step X monitored) (own x) (init r) es < 2 ^ 64) :
    (∀ id n entry, s.nodes id = some n → n.table.members.lookup x = some entry →
      entry.incarnation ≤ s.own x)
    ∧ (∀ msg ∈ s.net, ∀ m ∈ msg.members, X.parse m.nodeId = some x →
      m.incarnation ≤ s.own x)
    ∧ (∀ before e after u t, es = before ++ e :: after →
      Trace.exec (step X monitored) (init r) before = some u → u.step X monitored e = some t →
      (t.own x).toNat = (u.own x).toNat ∨ (t.own x).toNat = (u.own x).toNat + 1) := by
  obtain ⟨hview, _⟩ := authenticCount_exec hrun hbumps
  refine ⟨?_, ?_, ?_⟩
  · intro id n entry hn hlook
    exact hview.incarnation_le hn hlook
  · intro msg hmsg m hm hparse
    obtain ⟨entry, hid, _, hinc, _, hclaim⟩ := (hview.net msg hmsg).member hm
    rw [hinc]
    apply hclaim
    rw [hparse] at hid
    exact (Option.some.inj hid).symm
  · intro before e after u t hes hbefore hstep
    by_cases hsame : t.own x = u.own x
    · left
      rw [hsame]
    · -- this step is one of the counted changes
      have hcount : Trace.changes (step X monitored) (own x) (init r) before + 1 < 2 ^ 64 := by
        rw [hes, Trace.changes_append hbefore, Trace.changes_cons hstep, if_neg hsame] at hbumps
        omega
      obtain ⟨hauth, hown⟩ := authenticCount_exec hbefore (Nat.lt_of_succ_lt hcount)
      have hwrap : (u.own x).toNat + 1 < 2 ^ 64 := by
        rw [hown]
        exact hcount
      right
      rw [(hauth.own_step (move_of_step hstep) hwrap).resolve_left hsame]
      exact U64.toNat_succ_of_lt hwrap

/-- Node 2 starts with node 1 as its seed, hears nothing for four seconds,
suspects it and says so; node 1 refutes. -/
def refutationRun : List ClusterEvent :=
  let seed : MemberEntry := ⟨⟨⟨1⟩, "10.0.0.1:5001"⟩, .alive, 0, 0⟩
  let self : MemberEntry := ⟨⟨⟨2⟩, ""⟩, .joining, 0, 0⟩
  [.start 0 ⟨1⟩ [], .start 0 ⟨2⟩ [seed.info],
    .node ⟨2⟩ (.gossip (.sweepBegin 4000000000 [seed, self])), .node ⟨2⟩ (.gossip .sweepNext),
    .send ⟨2⟩ 4000000000 [{ seed with status := .suspect }, self],
    .node ⟨1⟩ (.gossip (.receive 4000000000 (fun _ => ⟨0⟩)
      (buildGossipMessage (.hyphenated fun _ => 0) 4000000000 ⟨2⟩
        [{ seed with status := .suspect }, self])))]

theorem incarnation_authentic_refutationRun :
    ∃ s, Trace.exec (step (.hyphenated fun _ => 0) []) (init ⟨.new, .new⟩) refutationRun = some s
      ∧ s.own ⟨1⟩ = 1
      ∧ ∀ id n entry, s.nodes id = some n → n.table.members.lookup ⟨1⟩ = some entry →
        entry.incarnation ≤ s.own ⟨1⟩ := by
  obtain ⟨s, hrun⟩ : ∃ s, Trace.exec (step (.hyphenated fun _ => 0) []) (init ⟨.new, .new⟩)
      refutationRun = some s := ⟨_, rfl⟩
  refine ⟨s, hrun, ?_, (incarnation_authentic _ [] _ ⟨1⟩ hrun (by decide)).1⟩
  cases hrun
  rfl

end Cluster

end SelfHealingCache
