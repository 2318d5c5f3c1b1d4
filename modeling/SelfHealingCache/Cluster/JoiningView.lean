import SelfHealingCache.Cluster.System
import SelfHealingCache.Node.Joining

/-!
# How the cluster sees a joining node

A node that started with seeds and has not called `mark_self_alive` is
Joining at incarnation zero in its own table. Nobody else can say
otherwise: the timeout sweep leaves a Joining entry alone (`mark_suspect`
takes only Alive entries), merging equal entries changes nothing, and so
no accusation arises that the node would have to refute. Every table and
every message agree, no ring gains the node, and nobody can make it leave
Joining.

The ids matter: a node whose id somebody uses for a seed address would be
listed there as Alive from the start. Ids are drawn at random, so it is
an assumption here that nobody does.
-/

namespace SelfHealingCache

/-- An entry about `x` says Joining, at incarnation zero. -/
def SaysJoining (x : NodeId) (id : NodeId) (e : MemberEntry) : Prop :=
  id = x → e.incarnation = 0 ∧ e.status = .joining

theorem saysJoining_rule (x : NodeId) : WireRule (SaysJoining x) where
  touch _ _ _ h := h
  suspect _ e hst h hid := by
    rw [(h hid).2] at hst
    cases hst
  dead _ e hst h hid := by
    rw [(h hid).2] at hst
    exact hst.elim (fun heq => by cases heq) (fun heq => by cases heq)
  wire _ _ h := h

/-! ## The router's ring -/

namespace RouterSys

/-- The ring does not gain `x`, and nothing the client still has to do
would add it. -/
structure RingLacks (X : Crates) (x : NodeId) (s : RouterSys) : Prop where
  rest : ∀ m ∈ s.rest, ∀ status, observed X m = some (x, status) → status = .joining
  current : ∀ info, .addNode info ∈ s.current → info.id ≠ x
  ring : s.router.ring.containsNode x = false

theorem RingLacks.step {X : Crates} {monitored : List NodeId} {x : NodeId} {s t : RouterSys}
    {e : RouterEvent} (h : s.RingLacks X x)
    (hresp : ∀ members, e = .respond members → ∀ m ∈ members, ∀ status,
      observed X m = some (x, status) → status = .joining)
    (hstep : s.step X monitored e = some t) : t.RingLacks X x := by
  have htold : s.Told X fun info status => info.id = x → status = .joining := by
    refine ⟨?_, fun info hinfo hid => absurd hid (h.current info hinfo)⟩
    rintro m hm id status hobs rfl
    exact h.rest m hm status hobs
  have hnext : t.Told X fun info status => info.id = x → status = .joining := by
    refine htold.step ?_ hstep
    rintro members he m hm id status hobs rfl
    exact hresp members he m hm status hobs
  refine ⟨fun m hm status hobs => hnext.rest m hm x status hobs rfl, ?_, ?_⟩
  · -- an `addNode` still to come is for an Alive entry, and `x` has none
    intro info hinfo hid
    cases hnext.current info hinfo hid
  · obtain hsame | ⟨info, _, hadds, hring⟩ | ⟨id, hring⟩ := ring_step hstep
    · rw [hsame]
      exact h.ring
    · have hne : info.id ≠ x := h.current info hadds.mem_current
      have hold := h.ring
      rw [hring]
      simpa [HashRing.containsNode, HashRing.addNode, hne] using hold
    · have hold := h.ring
      rw [hring]
      simp only [HashRing.containsNode, HashRing.removeNode, List.any_filter,
        List.any_eq_false] at hold ⊢
      intro n hn
      simp [hold n hn]

end RouterSys

/-! ## Tables and messages -/

namespace Cluster

structure JoiningSeen (X : Crates) (x : NodeId) (s : Cluster) : Prop where
  view : s.View X (SaysJoining x)
  self : ∀ n, s.nodes x = some n → n.table.localEntry.version = toLex (0, .joining)

/-- Nobody uses the id of `x` for a seed address, and `x` itself has
seeds. -/
def FreshFor (x : NodeId) : ClusterEvent → Prop
  | .start _ id seeds => x ∉ seeds.map (·.id) ∧ (id = x → seeds ≠ [])
  | _ => True

/-- A step of the node itself, short of `mark_self_alive`: nothing it
hears accuses it. -/
theorem JoiningSeen.self_move {X : Crates} {x : NodeId} {s : Cluster} (h : s.JoiningSeen X x)
    {n n' : NodeSys} {e : NodeEvent} (hn : s.nodes x = some n) (hears : s.hears e)
    (halive : e ≠ .rebalance .markAlive) (hmove : NodeSys.NodeMove X n e n') :
    n'.table.localEntry.version = toLex (0, .joining) := by
  rw [← h.self n hn]
  rcases hmove.table_cases with heq | ⟨ge, rfl, hg⟩ | ⟨heq, _⟩
  · rw [heq]
  · rcases GossipNode.localVersion_step hg with hsame | ⟨now, fresh, msg, rfl, hmerge⟩
    · exact hsame
    · have hmerged : n'.table = n.table.merge now (decodeMembers X fresh msg.members) := hmerge
      rw [hmerged, MembershipTable.localEntry_merge_of_unaccused]
      intro r hr hself haccuses
      obtain ⟨entry, rfl, hsaid, _⟩ := (h.view.net msg hears).decoded hr
      have hst : entry.status = .joining :=
        (hsaid (hself.trans (h.view.localIds x n hn))).2
      have hacc : entry.status = .suspect ∨ entry.status = .dead := haccuses
      rw [hst] at hacc
      exact hacc.elim (fun heq => by cases heq) (fun heq => by cases heq)
  · exact absurd heq halive

theorem JoiningSeen.move {X : Crates} {monitored : List NodeId} {x : NodeId} {s t : Cluster}
    {e : ClusterEvent} (h : s.JoiningSeen X x) (hfresh : FreshFor x e)
    (halive : e ≠ .node x (.rebalance .markAlive)) (hmove : Move X monitored s e t) :
    t.JoiningSeen X x := by
  constructor
  · apply View.move (saysJoining_rule x) h.view hmove
    · intro now id seeds he j hj entry _ _ hx
      rw [he] at hfresh
      rw [hx] at hj
      exact absurd hj hfresh.1
    · intro id n hn hid
      rw [hid] at hn
      exact MemberEntry.version_eq_iff.mp (h.self n hn)
  · cases hmove with
    | @start now id seeds hfree =>
        intro n hn
        dsimp only at hn
        by_cases hid : x = id
        · rw [hid, Function.update_self] at hn
          cases hn
          exact NodeSys.version_start now id (hfresh.2 hid.symm)
        · rw [Function.update_of_ne hid] at hn
          exact h.self n hn
    | @node id e n n' hn hears hmove =>
        intro n₁ hn₁
        dsimp only at hn₁
        by_cases hid : x = id
        · subst hid
          rw [Function.update_self] at hn₁
          cases hn₁
          exact h.self_move hn hears (fun heq => halive (by rw [heq])) hmove
        · rw [Function.update_of_ne hid] at hn₁
          exact h.self n₁ hn₁
    | send now hn hlist => exact h.self
    | router hobs hstep => exact h.self

/-- A response the router observes says nothing but Joining of `x`. -/
theorem JoiningSeen.observed {X : Crates} {x : NodeId} {s : Cluster} (h : s.JoiningSeen X x)
    {members : List ProtoMemberEntry} (hobs : s.observes (.respond members)) :
    ∀ m ∈ members, ∀ status, observed X m = some (x, status) → status = .joining := by
  obtain ⟨msg, hmsg, rfl⟩ := List.mem_map.mp hobs
  intro m hm status hseen
  obtain ⟨entry, hid, hst, _, _, hsaid⟩ := (h.view.net msg hmsg).member hm
  rw [SelfHealingCache.observed, hid, hst] at hseen
  cases hseen
  exact (hsaid rfl).2

theorem RingLacks.move {X : Crates} {monitored : List NodeId} {x : NodeId} {s t : Cluster}
    {e : ClusterEvent} (h : s.JoiningSeen X x) (hring : s.router.RingLacks X x)
    (hmove : Move X monitored s e t) : t.router.RingLacks X x := by
  cases hmove with
  | start now seeds hfree => exact hring
  | node hn hears hmove => exact hring
  | send now hn hlist => exact hring
  | router hobs hstep =>
      refine hring.step (fun members he => ?_) hstep
      rw [he] at hobs
      exact h.observed hobs

/-- The invariant of the run, with the router's part for a ring that does
not hold `x` at the start. -/
theorem joiningSeen_exec {X : Crates} {monitored : List NodeId} {r : Router} {x : NodeId}
    {es : List ClusterEvent} {s : Cluster}
    (hrun : Trace.exec (step X monitored) (init r) es = some s)
    (hfresh : ∀ e ∈ es, FreshFor x e)
    (halive : .node x (.rebalance .markAlive) ∉ es) :
    s.JoiningSeen X x
      ∧ (r.ring.containsNode x = false → s.router.RingLacks X x) := by
  have hevents : ∀ e ∈ es, FreshFor x e ∧ e ≠ .node x (.rebalance .markAlive) := by
    intro e he
    refine ⟨hfresh e he, fun heq => ?_⟩
    rw [heq] at he
    exact halive he
  have hinit : (init r).JoiningSeen X x := ⟨view_init X _ r, fun n hn => by cases hn⟩
  refine Trace.exec_invariant (I := fun s => s.JoiningSeen X x
    ∧ (r.ring.containsNode x = false → s.router.RingLacks X x)) ?_ ?_
    (Trace.along_of_forall hevents _) hrun
  · intro u e t ⟨hseen, hring⟩ ⟨hf, ha⟩ hstep
    have hmove := move_of_step hstep
    exact ⟨hseen.move hf ha hmove, fun hr => RingLacks.move hseen (hring hr) hmove⟩
  · refine ⟨hinit, fun hr => ⟨?_, ?_, hr⟩⟩
    · intro m hm
      cases hm
    · intro info hinfo
      cases hinfo

/-- A table's entry for `x`, whoever's table it is. -/
theorem JoiningSeen.entry {X : Crates} {x : NodeId} {s : Cluster} (h : s.JoiningSeen X x)
    {id : NodeId} {n : NodeSys} {entry : MemberEntry} (hn : s.nodes id = some n)
    (hlook : n.table.members.lookup x = some entry) :
    entry.status = .joining ∧ entry.incarnation = 0 := by
  have hlocal := h.view.localIds id n hn
  by_cases hx : x = n.table.localId
  · have hself := h.self n (by rw [hx, hlocal]; exact hn)
    rw [hx] at hlook
    rw [MembershipTable.localEntry_eq hlook] at hself
    exact (MemberEntry.version_eq_iff.mp hself).symm
  · obtain ⟨hinc, hst⟩ := h.view.others id n hn x entry hx hlook rfl
    exact ⟨hst, hinc⟩

/-- **The cluster's view of a joining node.** In every run in which `x`
is started with seeds, nobody's seed list holds its id, and it has not
called `mark_self_alive`: every table and every message that mentions `x`
holds it as Joining at incarnation zero. Hence no node would route to it,
it is Joining itself whatever it has heard, and the router's ring has not
gained it. -/
theorem joining_seen_everywhere (X : Crates) (monitored : List NodeId) (r : Router) (x : NodeId)
    {es : List ClusterEvent} {s : Cluster}
    (hrun : Trace.exec (step X monitored) (init r) es = some s)
    (hfresh : ∀ e ∈ es, FreshFor x e)
    (halive : .node x (.rebalance .markAlive) ∉ es) :
    (∀ id n entry, s.nodes id = some n → n.table.members.lookup x = some entry →
      entry.status = .joining ∧ entry.incarnation = 0)
    ∧ (∀ msg ∈ s.net, ∀ m ∈ msg.members, X.parse m.nodeId = some x →
      MemberStatus.ofProto m.status = some .joining ∧ m.incarnation = 0)
    ∧ (∀ id n, s.nodes id = some n → ∀ entry ∈ n.table.routablePeers, entry.info.id ≠ x)
    ∧ (∀ n, s.nodes x = some n → n.table.isSelfJoining = true)
    ∧ (r.ring.containsNode x = false → s.router.router.ring.containsNode x = false) := by
  obtain ⟨hseen, hring⟩ := joiningSeen_exec hrun hfresh halive
  refine ⟨?_, ?_, ?_, ?_, fun hr => (hring hr).ring⟩
  · intro id n entry hn hlook
    exact hseen.entry hn hlook
  · intro msg hmsg m hm hparse
    obtain ⟨entry, hid, hst, hinc, _, hsaid⟩ := (hseen.view.net msg hmsg).member hm
    rw [hparse] at hid
    obtain ⟨hzero, hjoining⟩ := hsaid (Option.some.inj hid).symm
    rw [hst, hinc, hzero, hjoining]
    exact ⟨rfl, rfl⟩
  · intro id n hn entry hentry hx
    obtain ⟨hlook, _, hst⟩ := MembershipTable.mem_routablePeers.mp hentry
    rw [hx] at hlook
    rw [(hseen.entry hn hlook).1] at hst
    cases hst
  · intro n hn
    exact NodeSys.isSelfJoining_of_version (hseen.self n hn)

/-- Node 2 joins through an address it knows as node 3, and tells node 1. -/
def introductionRun : List ClusterEvent :=
  let listing : List MemberEntry :=
    [⟨⟨⟨3⟩, "10.0.0.1:5001"⟩, .alive, 0, 0⟩, ⟨⟨⟨2⟩, ""⟩, .joining, 0, 0⟩]
  [.start 0 ⟨1⟩ [], .start 0 ⟨2⟩ [⟨⟨3⟩, "10.0.0.1:5001"⟩], .send ⟨2⟩ 5 listing,
    .node ⟨1⟩ (.gossip (.receive 6 (fun _ => ⟨0⟩)
      (buildGossipMessage (.hyphenated fun _ => 0) 5 ⟨2⟩ listing)))]

theorem joining_seen_everywhere_introductionRun :
    ∃ s n entry, Trace.exec (step (.hyphenated fun _ => 0) []) (init ⟨.new, .new⟩)
        introductionRun = some s
      ∧ s.nodes ⟨1⟩ = some n ∧ n.table.members.lookup ⟨2⟩ = some entry
      ∧ entry.status = .joining ∧ entry.incarnation = 0 := by
  obtain ⟨s, hrun⟩ : ∃ s, Trace.exec (step (.hyphenated fun _ => 0) []) (init ⟨.new, .new⟩)
      introductionRun = some s := ⟨_, rfl⟩
  obtain ⟨n, entry, hn, hlook⟩ : ∃ n entry, s.nodes ⟨1⟩ = some n
      ∧ n.table.members.lookup ⟨2⟩ = some entry := by
    cases hrun
    exact ⟨_, _, rfl, rfl⟩
  refine ⟨s, n, entry, hrun, hn, hlook, ?_⟩
  refine (joining_seen_everywhere _ [] _ ⟨2⟩ hrun ?_ ?_).1 ⟨1⟩ n entry hn hlook
  · simp [introductionRun, FreshFor]
  · simp [introductionRun]

end Cluster

end SelfHealingCache
