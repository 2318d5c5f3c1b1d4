import SelfHealingCache.Cluster.Authenticity
import SelfHealingCache.Cluster.Healing
import SelfHealingCache.Cluster.Suspicion
import SelfHealingCache.Lib.Causality

/-!
# How news spreads

What is known about a node `x` sits in the tables and in the messages:
a message takes over what its sender held, and who merges it joins it
into what it holds. With `Flows` for these two events the rules of
`Lib.Causality` apply to whole runs, with any delay, reordering,
duplication and loss: what is held somewhere is held wherever a chain of
messages leads (`news_spreads`), and as long as nothing new happens about
`x`, what a node holds is the greatest of what its causal past held and
nothing else (`gossip_joins_the_past`).

`x` itself is the one node that does not join what it hears about `x`, so
no flow leads to it; its own version only grows, as long as its
incarnation does not wrap.
-/

namespace SelfHealingCache

/-! ## What a message says -/

/-- What a message says about `x`. -/
def told (X : Crates) (x : NodeId) (msg : GossipMessage) : WithBot Version :=
  JoinFold.reported ((decodeMembers X (fun _ => x) msg.members).map RemoteEntry.item) x

theorem told_listing {X : Crates} {t : MembershipTable} {now : Instant} {l : List MemberEntry}
    (h : Lists t l) (id x : NodeId) : told X x (buildGossipMessage X now id l) = t.held x := by
  rw [told, buildGossipMessage, decodeMembers_encode]
  exact reported_listing h x

/-- The ids a decoder would draw do not matter in a message that was
built by a node. -/
theorem told_eq {X : Crates} {Q : NodeId → MemberEntry → Prop} {msg : GossipMessage}
    (h : Built X Q msg) (x : NodeId) (fresh : Nat → NodeId) :
    JoinFold.reported ((decodeMembers X fresh msg.members).map RemoteEntry.item) x
      = told X x msg := by
  obtain ⟨now, id, listing, rfl, _⟩ := h
  rw [told, buildGossipMessage, decodeMembers_encode, decodeMembers_encode]

namespace Cluster

variable {X : Crates} {monitored : List NodeId} {r : Router} {x : NodeId}

/-! ## Places and flows -/

/-- Where something about a node can be known. -/
inductive Place where
  | node (id : NodeId)
  | message (msg : GossipMessage)

/-- A message takes over what its sender holds, and a node other than `x`
what a message it merges says. -/
inductive Flows (X : Crates) (x : NodeId) : ClusterEvent → Place → Place → Prop where
  | send (id : NodeId) (now : Instant) (listing : List MemberEntry) :
      Flows X x (.send id now listing) (.node id)
        (.message (buildGossipMessage X now id listing))
  | receive {id : NodeId} (hid : id ≠ x) (now : Instant) (fresh : Nat → NodeId)
      (msg : GossipMessage) :
      Flows X x (.node id (.gossip (.receive now fresh msg))) (.message msg) (.node id)

/-- What a place knows about `x`. -/
def know (X : Crates) (x : NodeId) (s : Cluster) : Place → WithBot Version
  | .node id => s.view id x
  | .message msg => if msg ∈ s.net then told X x msg else ⊥

/-- Every message was built by a node and every process has its own id. -/
def WellBuilt (X : Crates) (s : Cluster) : Prop := s.View X fun _ _ => True

theorem wellBuilt_step {s t : Cluster} {e : ClusterEvent} (h : s.WellBuilt X)
    (hstep : s.step X monitored e = some t) : t.WellBuilt X :=
  h.move (WireRule.of_id fun _ => True) (move_of_step hstep) (fun _ _ _ _ _ _ _ _ _ => trivial)
    fun _ _ _ => trivial

theorem wellBuilt_exec {es : List ClusterEvent} {s : Cluster}
    (hrun : Trace.exec (step X monitored) (init r) es = some s) : s.WellBuilt X :=
  Trace.exec_invariant (C := fun _ _ => True) (fun _ _ _ hs _ hstep => wellBuilt_step hs hstep)
    (view_init X _ r) (Trace.along_of_forall (fun _ _ => trivial) _) hrun

theorem view_update {s t : Cluster} {i : NodeId} {n : NodeSys}
    (h : t.nodes = Function.update s.nodes i (some n)) (a w : NodeId) :
    t.view a w = if a = i then n.table.held w else s.view a w := by
  rw [view, h]
  by_cases ha : a = i
  · rw [ha, Function.update_self, if_pos rfl]
  · rw [Function.update_of_ne ha, if_neg ha, view]

/-- Merging a message joins what it says. -/
theorem held_receive {s : Cluster} (hbuilt : s.WellBuilt X) {id : NodeId} {n n' : NodeSys}
    {now : Instant} {fresh : Nat → NodeId} {msg : GossipMessage} (hn : s.nodes id = some n)
    (hid : id ≠ x) (hmsg : msg ∈ s.net)
    (hnode : NodeSys.NodeMove X n (.gossip (.receive now fresh msg)) n') :
    n'.table.held x = n.table.held x ⊔ told X x msg := by
  have htable : n'.table = n.table.merge now (decodeMembers X fresh msg.members) := by
    cases hnode with
    | gossip hg => cases hg; rfl
  rw [htable, MembershipTable.held_merge, told_eq (hbuilt.net msg hmsg)]
  intro r _
  right
  rw [hbuilt.localIds id n hn]
  exact Ne.symm hid

/-- The step does not take back what `x` says of itself. -/
def OwnKept (X : Crates) (monitored : List NodeId) (x : NodeId) (s : Cluster) (e : ClusterEvent) :
    Prop :=
  ∀ t, s.step X monitored e = some t → s.view x x ≤ t.view x x

/-- **News spreads.** -/
theorem spreads_news (X : Crates) (monitored : List NodeId) (x : NodeId) :
    Causality.Spreads (step X monitored) (Flows X x) (know X x)
      fun s e => s.WellBuilt X ∧ OwnKept X monitored x s e where
  keep s e t p hC hstep := by
    cases p with
    | message msg =>
        -- a message stays on the network: it may be delivered again
        have hnet : msg ∈ s.net → msg ∈ t.net := by
          intro hmsg
          cases move_of_step hstep with
          | send now hn hlist => exact List.mem_cons_of_mem _ hmsg
          | _ => exact hmsg
        rw [know, know]
        by_cases hmsg : msg ∈ s.net
        · rw [if_pos hmsg, if_pos (hnet hmsg)]
        · rw [if_neg hmsg]
          exact bot_le
    | node id =>
        show s.view id x ≤ t.view id x
        by_cases hid : id = x
        · rw [hid]
          exact hC.2 t hstep
        -- a table only moves up in what it holds of others
        · cases move_of_step hstep with
          | @start now i seeds hfree =>
              refine le_of_le_of_eq ?_ (view_update (s := s) (i := i) rfl id x).symm
              split_ifs with hi
              · simp [view, hi, hfree]
              · exact le_rfl
          | @node i ne n n' hn hears hnode =>
              refine le_of_le_of_eq ?_ (view_update (s := s) (i := i) rfl id x).symm
              split_ifs with hi
              · rw [hi, view_of_node hn]
                apply hnode.advances.held
                rw [hC.1.localIds i n hn, ← hi]
                exact Ne.symm hid
              · exact le_rfl
          | send now hn hlist => exact le_rfl
          | router hobs hstep => exact le_rfl
  flow s e t p q hC hstep hflow := by
    cases hflow with
    | send id now listing =>
        cases move_of_step hstep with
        | @send _ _ _ n hn hlist =>
            rw [know, know, hC.1.localIds id n hn, if_pos List.mem_cons_self, told_listing hlist,
              view_of_node hn]
    | @receive id hid now fresh msg =>
        cases move_of_step hstep with
        | @node _ _ n n' hn hears hnode =>
            have hmsg : msg ∈ s.net := hears
            rw [know, know, if_pos hmsg, view_update rfl, if_pos rfl,
              held_receive hC.1 hn hid hmsg hnode]
            exact le_sup_right

/-! ## The node itself -/

/-- The version a node holds of itself only grows, if its incarnation
does. -/
theorem view_self_step {s t : Cluster} {e : ClusterEvent} (hbuilt : s.WellBuilt X)
    (htrust : s.SelfTrusting) (hown : t.own x = s.own x ∨ s.own x < t.own x)
    (hstep : s.step X monitored e = some t) : s.view x x ≤ t.view x x := by
  cases hs : s.nodes x with
  | none => simp [view, hs]
  | some n =>
      obtain ⟨n', hn', hadv⟩ : ∃ n', t.nodes x = some n' ∧ Advances n.table n'.table := by
        cases move_of_step hstep with
        | @start now i seeds hfree =>
            have hi : x ≠ i := by
              rintro rfl
              rw [hs] at hfree
              cases hfree
            exact ⟨n, (Function.update_of_ne hi _ _).trans hs, .refl _⟩
        | @node i ne m m' hm hears hnode =>
            by_cases hi : x = i
            · subst hi
              obtain rfl : n = m := Option.some.inj (hs.symm.trans hm)
              exact ⟨m', Function.update_self .., hnode.advances⟩
            · exact ⟨n, (Function.update_of_ne hi _ _).trans hs, .refl _⟩
        | send now hm hlist => exact ⟨n, hs, .refl _⟩
        | router hobs hr => exact ⟨n, hs, .refl _⟩
      have hlocal := hbuilt.localIds x n hs
      -- both tables hold an entry of `x` itself: compare the two
      have hlook : n.table.members.lookup x = some n.table.localEntry := by
        rw [← hlocal]
        exact n.table.lookup_localId
      have hlook' : n'.table.members.lookup x = some n'.table.localEntry := by
        have h := n'.table.lookup_localId
        rw [hadv.localId, hlocal] at h
        exact h
      rw [view_of_node hs, view_of_node hn', MembershipTable.held_eq hlook,
        MembershipTable.held_eq hlook', WithBot.coe_le_coe]
      rw [own_of_node hn', own_of_node hs] at hown
      rcases hown with hsame | hbump
      · refine Prod.Lex.toLex_mono ⟨le_of_eq hsame.symm, ?_⟩
        rcases hadv.status with halive | hst
        · have hfine := htrust x n hs
          show n.table.localEntry.status ≤ n'.table.localEntry.status
          rw [halive]
          revert hfine
          cases n.table.localEntry.status <;> decide
        · exact le_of_eq hst.symm
      · exact (Prod.Lex.toLex_lt_toLex.mpr (.inl hbump)).le

theorem selfTrusting_exec {es : List ClusterEvent} {s : Cluster}
    (hrun : Trace.exec (step X monitored) (init r) es = some s) : s.SelfTrusting :=
  Trace.exec_invariant (C := fun _ _ => True)
    (fun _ _ _ hs _ hstep => hs.move (move_of_step hstep)) (fun id n hn => by cases hn)
    (Trace.along_of_forall (fun _ _ => trivial) _) hrun

/-- While its incarnation does not wrap, no step takes back what `x` says
of itself. -/
theorem ownKept_along {past es : List ClusterEvent} {s : Cluster}
    (hpast : Trace.exec (step X monitored) (init r) past = some s)
    (hbumps : Trace.changes (step X monitored) (own x) (init r) (past ++ es) < 2 ^ 64) :
    Trace.Along (step X monitored)
      (fun s e => s.WellBuilt X ∧ OwnKept X monitored x s e) s es := by
  rw [Trace.along_iff_at]
  rintro pre e post u v rfl hpre hstep
  have hu : Trace.exec (step X monitored) (init r) (past ++ pre) = some u :=
    Trace.exec_append.mpr ⟨s, hpast, hpre⟩
  refine ⟨wellBuilt_exec hu, fun v' hv' => ?_⟩
  obtain rfl : v = v' := Option.some.inj (hstep.symm.trans hv')
  apply view_self_step (wellBuilt_exec hu) (selfTrusting_exec hu) ?_ hstep
  by_cases hsame : v.own x = u.own x
  · exact .inl hsame
  · -- this step is one of the counted changes
    have hcount : Trace.changes (step X monitored) (own x) (init r) (past ++ pre) + 1 < 2 ^ 64 := by
      rw [← List.append_assoc, Trace.changes_append hu, Trace.changes_cons hstep,
        if_neg hsame] at hbumps
      omega
    obtain ⟨hauth, hown⟩ := authenticCount_exec hu (Nat.lt_of_succ_lt hcount)
    have hwrap : (u.own x).toNat + 1 < 2 ^ 64 := by
      rw [hown]
      exact hcount
    right
    rw [(hauth.own_step (move_of_step hstep) hwrap).resolve_left hsame, UInt64.lt_iff_toNat_lt,
      U64.toNat_succ_of_lt hwrap]
    omega

/-- **News spreads along every chain of messages.** In a run in which `x`
changes its incarnation fewer than `2 ^ 64` times, whatever a node holds
of `x` at some moment is held, or something newer is, by every node a
chain of messages leads to from there: each sent by the node before it
and merged by the next after that, with anything in between, other than
through `x` itself. -/
theorem news_spreads (X : Crates) (monitored : List NodeId) (r : Router) (x : NodeId)
    {past es : List ClusterEvent} {s t : Cluster} {a b : NodeId}
    (hpast : Trace.exec (step X monitored) (init r) past = some s)
    (hrun : Trace.exec (step X monitored) s es = some t)
    (hbumps : Trace.changes (step X monitored) (own x) (init r) (past ++ es) < 2 ^ 64)
    (hreach : Causality.Reaches (Flows X x) es (.node a) (.node b)) :
    s.view a x ≤ t.view b x :=
  (spreads_news X monitored x).know_le_of_reaches hrun (ownKept_along hpast hbumps) hreach

/-- Node 2 has node 1 as its seed, node 3 has node 2. -/
def seedsStarted : List ClusterEvent :=
  [.start 0 ⟨2⟩ [⟨⟨1⟩, "a"⟩], .start 0 ⟨3⟩ [⟨⟨2⟩, "b"⟩]]

/-- Node 2 sends its table, node 3 merges it. -/
def seedPassedOn : List ClusterEvent :=
  let listing : List MemberEntry :=
    [⟨⟨⟨1⟩, "a"⟩, .alive, 0, 0⟩, ⟨⟨⟨2⟩, ""⟩, .joining, 0, 0⟩]
  [.send ⟨2⟩ 1 listing, .node ⟨3⟩ (.gossip (.receive 2 (fun _ => ⟨0⟩)
    (buildGossipMessage (.hyphenated fun _ => 0) 1 ⟨2⟩ listing)))]

/-- Node 3 then holds what node 2 held of node 1. -/
theorem news_spreads_seedPassedOn :
    ∃ s t, Trace.exec (step (.hyphenated fun _ => 0) []) (init ⟨.new, .new⟩) seedsStarted = some s
      ∧ Trace.exec (step (.hyphenated fun _ => 0) []) s seedPassedOn = some t
      ∧ s.view ⟨2⟩ ⟨1⟩ = (toLex (0, .alive) : Version) ∧ s.view ⟨3⟩ ⟨1⟩ = ⊥
      ∧ s.view ⟨2⟩ ⟨1⟩ ≤ t.view ⟨3⟩ ⟨1⟩ := by
  obtain ⟨s, t, hpast, hrun, hview, hnone⟩ : ∃ s t,
      Trace.exec (step (.hyphenated fun _ => 0) []) (init ⟨.new, .new⟩) seedsStarted = some s
      ∧ Trace.exec (step (.hyphenated fun _ => 0) []) s seedPassedOn = some t
      ∧ s.view ⟨2⟩ ⟨1⟩ = (toLex (0, .alive) : Version) ∧ s.view ⟨3⟩ ⟨1⟩ = ⊥ :=
    ⟨_, _, rfl, rfl, rfl, rfl⟩
  refine ⟨s, t, hpast, hrun, hview, hnone, ?_⟩
  refine news_spreads _ [] _ ⟨1⟩ hpast hrun
    (lt_of_le_of_lt (Trace.changes_le_length ..) (by decide)) ?_
  exact .inr ⟨_, .send .., .inr ⟨_, .receive (by decide) .., rfl⟩⟩

/-! ## Nothing but the past -/

/-- Nothing new happens about `x`: no node is started that is `x` or has
it as a seed, no sweep carries out a verdict on it, and it does not
change what it says of itself. -/
structure QuietAbout (X : Crates) (monitored : List NodeId) (x : NodeId) (s : Cluster)
    (e : ClusterEvent) : Prop where
  start : ∀ now id seeds, e = .start now id seeds → id ≠ x ∧ x ∉ seeds.map (·.id)
  verdict : ∀ w n now member rest, e = .node w (.gossip .sweepNext) → s.nodes w = some n →
    n.gossip.sweep = some (now, member :: rest) → member.info.id = x → verdict now member = none
  own : ∀ t, s.step X monitored e = some t → t.view x x = s.view x x

/-- A new node without `x` among its seeds knows nothing of it. -/
theorem held_start {now : Instant} {id : NodeId} {seeds : List NodeInfo} (hid : id ≠ x)
    (hseeds : x ∉ seeds.map (·.id)) : (NodeSys.start now id seeds).table.held x = ⊥ := by
  have htable : (NodeSys.start now id seeds).table = .new now id seeds := rfl
  rw [htable, MembershipTable.held]
  cases hlook : (MembershipTable.new now id seeds).members.lookup x with
  | none => rfl
  | some e =>
      obtain ⟨_, ⟨hself, _⟩ | ⟨_, _, hmem⟩⟩ := MembershipTable.lookup_new hlook
      · exact absurd hself.symm hid
      · exact absurd hmem hseeds

/-- What a step without a verdict on `x` and without a message does to
what a process holds of `x`. -/
theorem held_nodeMove {n n' : NodeSys} {e : NodeEvent} (hmove : NodeSys.NodeMove X n e n')
    (hx : x ≠ n.table.localId)
    (hreceive : ∀ now fresh msg, e ≠ .gossip (.receive now fresh msg))
    (hverdict : ∀ now member rest, e = .gossip .sweepNext →
      n.gossip.sweep = some (now, member :: rest) → member.info.id = x →
      SelfHealingCache.verdict now member = none) :
    n'.table.held x = n.table.held x := by
  rcases hmove.table_cases with heq | ⟨ge, rfl, hg⟩ | ⟨_, heq⟩
  · rw [heq]
  · show n'.gossip.table.held x = n.gossip.table.held x
    cases ge with
    | receive now fresh msg => exact absurd rfl (hreceive now fresh msg)
    | touch now id =>
        rw [← Option.some.inj hg]
        exact held_touch ..
    | sweepBegin now snapshot =>
        rw [GossipNode.step] at hg
        split_ifs at hg
        rw [← Option.some.inj hg]
    | sweepNext =>
        rw [GossipNode.step] at hg
        split at hg
        · rename_i now member rest hsweep
          rw [← Option.some.inj hg, MembershipTable.held, MembershipTable.held,
            lookup_sweepMember]
          split_ifs with hcond
          · have hnone := hverdict now member rest rfl hsweep hcond.1.symm
            have hid : judge now member = id := by
              funext e
              simp [judge, hnone]
            rw [hid, Option.map_id_fun, id]
          · rfl
        · rw [← Option.some.inj hg]
        · cases hg
  · rw [heq, MembershipTable.held, MembershipTable.held, MembershipTable.lookup_markSelfAlive,
      if_neg hx]

/-- What a message says, its sender held. -/
theorem source_message {s t : Cluster} {e : ClusterEvent} (hbuilt : s.WellBuilt X)
    (hstep : s.step X monitored e = some t) (msg : GossipMessage) :
    know X x t (.message msg) = know X x s (.message msg)
      ∨ ∃ p, Flows X x e p (.message msg) ∧ know X x t (.message msg) = know X x s p := by
  cases move_of_step hstep with
  | @send id now listing n hn hlist =>
      by_cases hnew : msg = buildGossipMessage X now n.table.localId listing
      · right
        have hlocal := hbuilt.localIds id n hn
        refine ⟨.node id, by rw [hnew, hlocal]; exact .send id now listing, ?_⟩
        rw [know, know, hnew, if_pos List.mem_cons_self, told_listing hlist, view_of_node hn]
      · left
        have hmem : msg ∈ buildGossipMessage X now n.table.localId listing :: s.net
            ↔ msg ∈ s.net := by simp [hnew]
        rw [know, know]
        simp only [hmem]
  | start now seeds hfree => exact .inl rfl
  | node hn hears hnode => exact .inl rfl
  | router hobs hr => exact .inl rfl

/-- What a process holds after a step, it or the message merged held. -/
theorem source_process {s : Cluster} {e : NodeEvent} {id : NodeId} (hbuilt : s.WellBuilt X)
    (hquiet : QuietAbout X monitored x s (.node id e)) {n n' : NodeSys} (hid : id ≠ x)
    (hn : s.nodes id = some n) (hears : s.hears e) (hnode : NodeSys.NodeMove X n e n') :
    n'.table.held x = know X x s (.node id)
      ∨ ∃ p, Flows X x (.node id e) p (.node id) ∧ n'.table.held x = know X x s p := by
  have hx : x ≠ n.table.localId := by
    rw [hbuilt.localIds id n hn]
    exact Ne.symm hid
  rw [know, view_of_node hn]
  by_cases hreceive : ∃ now fresh msg, e = .gossip (.receive now fresh msg)
  · obtain ⟨now, fresh, msg, rfl⟩ := hreceive
    have hmsg : msg ∈ s.net := hears
    rw [held_receive hbuilt hn hid hmsg hnode]
    -- the order is linear: the join is one of the two
    rcases le_total (told X x msg) (n.table.held x) with hle | hle
    · exact .inl (sup_of_le_left hle)
    · right
      refine ⟨.message msg, .receive hid now fresh msg, ?_⟩
      rw [know, if_pos hmsg]
      exact sup_of_le_right hle
  · left
    refine held_nodeMove hnode hx ?_ ?_
    · rintro now fresh msg rfl
      exact hreceive ⟨now, fresh, msg, rfl⟩
    · rintro now member rest rfl hsweep hmem
      exact hquiet.verdict id n now member rest rfl hn hsweep hmem

/-- **Gossip makes nothing up.** -/
theorem relays_news (X : Crates) (monitored : List NodeId) (x : NodeId) :
    Causality.Relays (step X monitored) (Flows X x) (know X x)
      fun s e => s.WellBuilt X ∧ QuietAbout X monitored x s e where
  keep s e t p hC hstep :=
    (spreads_news X monitored x).keep s e t p
      ⟨hC.1, fun t' ht' => (hC.2.own t' ht').symm.le⟩ hstep
  flow s e t p q hC hstep hflow :=
    (spreads_news X monitored x).flow s e t p q
      ⟨hC.1, fun t' ht' => (hC.2.own t' ht').symm.le⟩ hstep hflow
  source s e t q hC hstep := by
    obtain ⟨hbuilt, hquiet⟩ := hC
    cases q with
    | message msg => exact source_message hbuilt hstep msg
    | node id =>
        by_cases hid : id = x
        · left
          rw [hid]
          exact hquiet.own t hstep
        · cases move_of_step hstep with
          | @start now i seeds hfree =>
              left
              refine (view_update (s := s) (i := i) rfl id x).trans ?_
              split_ifs with hi
              -- a new process that is not `x` and has no seed `x` knows nothing
              · obtain ⟨hix, hseeds⟩ := hquiet.start now i seeds rfl
                rw [held_start hix hseeds, know, view, hi, hfree]
              · rfl
          | send now hn hlist => exact .inl rfl
          | router hobs hr => exact .inl rfl
          | @node i ne n n' hn hears hnode =>
              have hview := view_update (s := s) (t := { s with
                nodes := Function.update s.nodes i (some n') }) (i := i) rfl id x
              by_cases hi : id = i
              · subst hi
                rw [if_pos rfl] at hview
                rw [know, hview]
                exact source_process hbuilt hquiet hid hn hears hnode
              · left
                rw [if_neg hi] at hview
                exact hview

/-- **Gossip joins the past.** While nothing new happens about `x`, what
a node holds of it at the end is the greatest of what the places a chain
of messages leads from held at the beginning: tables and messages then in
flight. -/
theorem gossip_joins_the_past (X : Crates) (monitored : List NodeId) (r : Router) (x : NodeId)
    {past es : List ClusterEvent} {s t : Cluster}
    (hpast : Trace.exec (step X monitored) (init r) past = some s)
    (hrun : Trace.exec (step X monitored) s es = some t)
    (hquiet : Trace.Along (step X monitored) (QuietAbout X monitored x) s es) (b : NodeId) :
    IsGreatest {v | ∃ p, Causality.Reaches (Flows X x) es p (.node b) ∧ know X x s p = v}
      (t.view b x) := by
  have hbuilt : Trace.Along (step X monitored) (fun s _ => s.WellBuilt X) s es :=
    Trace.along_of_throughout (Trace.throughout_of_along (C := fun _ _ => True)
      (fun _ _ _ hs _ hstep => wellBuilt_step hs hstep) (wellBuilt_exec hpast)
      (Trace.along_of_forall (fun _ _ => trivial) _))
  exact (relays_news X monitored x).isGreatest_know hrun (hbuilt.and hquiet) (.node b)

/-- While node 2's table travels, nothing new happens about node 1. -/
theorem gossip_joins_the_past_seedPassedOn :
    ∃ s t, Trace.exec (step (.hyphenated fun _ => 0) []) (init ⟨.new, .new⟩) seedsStarted = some s
      ∧ Trace.exec (step (.hyphenated fun _ => 0) []) s seedPassedOn = some t
      ∧ IsGreatest {v | ∃ p, Causality.Reaches (Flows (.hyphenated fun _ => 0) ⟨1⟩) seedPassedOn p
          (.node ⟨3⟩) ∧ know (.hyphenated fun _ => 0) ⟨1⟩ s p = v} (t.view ⟨3⟩ ⟨1⟩) := by
  obtain ⟨s, hpast, hself⟩ : ∃ s,
      Trace.exec (step (.hyphenated fun _ => 0) []) (init ⟨.new, .new⟩) seedsStarted = some s
      ∧ s.nodes ⟨1⟩ = none := ⟨_, rfl, rfl⟩
  obtain ⟨t, hrun⟩ : ∃ t, Trace.exec (step (.hyphenated fun _ => 0) []) s seedPassedOn
      = some t := by
    cases hpast
    exact ⟨_, rfl⟩
  refine ⟨s, t, hpast, hrun, gossip_joins_the_past _ [] _ ⟨1⟩ hpast hrun ?_ ⟨3⟩⟩
  cases hpast
  refine Trace.along_of_step rfl ⟨nofun, nofun, ?_⟩
    (Trace.along_of_step rfl ⟨nofun, nofun, ?_⟩ trivial)
  · intro t ht
    cases ht
    rfl
  · intro t ht
    cases ht
    rfl

end Cluster

end SelfHealingCache
