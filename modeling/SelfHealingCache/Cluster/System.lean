import SelfHealingCache.Node.Process
import SelfHealingCache.Router.Gossip

/-!
# The cluster

Any number of node processes, the router, and the gossip messages
between them. The network is the list of ALL messages ever sent: a
message in it may be delivered to anyone, at any time, any number of
times or never, so delay, reordering, duplication and loss need no events
of their own. A node id is started at most once (no restart under the
same id).

`seeded` is a GHOST: the ids that were made up for seed addresses.

`View Q` says that a property of entries holds in every table (but of a
node's entry for itself) and in every message; `View.move` is the one
induction step behind every result about what the cluster believes.
-/

namespace SelfHealingCache

structure Cluster where
  nodes : NodeId → Option NodeSys
  /-- Every message ever sent. -/
  net : List GossipMessage
  router : RouterSys
  /-- Ghost: the ids given to seed addresses. -/
  seeded : List NodeId

inductive ClusterEvent where
  | start (now : Instant) (id : NodeId) (seedNodes : List NodeInfo)
  | node (id : NodeId) (e : NodeEvent)
  /-- Node `id` builds a message, as a request or as a reply. -/
  | send (id : NodeId) (now : Instant) (listing : List MemberEntry)
  | router (e : RouterEvent)

namespace Cluster

def init (r : Router) : Cluster := ⟨fun _ => none, [], .start r, []⟩

/-- What a process merges comes from the network. -/
def hears (s : Cluster) : NodeEvent → Prop
  | .gossip (.receive _ _ msg) => msg ∈ s.net
  | _ => True

instance (s : Cluster) (e : NodeEvent) : Decidable (s.hears e) :=
  match e with
  | .gossip (.receive _ _ _) => inferInstanceAs (Decidable (_ ∈ _))
  | .gossip (.touch _ _) => isTrue trivial
  | .gossip (.sweepBegin _ _) => isTrue trivial
  | .gossip .sweepNext => isTrue trivial
  | .purge _ => isTrue trivial
  | .call _ _ => isTrue trivial
  | .advance _ _ => isTrue trivial
  | .rebalance _ => isTrue trivial

/-- So does what the router observes. -/
def observes (s : Cluster) : RouterEvent → Prop
  | .respond members => members ∈ s.net.map (·.members)
  | _ => True

instance (s : Cluster) (e : RouterEvent) : Decidable (s.observes e) :=
  match e with
  | .respond _ => inferInstanceAs (Decidable (_ ∈ _))
  | .nextMember => isTrue trivial
  | .nextUpdate => isTrue trivial
  | .heartbeat _ _ => isTrue trivial

def step (X : Crates) (monitored : List NodeId) (s : Cluster) : ClusterEvent → Option Cluster
  | .start now id seedNodes =>
      match s.nodes id with
      | none =>
          some { s with
            nodes := Function.update s.nodes id (some (.start now id seedNodes))
            seeded := seedNodes.map (·.id) ++ s.seeded }
      | some _ => none
  | .node id e =>
      match s.nodes id with
      | none => none
      | some n =>
          if s.hears e
          then (n.step X e).map fun n' =>
            { s with nodes := Function.update s.nodes id (some n') }
          else none
  | .send id now listing =>
      match s.nodes id with
      | none => none
      | some n =>
          if Lists n.table listing
          then some { s with net := buildGossipMessage X now n.table.localId listing :: s.net }
          else none
  | .router e =>
      if s.observes e
      then (s.router.step X monitored e).map fun r => { s with router := r } else none

/-- The moves of the cluster. -/
inductive Move (X : Crates) (monitored : List NodeId) (s : Cluster) :
    ClusterEvent → Cluster → Prop where
  | start (now : Instant) {id : NodeId} (seedNodes : List NodeInfo) (hfree : s.nodes id = none) :
      Move X monitored s (.start now id seedNodes) { s with
        nodes := Function.update s.nodes id (some (.start now id seedNodes))
        seeded := seedNodes.map (·.id) ++ s.seeded }
  | node {id : NodeId} {e : NodeEvent} {n n' : NodeSys} (hn : s.nodes id = some n)
      (hears : s.hears e) (hmove : NodeSys.NodeMove X n e n') :
      Move X monitored s (.node id e)
        { s with nodes := Function.update s.nodes id (some n') }
  | send {id : NodeId} (now : Instant) {listing : List MemberEntry} {n : NodeSys}
      (hn : s.nodes id = some n) (hlist : Lists n.table listing) :
      Move X monitored s (.send id now listing)
        { s with net := buildGossipMessage X now n.table.localId listing :: s.net }
  | router {e : RouterEvent} {r : RouterSys} (hobs : s.observes e)
      (hstep : s.router.step X monitored e = some r) :
      Move X monitored s (.router e) { s with router := r }

theorem move_of_step {X : Crates} {monitored : List NodeId} {s t : Cluster} {e : ClusterEvent}
    (h : s.step X monitored e = some t) : Move X monitored s e t := by
  cases e with
  | start now id seedNodes =>
      simp only [step] at h
      split at h
      · rename_i hfree
        cases h
        exact .start now seedNodes hfree
      · cases h
  | node id e =>
      simp only [step] at h
      split at h
      · cases h
      · rename_i n hn
        split_ifs at h with hears
        obtain ⟨n', hn', rfl⟩ := Option.map_eq_some_iff.mp h
        exact .node hn hears (NodeSys.move_of_step hn')
  | send id now listing =>
      simp only [step] at h
      split at h
      · cases h
      · rename_i n hn
        split_ifs at h with hlist
        cases h
        exact .send now hn hlist
  | router e =>
      simp only [step] at h
      split_ifs at h with hobs
      obtain ⟨r, hr, rfl⟩ := Option.map_eq_some_iff.mp h
      exact .router hobs hr

end Cluster

/-! ## What a process step does to the table -/

namespace NodeSys

/-- What a node knows of others when it starts. -/
theorem others_start (now : Instant) (id : NodeId) (seeds : List NodeInfo) :
    (start now id seeds).table.Others fun j e =>
      e.incarnation = 0 ∧ e.status = .alive ∧ j ∈ seeds.map (·.id) := by
  intro j e hj hlook
  have hlocal : (start now id seeds).table.localId = id :=
    MembershipTable.localId_new now id seeds
  rw [hlocal] at hj
  obtain ⟨hinc, ⟨hself, _⟩ | ⟨_, hst, hmem⟩⟩ := MembershipTable.lookup_new hlook
  · exact absurd hself hj
  · exact ⟨hinc, hst, hmem⟩

theorem NodeMove.table_cases {X : Crates} {n n' : NodeSys} {e : NodeEvent}
    (h : NodeMove X n e n') :
    n'.table = n.table
    ∨ (∃ ge, e = .gossip ge ∧ n.gossip.step X ge = some n'.gossip)
    ∨ (e = .rebalance .markAlive ∧ n'.table = n.table.markSelfAlive) := by
  cases h with
  | @gossip ge g hg => exact .inr (.inl ⟨ge, rfl, hg⟩)
  | purge now => exact .inl rfl
  | call req hfree => exact .inl rfl
  | advance htask hmove => exact .inl rfl
  | rebalance hre =>
      cases hre with
      | markAlive hphase => exact .inr (.inr ⟨rfl, rfl⟩)
      | _ => exact .inl rfl

theorem NodeMove.localId {X : Crates} {n n' : NodeSys} {e : NodeEvent} (h : NodeMove X n e n') :
    n'.table.localId = n.table.localId := by
  rcases h.table_cases with heq | ⟨ge, _, hg⟩ | ⟨_, heq⟩
  · rw [heq]
  · exact GossipNode.localId_step hg
  · rw [heq, MembershipTable.localId_markSelfAlive]

theorem NodeMove.others {Q : NodeId → MemberEntry → Prop} (rule : EntryRule Q) {X : Crates}
    {n n' : NodeSys} {e : NodeEvent} (hmove : NodeMove X n e n') (h : n.table.Others Q)
    (hmsg : ∀ now fresh msg, e = .gossip (.receive now fresh msg) →
      ∀ r ∈ decodeMembers X fresh msg.members, Q r.nodeId (r.toMember now)) :
    n'.table.Others Q := by
  rcases hmove.table_cases with heq | ⟨ge, rfl, hg⟩ | ⟨_, heq⟩
  · rw [heq]
    exact h
  · refine rule.others_step hg h fun now fresh msg he r hr _ => ?_
    rw [he] at hmsg
    exact hmsg now fresh msg rfl r hr
  · rw [heq]
    exact h.markSelfAlive

end NodeSys

/-! ## Messages nodes build -/

/-- The message was built from a listing whose entries all satisfy `Q`. -/
def Built (X : Crates) (Q : NodeId → MemberEntry → Prop) (msg : GossipMessage) : Prop :=
  ∃ now localId listing, msg = buildGossipMessage X now localId listing
    ∧ ∀ e ∈ listing, Q e.info.id e

theorem Built.mono {X : Crates} {Q Q' : NodeId → MemberEntry → Prop}
    (hQ : ∀ id e, Q id e → Q' id e) {msg : GossipMessage} (h : Built X Q msg) :
    Built X Q' msg := by
  obtain ⟨now, localId, listing, rfl, hlisting⟩ := h
  exact ⟨now, localId, listing, rfl, fun e he => hQ _ e (hlisting e he)⟩

/-- Every entry on the wire is some entry of the listing, encoded. -/
theorem Built.member {X : Crates} {Q : NodeId → MemberEntry → Prop} {msg : GossipMessage}
    (h : Built X Q msg) {m : ProtoMemberEntry} (hm : m ∈ msg.members) :
    ∃ e, X.parse m.nodeId = some e.info.id ∧ MemberStatus.ofProto m.status = some e.status
      ∧ m.incarnation = e.incarnation ∧ m.addr = e.info.addr ∧ Q e.info.id e := by
  obtain ⟨now, localId, listing, rfl, hlisting⟩ := h
  obtain ⟨e, he, rfl⟩ := List.mem_map.mp hm
  refine ⟨e, ?_, ?_, rfl, rfl, hlisting e he⟩
  · simp [encodeMember, X.parse_display]
  · simp [encodeMember]

/-- Every entry decoded from it is an entry of the listing. -/
theorem Built.decoded {X : Crates} {Q : NodeId → MemberEntry → Prop} {msg : GossipMessage}
    (h : Built X Q msg) {fresh : Nat → NodeId} {r : RemoteEntry}
    (hr : r ∈ decodeMembers X fresh msg.members) :
    ∃ e, r = e.toRemote ∧ Q e.info.id e ∧ ∃ m ∈ msg.members, X.parse m.nodeId = some r.nodeId := by
  obtain ⟨now, localId, listing, rfl, hlisting⟩ := h
  rw [buildGossipMessage, decodeMembers_encode] at hr
  obtain ⟨e, he, rfl⟩ := List.mem_map.mp hr
  refine ⟨e, rfl, hlisting e he, encodeMember X now e, List.mem_map_of_mem he, ?_⟩
  simp [encodeMember, X.parse_display, MemberEntry.toRemote]

/-! ## Views -/

/-- A property of entries that does not look at the address or at
`lastSeen` survives the wire. -/
structure WireRule (Q : NodeId → MemberEntry → Prop) : Prop extends EntryRule Q where
  wire : ∀ e now, Q e.info.id e → Q e.info.id (e.toRemote.toMember now)

/-- A property of the id alone certainly does. -/
theorem WireRule.of_id (P : NodeId → Prop) : WireRule fun id _ => P id where
  touch _ _ _ h := h
  suspect _ _ _ h := h
  dead _ _ _ h := h
  wire _ _ h := h

namespace Cluster

/-- `Q` holds of every entry about somebody else in every table, and of
every entry of every message. -/
structure View (X : Crates) (Q : NodeId → MemberEntry → Prop) (s : Cluster) : Prop where
  localIds : ∀ id n, s.nodes id = some n → n.table.localId = id
  others : ∀ id n, s.nodes id = some n → n.table.Others Q
  net : ∀ msg ∈ s.net, Built X Q msg

theorem View.mono {X : Crates} {Q Q' : NodeId → MemberEntry → Prop} {s : Cluster}
    (h : s.View X Q) (hQ : ∀ id e, Q id e → Q' id e) : s.View X Q' where
  localIds := h.localIds
  others id n hn j e hj he := hQ j e (h.others id n hn j e hj he)
  net msg hmsg := (h.net msg hmsg).mono hQ

theorem view_init (X : Crates) (Q : NodeId → MemberEntry → Prop) (r : Router) :
    (init r).View X Q where
  localIds id n hn := by cases hn
  others id n hn := by cases hn
  net msg hmsg := by simp [init] at hmsg

/-- A property of all processes, after one of them has moved. -/
theorem forall_nodes_update {P : NodeId → NodeSys → Prop} {nodes : NodeId → Option NodeSys}
    (h : ∀ id n, nodes id = some n → P id n) {i : NodeId} {moved : NodeSys} (hmoved : P i moved) :
    ∀ id n, Function.update nodes i (some moved) id = some n → P id n := by
  intro id n hn
  by_cases hid : id = i
  · rw [hid, Function.update_self] at hn
    cases hn
    rw [hid]
    exact hmoved
  · rw [Function.update_of_ne hid] at hn
    exact h id n hn

/-- A property of entries stays true everywhere when it holds of the
seeds a node starts with and of every node's entry for itself, survives
the wire, and survives what a process does to its table. -/
theorem View.move_of {X : Crates} {monitored : List NodeId} {Q : NodeId → MemberEntry → Prop}
    {s t : Cluster} {e : ClusterEvent} (h : s.View X Q) (hmove : Move X monitored s e t)
    (hwire : ∀ entry now, Q entry.info.id entry →
      Q entry.info.id (entry.toRemote.toMember now))
    (hseed : ∀ now id seeds, e = .start now id seeds → ∀ j ∈ seeds.map (·.id), ∀ entry,
      entry.incarnation = 0 → entry.status = .alive → Q j entry)
    (hown : ∀ id n, s.nodes id = some n → Q id n.table.localEntry)
    (hnode : ∀ id ne n n', e = .node id ne → s.nodes id = some n → NodeSys.NodeMove X n ne n' →
      (∀ now fresh msg, ne = .gossip (.receive now fresh msg) →
        ∀ r ∈ decodeMembers X fresh msg.members, Q r.nodeId (r.toMember now)) →
      n'.table.Others Q) : t.View X Q := by
  cases hmove with
  | @start now id seeds hfree =>
      refine ⟨forall_nodes_update h.localIds (MembershipTable.localId_new now id seeds),
        forall_nodes_update h.others ?_, h.net⟩
      intro j entry hj hlook
      obtain ⟨hinc, hst, hmem⟩ := NodeSys.others_start now id seeds j entry hj hlook
      exact hseed now id seeds rfl j hmem entry hinc hst
  | @node id ne n n' hn hears hmove =>
      refine ⟨forall_nodes_update h.localIds (hmove.localId.trans (h.localIds id n hn)),
        forall_nodes_update h.others (hnode id ne n n' rfl hn hmove ?_), h.net⟩
      intro now fresh msg he r hr
      rw [he] at hears
      obtain ⟨entry, rfl, hQ, _⟩ := (h.net msg hears).decoded hr
      exact hwire entry now hQ
  | @send id now listing n hn hlist =>
      refine ⟨h.localIds, h.others, fun msg hmsg => ?_⟩
      rcases List.mem_cons.mp hmsg with rfl | hmsg
      · refine ⟨now, n.table.localId, listing, rfl, fun entry hentry => ?_⟩
        have hlook := hlist.mem.mp hentry
        by_cases hself : entry.info.id = n.table.localId
        · rw [hself] at hlook ⊢
          rw [← MembershipTable.localEntry_eq hlook, h.localIds id n hn]
          exact hown id n hn
        · exact h.others id n hn _ entry hself hlook
      · exact h.net msg hmsg
  | router hobs hstep => exact ⟨h.localIds, h.others, h.net⟩

/-- **The view rule**, for a property the timeout sweep respects. -/
theorem View.move {X : Crates} {monitored : List NodeId} {Q : NodeId → MemberEntry → Prop}
    (rule : WireRule Q) {s t : Cluster} {e : ClusterEvent} (h : s.View X Q)
    (hmove : Move X monitored s e t)
    (hseed : ∀ now id seeds, e = .start now id seeds → ∀ j ∈ seeds.map (·.id), ∀ entry,
      entry.incarnation = 0 → entry.status = .alive → Q j entry)
    (hown : ∀ id n, s.nodes id = some n → Q id n.table.localEntry) : t.View X Q := by
  refine h.move_of hmove rule.wire hseed hown ?_
  intro id ne n n' _ hn hnode hmsg
  exact hnode.others rule.toEntryRule (h.others id n hn) hmsg

end Cluster

end SelfHealingCache
