import SelfHealingCache.Cluster.Authenticity
import SelfHealingCache.Lib.PushPull
import SelfHealingCache.Node.Authority

/-!
# Healing after a partition

A refutation travels by gossip, and a node gossips with its
`alive_peers` only: whom it holds as Suspect or Dead it never contacts
again. So whether the running nodes find together after a partition
depends on the contacts that are left.

The views of the running nodes are a push-pull system with refutation: an
exchange between two processes is `Protocol.exchange` on the views
(`Exchanged.view_eq`), and refuting past an accusation is sound as long
as incarnations do not wrap. When the nodes can be GATHERED, group by group,
gossip rounds bring them all to hold each other as Alive; when they are
cut into two sides without a contact left, no rounds and timeouts ever
do.

A node in the middle of `check_timeouts` begins no round, and the verdicts
it has still to give are those of an old snapshot. So the contacts that
count for gathering are the ones left when it is through (`settle`).
-/

namespace SelfHealingCache

/-! ## Views as a push-pull system -/

/-- Refutation, and who may be contacted: `alive_peers` takes the Alive
and the Joining. -/
def gossipProtocol : PushPull.Protocol (WithBot Version) where
  refute own heard := own.map fun o => refuteHeard o heard
  contact v := ∃ inc, v = (toLex (inc, .alive) : Version) ∨ v = (toLex (inc, .joining) : Version)

namespace MembershipTable

/-- **A listing, merged, is a row merged.** -/
theorem held_merge_row {X : Crates} {t s : MembershipTable} {now sent : Instant}
    {fresh : Nat → NodeId} {l : List MemberEntry} (hl : Lists s l) :
    (t.merge now (decodeMembers X fresh (buildGossipMessage X sent s.localId l).members)).held
      = gossipProtocol.mergeRow t.localId t.held s.held := by
  funext w
  by_cases hw : w = t.localId
  · have hlocal := held_localId
      (t.merge now (decodeMembers X fresh (buildGossipMessage X sent s.localId l).members))
    rw [localId_merge] at hlocal
    rw [hw, PushPull.Protocol.mergeRow_self, hlocal, version_localEntry_merge_listing hl,
      held_localId]
    rfl
  · rw [PushPull.Protocol.mergeRow_of_ne hw]
    exact held_merge_listing hl hw

theorem contact_held {t : MembershipTable} {id : NodeId} :
    gossipProtocol.contact (t.held id)
      ↔ ∃ e, t.members.lookup id = some e ∧ (e.status = .alive ∨ e.status = .joining) := by
  constructor
  · rintro ⟨inc, h⟩
    rw [held] at h
    split at h
    · rename_i e he
      refine ⟨e, he, ?_⟩
      rcases h with h | h
      · exact .inl (MemberEntry.version_eq_iff.mp (WithBot.coe_inj.mp h)).2
      · exact .inr (MemberEntry.version_eq_iff.mp (WithBot.coe_inj.mp h)).2
    · rcases h with h | h <;> exact absurd h WithBot.bot_ne_coe
  · rintro ⟨e, he, hst⟩
    rw [held_eq he]
    refine ⟨e.incarnation, ?_⟩
    rcases hst with hst | hst
    · exact .inl (by rw [MemberEntry.version, hst])
    · exact .inr (by rw [MemberEntry.version, hst])

/-- **Whom a node may gossip with.** -/
theorem mem_alivePeers_iff {t : MembershipTable} {id : NodeId} :
    id ∈ t.alivePeers.map (·.info.id) ↔ id ≠ t.localId ∧ gossipProtocol.contact (t.held id) := by
  rw [contact_held, alivePeers, List.map_map, List.mem_map]
  constructor
  · rintro ⟨⟨j, e⟩, hmem, hid⟩
    obtain ⟨hentry, hcond⟩ := List.mem_filter.mp hmem
    have hlook : t.members.lookup j = some e := AList.mem_lookup_iff.mpr hentry
    have hj : j = id := by
      rw [← t.keyed j e hlook]
      exact hid
    subst hj
    simp only [decide_eq_true_eq] at hcond
    exact ⟨hcond.1, e, hlook, hcond.2⟩
  · rintro ⟨hne, e, hlook, hst⟩
    refine ⟨⟨id, e⟩, List.mem_filter.mpr ⟨AList.mem_lookup_iff.mp hlook, ?_⟩, t.keyed id e hlook⟩
    simp only [decide_eq_true_eq]
    exact ⟨hne, hst⟩

/-- A change of one entry leaves those to whom a node may gossip with as
they were, if it makes nobody Alive or Joining. -/
theorem held_of_map {t t' : MembershipTable} {id j : NodeId} {f : MemberEntry → MemberEntry}
    (hlookup : t'.members.lookup j
      = if j = id then (t.members.lookup j).map f else t.members.lookup j)
    (hf : ∀ e, (f e).status = .alive ∨ (f e).status = .joining → f e = e)
    (h : gossipProtocol.contact (t'.held j)) : t'.held j = t.held j := by
  obtain ⟨e, he, hst⟩ := contact_held.mp h
  have hsame : t.members.lookup j = some e := by
    rw [hlookup] at he
    split_ifs at he
    · obtain ⟨e', he', rfl⟩ := Option.map_eq_some_iff.mp he
      rw [hf e' hst, he']
    · exact he
  rw [held_eq he, held_eq hsame]

theorem held_markSuspect {t : MembershipTable} {id j : NodeId}
    (h : gossipProtocol.contact ((t.markSuspect id).2.held j)) :
    (t.markSuspect id).2.held j = t.held j := by
  refine held_of_map (lookup_markSuspect t id j) (fun e hst => ?_) h
  split_ifs at hst ⊢
  · simp at hst
  · rfl

theorem held_markDead {t : MembershipTable} {id j : NodeId}
    (h : gossipProtocol.contact ((t.markDead id).2.held j)) :
    (t.markDead id).2.held j = t.held j := by
  refine held_of_map (lookup_markDead t id j) (fun e hst => ?_) h
  split_ifs at hst ⊢
  · simp at hst
  · rfl

/-- The timeouts leave those as they were to whom one may still gossip
with. -/
theorem held_sweepMember {t : MembershipTable} {now : Instant} {member : MemberEntry} {j : NodeId}
    (h : gossipProtocol.contact ((sweepMember now t member).held j)) :
    (sweepMember now t member).held j = t.held j := by
  rcases sweepMember_cases now t member with heq | ⟨_, heq | heq⟩
  · rw [heq]
  · rw [heq] at h ⊢
    exact held_markSuspect h
  · rw [heq] at h ⊢
    exact held_markDead h

theorem held_checkTimeouts {t : MembershipTable} {now : Instant} {snapshot : List MemberEntry}
    {j : NodeId} (h : gossipProtocol.contact ((checkTimeouts t now snapshot).held j)) :
    (checkTimeouts t now snapshot).held j = t.held j := by
  induction snapshot generalizing t with
  | nil => rfl
  | cons member rest ih =>
      have hrest : (checkTimeouts t now (member :: rest)).held j
          = (sweepMember now t member).held j := ih h
      rw [hrest] at h ⊢
      exact held_sweepMember h

end MembershipTable

theorem not_contact_suspect (inc : UInt64) :
    ¬ gossipProtocol.contact (toLex (inc, .suspect) : Version) := by
  rintro ⟨inc', h | h⟩ <;> cases h

theorem not_contact_sup (p q : WithBot Version) (hp : ¬ gossipProtocol.contact p)
    (hq : ¬ gossipProtocol.contact q) : ¬ gossipProtocol.contact (p ⊔ q) := by
  rcases le_total p q with hle | hle
  · rwa [sup_of_le_right hle]
  · rwa [sup_of_le_left hle]

/-! ## Refuting is sound -/

/-- What node `x` may hold of itself, from incarnation `K x` on: it
refutes at most once. -/
def ownVersions (K : NodeId → UInt64) (x : NodeId) : Set (WithBot Version) :=
  {v | v = (toLex (K x, .alive) : Version) ∨ v = (toLex (K x + 1, .alive) : Version)}

/-- What may be said of `x` while it holds `o`: anything up to its first
incarnation, and nothing past `o`. -/
def knownVersions (K : NodeId → UInt64) (x : NodeId) (o : WithBot Version) :
    Set (WithBot Version) :=
  {v | v ≤ (toLex (K x, .dead) : Version) ∨ v ≤ o}

/-- Nothing that is said at or below an Alive version is refuted. -/
theorem refuteHeard_of_le {inc : UInt64} {h : WithBot Version}
    (hle : h ≤ (toLex (inc, MemberStatus.alive) : Version)) :
    refuteHeard (toLex (inc, .alive)) h = toLex (inc, .alive) := by
  induction h with
  | bot => rfl
  | coe v =>
      rw [refuteHeard_coe]
      apply if_neg
      rintro ⟨hacc, hinc⟩
      rcases Prod.Lex.le_iff.mp (WithBot.coe_le_coe.mp hle) with hlt | ⟨_, hst⟩
      · exact absurd hinc (not_le.mpr hlt)
      · -- the statuses up to Alive do not accuse
        have hst' : (ofLex v).2 ≤ MemberStatus.alive := hst
        revert hacc hst'
        cases (ofLex v).2 <;> decide

/-- What is said above the Alive version of an incarnation, and not of a
later one, is refuted past it. -/
theorem refuteHeard_of_lt {inc : UInt64} {h : WithBot Version}
    (hlt : (toLex (inc, MemberStatus.alive) : Version) < h)
    (hle : h ≤ (toLex (inc, MemberStatus.dead) : Version)) :
    refuteHeard (toLex (inc, .alive)) h = toLex (inc + 1, .alive) := by
  induction h with
  | bot => exact absurd hlt not_lt_bot
  | coe v =>
      have hinc : (ofLex v).1 = inc := by
        apply le_antisymm
        · exact Version.incarnation_le (WithBot.coe_le_coe.mp hle)
        · exact Version.incarnation_le (WithBot.coe_lt_coe.mp hlt).le
      have hst : MemberStatus.alive < (ofLex v).2 := by
        rcases Prod.Lex.lt_iff.mp (WithBot.coe_lt_coe.mp hlt) with hlt | ⟨_, hst⟩
        · exact absurd hinc (ne_of_gt hlt)
        · exact hst
      have hacc : (ofLex v).2.accuses := by
        revert hst
        cases (ofLex v).2 <;> decide
      rw [refuteHeard_coe, refuteVersion, if_pos ⟨hacc, hinc.ge⟩, hinc]

/-- The next incarnation is above everything said of this one. -/
theorem lt_next {inc : UInt64} (h : inc.toNat + 1 < 2 ^ 64) (st : MemberStatus) :
    (toLex (inc, st) : Version) < toLex (inc + 1, .alive) :=
  Version.lt_bump (v := toLex (inc, st)) h le_rfl _

/-- **The two answers of a node to a report about itself.** -/
theorem refute_cases {K : NodeId → UInt64} {x : NodeId} (hK : (K x).toNat + 1 < 2 ^ 64)
    {o h : WithBot Version} (ho : o ∈ ownVersions K x) (hh : h ∈ knownVersions K x o) :
    (h ≤ o ∧ gossipProtocol.refute o h = o)
    ∨ (o = (toLex (K x, .alive) : Version) ∧ h ≤ (toLex (K x, .dead) : Version)
      ∧ gossipProtocol.refute o h = (toLex (K x + 1, .alive) : Version)) := by
  by_cases hle : h ≤ o
  · left
    refine ⟨hle, ?_⟩
    rcases ho with rfl | rfl
    · exact congrArg WithBot.some (refuteHeard_of_le hle)
    · exact congrArg WithBot.some (refuteHeard_of_le hle)
  · have hdead : h ≤ (toLex (K x, .dead) : Version) := hh.resolve_right hle
    rcases ho with rfl | rfl
    · exact .inr ⟨rfl, hdead, congrArg WithBot.some (refuteHeard_of_lt (not_le.mp hle) hdead)⟩
    · exact absurd (le_trans hdead (WithBot.coe_le_coe.mpr (lt_next hK _).le)) hle

theorem sound_refutation {K : NodeId → UInt64} (hK : ∀ x, (K x).toNat + 1 < 2 ^ 64) :
    PushPull.Sound gossipProtocol (ownVersions K) (knownVersions K) where
  own_known x o := .inr le_rfl
  known_mono x o o' hle h hh := hh.imp id fun hho => le_trans hho hle
  sup_known x o p hp q hq := by
    rcases le_total p q with hle | hle
    · rwa [sup_of_le_right hle]
    · rwa [sup_of_le_left hle]
  contact_own x o ho := by
    rcases ho with rfl | rfl
    · exact ⟨_, .inl rfl⟩
    · exact ⟨_, .inl rfl⟩
  refute_own x o ho h hh := by
    rcases refute_cases (hK x) ho hh with ⟨_, hsame⟩ | ⟨_, _, hbump⟩
    · rwa [hsame]
    · exact .inr hbump
  sup_le_refute x o ho h hh := by
    rcases refute_cases (hK x) ho hh with ⟨hle, hsame⟩ | ⟨rfl, hdead, hbump⟩
    · rw [hsame]
      exact sup_le le_rfl hle
    · rw [hbump]
      exact sup_le (WithBot.coe_le_coe.mpr (lt_next (hK x) _).le)
        (le_trans hdead (WithBot.coe_le_coe.mpr (lt_next (hK x) _).le))
  refute_of_le x o ho h hle := by
    rcases refute_cases (hK x) ho (.inr hle) with ⟨_, hsame⟩ | ⟨rfl, _, _⟩
    · exact hsame
    · exact congrArg WithBot.some (refuteHeard_of_le hle)

/-! ## Rounds and timeouts -/

namespace Cluster

/-- What node `a` holds of `w`; nothing before it is started. -/
def view (s : Cluster) (a w : NodeId) : WithBot Version :=
  match s.nodes a with
  | some n => n.table.held w
  | none => ⊥

/-- The steps of a successful exchange from `a` to `b`: `a` lists its
table, `b` merges it and touches the sender, `b` answers with its own
listing, `a` touches the target and merges the answer. -/
def exchangeEvents (X : Crates) (a b : NodeId) (sent got back : Instant)
    (fresh fresh' : Nat → NodeId) (la lb : List MemberEntry) : List ClusterEvent :=
  [.send a sent la,
    .node b (.gossip (.receive got fresh (buildGossipMessage X sent a la))),
    .node b (.gossip (.touch got a)),
    .send b got lb,
    .node a (.gossip (.touch back b)),
    .node a (.gossip (.receive back fresh' (buildGossipMessage X got b lb)))]

section Healing

variable (X : Crates) (monitored : List NodeId)

/-- A successful exchange after `now`; at `later` it is over. -/
def Exchanged (a b : NodeId) (now later : Instant) (s t : Cluster) : Prop :=
  ∃ sent got fresh fresh' la lb, now ≤ sent ∧ sent ≤ got ∧ got ≤ later
    ∧ Trace.exec (step X monitored) s (exchangeEvents X a b sent got later fresh fresh' la lb)
      = some t

/-- The targets of a round, one after the other. -/
inductive Exchanges (a : NodeId) :
    List NodeId → (now later : Instant) → (s t : Cluster) → Prop where
  | nil {now : Instant} {s : Cluster} : Exchanges a [] now now s s
  | cons {b : NodeId} {targets : List NodeId} {now between later : Instant} {s u t : Cluster}
      (hfirst : Exchanged X monitored a b now between s u)
      (hrest : Exchanges a targets between later u t) :
      Exchanges a (b :: targets) now later s t

/-- `gossip_round` at `a`, every exchange successful: one to three members
of `alive_peers`, as they are when the round begins, all of them running.
The loop of a node is not in the middle of `check_timeouts` then. -/
def GossipRound (R : Finset NodeId) (a : NodeId) (now later : Instant) (s t : Cluster) : Prop :=
  ∃ n targets, s.nodes a = some n ∧ n.gossip.sweep = none
    ∧ targets ≠ [] ∧ targets.length ≤ 3 ∧ targets.Nodup
    ∧ (∀ b ∈ targets, b ∈ R ∧ b ∈ n.table.alivePeers.map (·.info.id))
    ∧ Exchanges X monitored a targets now later s t

/-- A step of `check_timeouts` at `a`. -/
def TimeoutStep (a : NodeId) (now later : Instant) (s t : Cluster) : Prop :=
  now ≤ later
  ∧ ((∃ snapshot, s.step X monitored (.node a (.gossip (.sweepBegin later snapshot))) = some t)
    ∨ s.step X monitored (.node a (.gossip .sweepNext)) = some t)

/-- What the running nodes do while the network works, and the clock with
them. -/
def HealStep (R : Finset NodeId) (p q : Instant × Cluster) : Prop :=
  ∃ a ∈ R, GossipRound X monitored R a p.1 q.1 p.2 q.2 ∨ TimeoutStep X monitored a p.1 q.1 p.2 q.2

/-- From `now` on, rounds and timeouts can bring every running node to
list every other as Alive. -/
def Healable (R : Finset NodeId) (now : Instant) (s : Cluster) : Prop :=
  ∃ later t, Relation.ReflTransGen (HealStep X monitored R) (now, s) (later, t)
    ∧ ∀ a ∈ R, ∀ b ∈ R, a ≠ b → ∃ inc, t.view a b = (toLex (inc, .alive) : Version)

end Healing

/-! ## An exchange, in the views -/

section Exchange

variable {X : Crates} {monitored : List NodeId} {s t : Cluster} {a b : NodeId} {now later : Instant}

/-- Every process keeps the id it was started under. -/
def Named (s : Cluster) : Prop := ∀ id n, s.nodes id = some n → n.table.localId = id

theorem view_of_node {n : NodeSys} (h : s.nodes a = some n) : s.view a = n.table.held := by
  funext w
  rw [view, h]

/-- The process with another table. -/
def withTable (n : NodeSys) (table : MembershipTable) : NodeSys :=
  { n with gossip := { n.gossip with table := table } }

/-- The cluster with another table at node `id`. -/
def setTable (s : Cluster) (id : NodeId) (n : NodeSys) (table : MembershipTable) : Cluster :=
  { s with nodes := Function.update s.nodes id (some (withTable n table)) }

theorem step_send_iff {n : NodeSys} (hn : s.nodes a = some n) {now : Instant}
    {l : List MemberEntry} :
    s.step X monitored (.send a now l) = some t
      ↔ Lists n.table l
        ∧ t = { s with net := buildGossipMessage X now n.table.localId l :: s.net } := by
  rw [step, hn]
  dsimp only
  split_ifs with hl
  · simp [hl, eq_comm]
  · simp [hl]

theorem step_receive_iff {n : NodeSys} (hn : s.nodes a = some n) {now : Instant}
    {fresh : Nat → NodeId} {msg : GossipMessage} :
    s.step X monitored (.node a (.gossip (.receive now fresh msg))) = some t
      ↔ msg ∈ s.net
        ∧ t = s.setTable a n (processGossipResponse X n.table now fresh msg) := by
  rw [step, hn]
  dsimp only
  by_cases hears : s.hears (.gossip (.receive now fresh msg))
  · rw [if_pos hears]
    exact ⟨fun h => ⟨hears, (Option.some.inj h).symm⟩, fun h => congrArg some h.2.symm⟩
  · rw [if_neg hears]
    exact ⟨fun h => (by cases h), fun h => absurd h.1 hears⟩

theorem step_touch_iff {n : NodeSys} (hn : s.nodes a = some n) {now : Instant} {id : NodeId} :
    s.step X monitored (.node a (.gossip (.touch now id))) = some t
      ↔ t = s.setTable a n (n.table.touch now id) := by
  have hears : s.hears (.gossip (.touch now id)) := trivial
  rw [step, hn]
  dsimp only
  rw [if_pos hears]
  exact ⟨fun h => (Option.some.inj h).symm, fun h => congrArg some h.symm⟩

theorem nodes_setTable {n : NodeSys} {table : MembershipTable} :
    (s.setTable a n table).nodes a = some (withTable n table) := Function.update_self ..

theorem nodes_setTable_of_ne {n : NodeSys} {table : MembershipTable} (h : b ≠ a) :
    (s.setTable a n table).nodes b = s.nodes b := Function.update_of_ne h _ _

/-- **What an exchange leaves at its two ends.** -/
theorem Exchanged.tables (h : Exchanged X monitored a b now later s t) (hnamed : s.Named)
    {na nb : NodeSys} (ha : s.nodes a = some na) (hb : s.nodes b = some nb) (hab : a ≠ b) :
    ∃ sent got back fresh fresh' la lb,
      let tb := (processGossipResponse X nb.table got fresh
        (buildGossipMessage X sent na.table.localId la)).touch got a
      let ta := processGossipResponse X (na.table.touch back b) back fresh'
        (buildGossipMessage X got tb.localId lb)
      Lists na.table la ∧ Lists tb lb ∧ t.nodes a = some (withTable na ta)
        ∧ t.nodes b = some (withTable nb tb) ∧ ∀ c, c ≠ a → c ≠ b → t.nodes c = s.nodes c := by
  obtain ⟨sent, got, fresh, fresh', la, lb, _, _, _, hexec⟩ := h
  simp only [exchangeEvents, Trace.exec_cons, Trace.exec_nil] at hexec
  obtain ⟨u₁, h₁, u₂, h₂, u₃, h₃, u₄, h₄, u₅, h₅, u₆, h₆, hend⟩ := hexec
  cases hend
  -- `b` is pushed the listing of `a`
  obtain ⟨hla, rfl⟩ := (step_send_iff ha).mp h₁
  obtain ⟨_, rfl⟩ := (step_receive_iff (n := nb) (by exact hb)).mp h₂
  obtain rfl := (step_touch_iff nodes_setTable).mp h₃
  -- and answers with its own
  obtain ⟨hlb, rfl⟩ := (step_send_iff nodes_setTable).mp h₄
  obtain rfl := (step_touch_iff (n := na) (by
    exact (nodes_setTable_of_ne hab).trans ((nodes_setTable_of_ne hab).trans ha))).mp h₅
  obtain ⟨_, rfl⟩ := (step_receive_iff nodes_setTable).mp h₆
  have hna := hnamed a na ha
  have hnb := hnamed b nb hb
  refine ⟨sent, got, later, fresh, fresh', la, lb, hla, ?_, ?_, ?_, ?_⟩
  · rw [hna]
    exact hlb
  · rw [hna, MembershipTable.localId_touch, processGossipResponse, MembershipTable.localId_merge,
      hnb]
    exact nodes_setTable
  · rw [nodes_setTable_of_ne hab.symm, nodes_setTable_of_ne hab.symm, hna]
    exact nodes_setTable
  · intro c hca hcb
    rw [nodes_setTable_of_ne hca, nodes_setTable_of_ne hca]
    exact (nodes_setTable_of_ne hcb).trans (nodes_setTable_of_ne hcb)

/-- Two processes can always be given an exchange, at any moment. -/
theorem exists_exchanged (hnamed : s.Named) {na nb : NodeSys} (ha : s.nodes a = some na)
    (hb : s.nodes b = some nb) (hab : a ≠ b) (now : Instant) :
    ∃ t, Exchanged X monitored a b now now s t := by
  let tb := (processGossipResponse X nb.table now (fun _ => ⟨0⟩)
    (buildGossipMessage X now a na.table.allMembers)).touch now a
  have htb : tb.localId = b := by
    show MembershipTable.localId (MembershipTable.touch _ _ _) = b
    rw [MembershipTable.localId_touch, processGossipResponse, MembershipTable.localId_merge,
      hnamed b nb hb]
  have hexec : ∃ t, Trace.exec (step X monitored) s (exchangeEvents X a b now now now
      (fun _ => ⟨0⟩) (fun _ => ⟨0⟩) na.table.allMembers tb.allMembers) = some t := by
    simp only [exchangeEvents, Trace.exec_cons, Trace.exec_nil]
    refine ⟨_, _, (step_send_iff ha).mpr ⟨List.Perm.refl _, rfl⟩,
      _, (step_receive_iff (n := nb) (by exact hb)).mpr ⟨?_, rfl⟩,
      _, (step_touch_iff nodes_setTable).mpr rfl,
      _, (step_send_iff nodes_setTable).mpr ⟨List.Perm.refl _, rfl⟩,
      _, (step_touch_iff (n := na) (by
        exact (nodes_setTable_of_ne hab).trans ((nodes_setTable_of_ne hab).trans ha))).mpr rfl,
      _, (step_receive_iff nodes_setTable).mpr ⟨?_, rfl⟩, rfl⟩
    · rw [hnamed a na ha]
      exact List.mem_cons_self
    · exact List.mem_cons.mpr (.inl (congrArg (buildGossipMessage X now · tb.allMembers) htb.symm))
  obtain ⟨t, hexec⟩ := hexec
  exact ⟨t, _, _, _, _, _, _, le_rfl, le_rfl, le_rfl, hexec⟩

/-- **An exchange of the cluster is an exchange of the views.** -/
theorem Exchanged.view_eq (h : Exchanged X monitored a b now later s t) (hnamed : s.Named)
    {na nb : NodeSys} (ha : s.nodes a = some na) (hb : s.nodes b = some nb) (hab : a ≠ b) :
    t.view = gossipProtocol.exchange s.view a b := by
  obtain ⟨sent, got, back, fresh, fresh', la, lb, hla, hlb, hta, htb, hother⟩ :=
    h.tables hnamed ha hb hab
  have hrowB : t.view b = gossipProtocol.mergeRow b (s.view b) (s.view a) := by
    rw [view_of_node htb, view_of_node hb, view_of_node ha, ← hnamed b nb hb]
    funext w
    exact (held_touch ..).trans (congrFun (MembershipTable.held_merge_row hla) w)
  have hrowA : t.view a = gossipProtocol.mergeRow a (s.view a) (t.view b) := by
    have htouch : (na.table.touch back b).held = na.table.held :=
      funext (held_touch na.table back b)
    have hid : (na.table.touch back b).localId = a := hnamed a na ha
    have hrow : (processGossipResponse X (na.table.touch back b) back fresh'
        (buildGossipMessage X got _ lb)).held = _ := MembershipTable.held_merge_row hlb
    rw [hid, htouch] at hrow
    rw [view_of_node hta, view_of_node htb, view_of_node ha]
    exact hrow
  funext c
  by_cases hca : c = a
  · rw [hca, PushPull.exchange_left, hrowA, hrowB]
  · by_cases hcb : c = b
    · rw [hcb, PushPull.exchange_right hab, hrowB]
    · rw [PushPull.exchange_other hca hcb]
      funext w
      rw [view, view, hother c hca hcb]

/-- The running nodes are started. -/
structure Started (R : Finset NodeId) (s : Cluster) : Prop where
  named : s.Named
  running : ∀ x ∈ R, ∃ n, s.nodes x = some n

/-- No running node is in the middle of `check_timeouts`. -/
def Idle (R : Finset NodeId) (s : Cluster) : Prop :=
  ∀ x ∈ R, ∀ n, s.nodes x = some n → n.gossip.sweep = none

/-- Every process after an exchange was one before, under the same id and
with the same sweep. -/
theorem Exchanged.node (h : Exchanged X monitored a b now later s t) (hnamed : s.Named)
    {na nb : NodeSys} (ha : s.nodes a = some na) (hb : s.nodes b = some nb) (hab : a ≠ b)
    {c : NodeId} {n' : NodeSys} (hn' : t.nodes c = some n') :
    ∃ n, s.nodes c = some n ∧ n'.table.localId = n.table.localId
      ∧ n'.gossip.sweep = n.gossip.sweep := by
  obtain ⟨sent, got, back, fresh, fresh', la, lb, _, _, hta, htb, hother⟩ :=
    h.tables hnamed ha hb hab
  by_cases hca : c = a
  · rw [hca, hta] at hn'
    cases hn'
    rw [hca]
    exact ⟨na, ha, MembershipTable.localId_merge .., rfl⟩
  · by_cases hcb : c = b
    · rw [hcb, htb] at hn'
      cases hn'
      rw [hcb]
      exact ⟨nb, hb, MembershipTable.localId_merge .., rfl⟩
    · rw [hother c hca hcb] at hn'
      exact ⟨n', hn', rfl, rfl⟩

theorem Exchanged.running (h : Exchanged X monitored a b now later s t) (hnamed : s.Named)
    {na nb : NodeSys} (ha : s.nodes a = some na) (hb : s.nodes b = some nb) (hab : a ≠ b)
    {c : NodeId} (hc : ∃ n, s.nodes c = some n) : ∃ n, t.nodes c = some n := by
  obtain ⟨sent, got, back, fresh, fresh', la, lb, _, _, hta, htb, hother⟩ :=
    h.tables hnamed ha hb hab
  by_cases hca : c = a
  · rw [hca]
    exact ⟨_, hta⟩
  · by_cases hcb : c = b
    · rw [hcb]
      exact ⟨_, htb⟩
    · rw [hother c hca hcb]
      exact hc

theorem Exchanged.started {R : Finset NodeId} (h : Exchanged X monitored a b now later s t)
    (hstarted : Started R s) (ha : a ∈ R) (hb : b ∈ R) (hab : a ≠ b) :
    Started R t ∧ (Idle R s → Idle R t) := by
  obtain ⟨na, hna⟩ := hstarted.running a ha
  obtain ⟨nb, hnb⟩ := hstarted.running b hb
  refine ⟨⟨fun c n' hn' => ?_, fun c hc => ?_⟩, fun hidle c hc n' hn' => ?_⟩
  · obtain ⟨n, hn, hid, _⟩ := h.node hstarted.named hna hnb hab hn'
    rw [hid]
    exact hstarted.named c n hn
  · exact h.running hstarted.named hna hnb hab (hstarted.running c hc)
  · obtain ⟨n, hn, _, hsweep⟩ := h.node hstarted.named hna hnb hab hn'
    rw [hsweep]
    exact hidle c hc n hn

/-- **The cluster can do what the views can**: an exchange along a
contact is a round with one target. -/
theorem healStep_of_talk {R : Finset NodeId} (hstarted : Started R s) (hidle : Idle R s)
    {V : NodeId → NodeId → WithBot Version} (h : gossipProtocol.Talk R s.view V) :
    ∃ t, HealStep X monitored R (now, s) (now, t) ∧ Started R t ∧ Idle R t ∧ t.view = V := by
  obtain ⟨a, ha, b, hb, hab, hcontact, hV⟩ := h
  obtain ⟨na, hna⟩ := hstarted.running a ha
  obtain ⟨nb, hnb⟩ := hstarted.running b hb
  obtain ⟨t, ht⟩ : ∃ t, Exchanged X monitored a b now now s t :=
    exists_exchanged hstarted.named hna hnb hab now
  obtain ⟨hstarted', hidle'⟩ := ht.started hstarted ha hb hab
  refine ⟨t, ⟨a, ha, .inl ⟨na, [b], hna, hidle a ha na hna, by simp, by simp, by simp, ?_,
    .cons ht .nil⟩⟩, hstarted', hidle' hidle, ?_⟩
  · intro c hc
    rw [List.mem_singleton] at hc
    rw [hc, MembershipTable.mem_alivePeers_iff, hstarted.named a na hna, ← view_of_node hna]
    exact ⟨hb, hab.symm, hcontact⟩
  · rw [hV, ht.view_eq hstarted.named hna hnb hab]

theorem healSteps_of_talks {R : Finset NodeId} (hstarted : Started R s) (hidle : Idle R s)
    {V : NodeId → NodeId → WithBot Version}
    (h : Relation.ReflTransGen (gossipProtocol.Talk R) s.view V) :
    ∃ t, Relation.ReflTransGen (HealStep X monitored R) (now, s) (now, t) ∧ Started R t
      ∧ Idle R t ∧ t.view = V := by
  induction h with
  | refl => exact ⟨s, .refl, hstarted, hidle, rfl⟩
  | tail _ htalk ih =>
      obtain ⟨u, hreach, hstarted', hidle', rfl⟩ := ih
      obtain ⟨t, hstep, hstarted'', hidle'', hview⟩ := healStep_of_talk hstarted' hidle' htalk
      exact ⟨t, hreach.tail hstep, hstarted'', hidle'', hview⟩

end Exchange

/-! ## Timeouts, in the views -/

section Timeouts

variable {X : Crates} {monitored : List NodeId} {R : Finset NodeId} {s t : Cluster} {a : NodeId}
  {now later : Instant}

/-- The cluster once the running nodes are through with the timeouts they
are in the middle of. -/
def settle (R : Finset NodeId) (s : Cluster) : Cluster :=
  { s with nodes := fun id =>
      if id ∈ R then (s.nodes id).map fun n => { n with gossip := n.gossip.finish }
      else s.nodes id }

theorem nodes_settle (R : Finset NodeId) (s : Cluster) (id : NodeId) :
    (s.settle R).nodes id
      = if id ∈ R then (s.nodes id).map fun n => { n with gossip := n.gossip.finish }
        else s.nodes id := rfl

theorem nodes_settle_of_mem (ha : a ∈ R) {n : NodeSys} (hn : s.nodes a = some n) :
    (s.settle R).nodes a = some { n with gossip := n.gossip.finish } := by
  rw [nodes_settle, if_pos ha, hn, Option.map_some]

theorem view_settle (ha : a ∈ R) {n : NodeSys} (hn : s.nodes a = some n) :
    (s.settle R).view a = n.gossip.finish.table.held :=
  view_of_node (nodes_settle_of_mem ha hn)

theorem idle_settle (R : Finset NodeId) (s : Cluster) : Idle R (s.settle R) := by
  intro x hx n hn
  rw [nodes_settle, if_pos hx] at hn
  obtain ⟨m, _, rfl⟩ := Option.map_eq_some_iff.mp hn
  simp only [GossipNode.finish]
  split
  · rfl
  · assumption

/-- Nothing is left to do where nobody is in the middle of them. -/
theorem settle_of_idle (h : Idle R s) : s.settle R = s := by
  have hnodes : (s.settle R).nodes = s.nodes := by
    funext id
    rw [nodes_settle]
    split_ifs with hid
    · cases hn : s.nodes id with
      | none => rfl
      | some n =>
          rw [Option.map_some, GossipNode.finish, h id hid n hn]
    · rfl
  show { s with nodes := (s.settle R).nodes } = s
  rw [hnodes]

/-- **A step of the timeouts** changes one row. Whom the node may still
gossip with it holds as before, both now and at the end of its sweep. -/
theorem TimeoutStep.node (h : TimeoutStep X monitored a now later s t) :
    ∃ n g, s.nodes a = some n ∧ t.nodes = Function.update s.nodes a (some { n with gossip := g })
      ∧ g.table.localId = n.table.localId
      ∧ (∀ j, gossipProtocol.contact (g.table.held j) → g.table.held j = n.table.held j)
      ∧ ∀ j, gossipProtocol.contact (g.finish.table.held j) →
        gossipProtocol.contact (n.gossip.finish.table.held j) := by
  rcases h.2 with ⟨snapshot, hstep⟩ | hstep
  · cases move_of_step hstep with
    | @node _ _ n n' hn _ hmove =>
        cases hmove with
        | @gossip _ g hg =>
            rw [GossipNode.step] at hg
            split_ifs at hg with hidle
            cases hg
            refine ⟨n, _, hn, rfl, rfl, fun j _ => rfl, fun j hj => ?_⟩
            have hsame := MembershipTable.held_checkTimeouts hj
            rw [GossipNode.finish, Option.isNone_iff_eq_none.mp hidle.1]
            rwa [← hsame]
  · cases move_of_step hstep with
    | @node _ _ n n' hn _ hmove =>
        cases hmove with
        | @gossip _ g hg =>
            refine ⟨n, g, hn, rfl, GossipNode.localId_step hg, fun j hj => ?_, fun j hj => ?_⟩
            · rw [GossipNode.step] at hg
              split at hg
              · cases hg
                exact MembershipTable.held_sweepMember hj
              · cases hg
                rfl
              · cases hg
            · rwa [GossipNode.finish_sweepNext hg] at hj

theorem TimeoutStep.started (h : TimeoutStep X monitored a now later s t)
    (hstarted : Started R s) : Started R t := by
  obtain ⟨n, g, hn, hnodes, hid, _⟩ := h.node
  refine ⟨?_, fun x hx => ?_⟩
  · rw [Named, hnodes]
    exact forall_nodes_update hstarted.named (hid.trans (hstarted.named a n hn))
  · by_cases hxa : x = a
    · exact ⟨_, by rw [hnodes, hxa, Function.update_self]⟩
    · rw [hnodes, Function.update_of_ne hxa]
      exact hstarted.running x hx

theorem TimeoutStep.view (h : TimeoutStep X monitored a now later s t) {x y : NodeId}
    (hc : gossipProtocol.contact (t.view x y)) : t.view x y = s.view x y := by
  obtain ⟨n, g, hn, hnodes, _, hheld, _⟩ := h.node
  by_cases hx : x = a
  · have hrow : t.view x = g.table.held :=
      view_of_node (n := { n with gossip := g }) (by rw [hnodes, hx, Function.update_self])
    rw [hrow] at hc ⊢
    rw [hx, view_of_node hn]
    exact hheld y hc
  · rw [Cluster.view, Cluster.view, hnodes, Function.update_of_ne hx]

theorem TimeoutStep.contact_settle (h : TimeoutStep X monitored a now later s t) {x y : NodeId}
    (hx : x ∈ R) (hc : gossipProtocol.contact ((t.settle R).view x y)) :
    gossipProtocol.contact ((s.settle R).view x y) := by
  obtain ⟨n, g, hn, hnodes, _, _, hfinish⟩ := h.node
  by_cases hxa : x = a
  · rw [view_settle hx (n := { n with gossip := g })
      (by rw [hnodes, hxa, Function.update_self])] at hc
    rw [view_settle hx (hxa ▸ hn)]
    exact hfinish y hc
  · have hsame : (t.settle R).nodes x = (s.settle R).nodes x := by
      rw [nodes_settle, nodes_settle, hnodes, Function.update_of_ne hxa]
    rwa [Cluster.view, hsame, ← Cluster.view] at hc

end Timeouts

/-! ## What a run leaves behind -/

section Run

variable {X : Crates} {monitored : List NodeId} {r : Router} {es : List ClusterEvent} {s : Cluster}
  {R : Finset NodeId}

/-- The running nodes have finished joining. -/
def Joined (R : Finset NodeId) (s : Cluster) : Prop :=
  ∀ x ∈ R, ∃ n, s.nodes x = some n ∧ n.table.localEntry.status = .alive

theorem Joined.started (hjoined : Joined R s) (hnamed : s.Named) : Started R s := by
  refine ⟨hnamed, fun x hx => ?_⟩
  obtain ⟨n, hn, _⟩ := hjoined x hx
  exact ⟨n, hn⟩

theorem Joined.view_self (hjoined : Joined R s) (hnamed : s.Named) {x : NodeId} (hx : x ∈ R) :
    s.view x x = (toLex (s.own x, .alive) : Version) := by
  obtain ⟨n, hn, halive⟩ := hjoined x hx
  have hself := MembershipTable.held_localId n.table
  rw [hnamed x n hn] at hself
  rw [view_of_node hn, hself, own_of_node hn, ← halive]
  rfl

/-- Nobody holds a node above its own incarnation. -/
theorem Authentic.view_le {x : NodeId} (h : s.Authentic X x) (a : NodeId) :
    s.view a x ≤ (toLex (s.own x, .dead) : Version) := by
  rw [view]
  split
  · rename_i n hn
    rw [MembershipTable.held]
    split
    · rename_i e he
      apply WithBot.coe_le_coe.mpr
      refine Prod.Lex.toLex_mono ⟨h.incarnation_le hn he, ?_⟩
      show e.status ≤ MemberStatus.dead
      cases e.status <;> decide
    · exact bot_le
  · exact bot_le

theorem named_exec (hrun : Trace.exec (step X monitored) (init r) es = some s) : s.Named := by
  have hview : s.View X fun _ _ => True := by
    refine Trace.exec_invariant (C := fun _ _ => True) ?_ (view_init X _ r)
      (Trace.along_of_forall (fun _ _ => trivial) _) hrun
    intro u e t hu _ hstep
    exact hu.move (WireRule.of_id fun _ => True) (move_of_step hstep)
      (fun _ _ _ _ _ _ _ _ _ => trivial) fun _ _ _ => trivial
  exact hview.localIds

/-- The incarnations the running nodes start healing from. -/
def runningIncarnation (R : Finset NodeId) (s : Cluster) (x : NodeId) : UInt64 :=
  if x ∈ R then s.own x else 0

theorem tame_view (hjoined : Joined R s) (hnamed : s.Named) (hauth : ∀ x ∈ R, s.Authentic X x) :
    PushPull.Tame (ownVersions (runningIncarnation R s)) (knownVersions (runningIncarnation R s))
      R s.view where
  own x hx := by
    left
    rw [hjoined.view_self hnamed hx, runningIncarnation, if_pos hx]
  known a _ x hx := by
    left
    rw [runningIncarnation, if_pos hx]
    exact (hauth x hx).view_le a

/-- What healing starts from. -/
structure Ready (X : Crates) (R : Finset NodeId) (s : Cluster) : Prop where
  joined : Joined R s
  named : s.Named
  authentic : ∀ x ∈ R, s.Authentic X x
  below : ∀ x ∈ R, (s.own x).toNat + 1 < 2 ^ 64

/-- **Nodes that can be gathered can heal.** -/
theorem Ready.healable_of_gathers (h : Ready X R s) (hidle : Idle R s)
    (hgathers : PushPull.Gathers gossipProtocol s.view R) (now : Instant) :
    Healable X monitored R now s := by
  have hsound : PushPull.Sound gossipProtocol (ownVersions (runningIncarnation R s))
      (knownVersions (runningIncarnation R s)) := by
    refine sound_refutation fun x => ?_
    rw [runningIncarnation]
    split_ifs with hx
    · exact h.below x hx
    · decide
  obtain ⟨V, htalks, hown⟩ := hgathers.heal hsound (tame_view h.joined h.named h.authentic)
  obtain ⟨t, hsteps, _, _, rfl⟩ := healSteps_of_talks (h.joined.started h.named) hidle htalks
  refine ⟨now, t, hsteps, fun a ha b hb _ => ?_⟩
  rcases hown a ha b hb with h | h
  · exact ⟨_, h⟩
  · exact ⟨_, h⟩

/-- A step of the timeouts says nothing about the node itself. -/
theorem Ready.sweepNext (h : Ready X R s) {a : NodeId} {t : Cluster}
    (hstep : s.step X monitored (.node a (.gossip .sweepNext)) = some t) : Ready X R t := by
  obtain ⟨n, g, hn, hg, hnodes⟩ : ∃ n g, s.nodes a = some n
      ∧ n.gossip.step X .sweepNext = some g
      ∧ t.nodes = Function.update s.nodes a (some { n with gossip := g }) := by
    cases move_of_step hstep with
    | node hn _ hmove =>
        cases hmove with
        | gossip hg => exact ⟨_, _, hn, hg, rfl⟩
  have hversion : g.table.localEntry.version = n.table.localEntry.version := by
    rcases GossipNode.localVersion_step hg with hsame | ⟨_, _, _, he, _⟩
    · exact hsame
    · cases he
  obtain ⟨hinc, hst⟩ := MemberEntry.version_eq_iff.mp hversion
  have hmoved : t.nodes a = some { n with gossip := g } := by rw [hnodes, Function.update_self]
  have hown : ∀ x, t.own x = s.own x := by
    intro x
    by_cases hx : x = a
    · rw [hx, own_of_node hmoved, own_of_node hn]
      exact hinc
    · exact own_of_nodes (by rw [hnodes, Function.update_of_ne hx])
  refine ⟨fun x hx => ?_, ?_, fun x hx => ?_, fun x hx => ?_⟩
  · obtain ⟨m, hm, halive⟩ := h.joined x hx
    by_cases hxa : x = a
    · subst hxa
      rw [hn] at hm
      cases hm
      exact ⟨_, hmoved, hst.trans halive⟩
    · exact ⟨m, by rw [hnodes, Function.update_of_ne hxa, hm], halive⟩
  · rw [Named, hnodes]
    exact forall_nodes_update h.named ((GossipNode.localId_step hg).trans (h.named a n hn))
  · exact (h.authentic x hx).move (move_of_step hstep) (hown x).ge
  · rw [hown x]
    exact h.below x hx

variable (monitored) in
/-- Node `a` can take the next step of its timeouts. -/
theorem Ready.turn (h : Ready X R s) {a : NodeId} (ha : a ∈ R) {n : NodeSys}
    (hn : s.nodes a = some n) {g : GossipNode} (hg : n.gossip.step X .sweepNext = some g)
    (now : Instant) :
    let t := { s with nodes := Function.update s.nodes a (some { n with gossip := g }) }
    HealStep X monitored R (now, s) (now, t) ∧ Ready X R t := by
  intro t
  have hstep : s.step X monitored (.node a (.gossip .sweepNext)) = some t := by
    have hears : s.hears (.gossip .sweepNext) := trivial
    rw [step, hn]
    dsimp only
    rw [if_pos hears, NodeSys.step, hg]
    rfl
  exact ⟨⟨a, ha, .inr ⟨le_rfl, .inr hstep⟩⟩, h.sweepNext hstep⟩

variable (monitored) in
/-- And all of them. -/
theorem Ready.finish (h : Ready X R s) {a : NodeId} (ha : a ∈ R) {n : NodeSys}
    (hn : s.nodes a = some n) (now : Instant) :
    let t := { s with
      nodes := Function.update s.nodes a (some { n with gossip := n.gossip.finish }) }
    Relation.ReflTransGen (HealStep X monitored R) (now, s) (now, t) ∧ Ready X R t := by
  cases hsweep : n.gossip.sweep with
  | none =>
      have hsame : Function.update s.nodes a (some { n with gossip := n.gossip.finish })
          = s.nodes := by
        rw [GossipNode.finish, hsweep, ← hn, Function.update_eq_self]
      rw [hsame]
      exact ⟨.refl, h⟩
  | some sweep =>
      obtain ⟨began, pending⟩ := sweep
      induction pending generalizing s n with
      | nil =>
          have hg : n.gossip.step X .sweepNext = some { n.gossip with sweep := none } := by
            rw [GossipNode.step, hsweep]
          obtain ⟨hheal, hready⟩ := h.turn monitored ha hn hg now
          rw [← GossipNode.finish_sweepNext hg]
          exact ⟨.single hheal, hready⟩
      | cons member rest ih =>
          have hg : n.gossip.step X .sweepNext
              = some ⟨sweepMember began n.gossip.table member, some (began, rest)⟩ := by
            rw [GossipNode.step, hsweep]
          obtain ⟨hheal, hready⟩ := h.turn monitored ha hn hg now
          obtain ⟨hrest, hready'⟩ := ih hready (Function.update_self ..) rfl
          rw [Function.update_idem] at hrest hready'
          rw [← GossipNode.finish_sweepNext hg]
          exact ⟨.head hheal hrest, hready'⟩

variable (monitored) in
/-- The running nodes can be let through with their timeouts. -/
theorem Ready.settle (h : Ready X R s) (now : Instant) :
    Relation.ReflTransGen (HealStep X monitored R) (now, s) (now, s.settle R)
      ∧ Ready X R (s.settle R) := by
  have hsome : ∀ S : Finset NodeId, S ⊆ R →
      Relation.ReflTransGen (HealStep X monitored R) (now, s) (now, s.settle S)
        ∧ Ready X R (s.settle S) := by
    intro S
    induction S using Finset.induction_on with
    | empty =>
        intro _
        rw [settle_of_idle fun x hx => absurd hx (Finset.notMem_empty x)]
        exact ⟨.refl, h⟩
    | insert a S haS ih =>
        intro hsub
        obtain ⟨haR, hSR⟩ := Finset.insert_subset_iff.mp hsub
        obtain ⟨hsteps, hready⟩ := ih hSR
        obtain ⟨n, hn, _⟩ := hready.joined a haR
        obtain ⟨hrest, hready'⟩ := hready.finish monitored haR hn now
        have hn₀ : s.nodes a = some n := by
          rw [← hn, nodes_settle, if_neg haS]
        have hnodes : Function.update (s.settle S).nodes a
            (some { n with gossip := n.gossip.finish }) = (s.settle (insert a S)).nodes := by
          funext x
          by_cases hx : x = a
          · rw [hx, Function.update_self, nodes_settle_of_mem (Finset.mem_insert_self a S) hn₀]
          · rw [Function.update_of_ne hx]
            simp only [nodes_settle, Finset.mem_insert, hx, false_or]
        rw [hnodes] at hrest hready'
        exact ⟨hsteps.trans hrest, hready'⟩
  exact hsome R (Finset.Subset.refl R)

end Run

/-! ## Two sides without a contact -/

section Apart

variable {X : Crates} {monitored : List NodeId} {R G H : Finset NodeId} {s t : Cluster} {a : NodeId}
  {now later : Instant}

/-- The running nodes are two sides that cannot contact each other. -/
structure Apart (R G H : Finset NodeId) (s : Cluster) : Prop extends Started R s where
  cover : G ∪ H = R
  disjoint : Disjoint G H
  separate : PushPull.Separate gossipProtocol s.view G H

theorem Apart.symm (h : Apart R G H s) : Apart R H G s where
  toStarted := h.toStarted
  cover := by rw [Finset.union_comm, h.cover]
  disjoint := h.disjoint.symm
  separate := h.separate.symm

theorem Apart.mem (h : Apart R G H s) {x : NodeId} (hx : x ∈ G) : x ∈ R := by
  rw [← h.cover]
  exact Finset.mem_union_left H hx

theorem Apart.exchanged (h : Apart R G H s) {b : NodeId} (ha : a ∈ G) (hb : b ∈ G) (hab : a ≠ b)
    (hex : Exchanged X monitored a b now later s t) : Apart R G H t := by
  obtain ⟨na, hna⟩ := h.running a (h.mem ha)
  obtain ⟨nb, hnb⟩ := h.running b (h.mem hb)
  refine ⟨(hex.started h.toStarted (h.mem ha) (h.mem hb) hab).1, h.cover, h.disjoint, ?_⟩
  rw [hex.view_eq h.named hna hnb hab]
  exact h.separate.exchange not_contact_sup h.disjoint ha hb hab

theorem Apart.exchanges (h : Apart R G H s) (ha : a ∈ G) {targets : List NodeId}
    (htargets : ∀ b ∈ targets, b ∈ G ∧ a ≠ b)
    (hex : Exchanges X monitored a targets now later s t) :
    Apart R G H t := by
  induction hex with
  | nil => exact h
  | cons hfirst _ ih =>
      obtain ⟨hb, hab⟩ := htargets _ List.mem_cons_self
      exact ih (h.exchanged ha hb hab hfirst) fun b hb => htargets b (List.mem_cons_of_mem _ hb)

/-- The targets of a round are on the side it starts from. -/
theorem Apart.round (h : Apart R G H s) (ha : a ∈ G)
    (hround : GossipRound X monitored R a now later s t) : Apart R G H t := by
  obtain ⟨n, targets, hn, _, _, _, _, htargets, hex⟩ := hround
  refine h.exchanges ha (fun b hb => ?_) hex
  obtain ⟨hbR, hpeer⟩ := htargets b hb
  rw [MembershipTable.mem_alivePeers_iff, h.named a n hn, ← view_of_node hn] at hpeer
  refine ⟨?_, hpeer.1.symm⟩
  rw [← h.cover] at hbR
  refine (Finset.mem_union.mp hbR).resolve_right fun hbH => ?_
  exact (h.separate a ha b hbH).1 hpeer.2

theorem Apart.timeout (h : Apart R G H s) (hstep : TimeoutStep X monitored a now later s t) :
    Apart R G H t := by
  refine ⟨hstep.started h.toStarted, h.cover, h.disjoint, fun g hg y hy => ?_⟩
  obtain ⟨hgy, hyg⟩ := h.separate g hg y hy
  exact ⟨fun hc => hgy (hstep.view hc ▸ hc), fun hc => hyg (hstep.view hc ▸ hc)⟩

theorem Apart.healStep {p q : Instant × Cluster} (h : Apart R G H p.2)
    (hstep : HealStep X monitored R p q) : Apart R G H q.2 := by
  obtain ⟨a, haR, hround | htimeout⟩ := hstep
  · rw [← h.cover] at haR
    rcases Finset.mem_union.mp haR with ha | ha
    · exact h.round ha hround
    · exact (h.symm.round ha hround).symm
  · exact h.timeout htimeout

theorem Apart.healSteps {p q : Instant × Cluster} (h : Apart R G H p.2)
    (hsteps : Relation.ReflTransGen (HealStep X monitored R) p q) : Apart R G H q.2 := by
  induction hsteps with
  | refl => exact h
  | tail _ hstep ih => exact ih.healStep hstep

/-- **Two sides without a contact never heal.** -/
theorem Apart.not_healable (h : Apart R G H s) (hG : G.Nonempty) (hH : H.Nonempty) :
    ¬ Healable X monitored R now s := by
  rintro ⟨later, t, hsteps, hall⟩
  obtain ⟨g, hg⟩ := hG
  obtain ⟨y, hy⟩ := hH
  have hne : g ≠ y := fun heq => Finset.disjoint_left.mp h.disjoint hg (by rw [heq]; exact hy)
  obtain ⟨inc, halive⟩ := hall g (h.mem hg) y (h.symm.mem hy) hne
  have hapart : Apart R G H t := Apart.healSteps (p := (now, s)) (q := (later, t)) h hsteps
  exact (hapart.separate g hg y hy).1 ⟨inc, .inl halive⟩

/-- Two nodes, neither of which will gossip with the other once it is
through with the timeouts it is in the middle of. -/
structure Parted (a b : NodeId) (s : Cluster) : Prop where
  started : Started {a, b} s
  left : ¬ gossipProtocol.contact ((s.settle {a, b}).view a b)
  right : ¬ gossipProtocol.contact ((s.settle {a, b}).view b a)

/-- Whoever begins a round has finished its timeouts, so it knows nobody
to gossip with. -/
theorem Parted.no_round {b : NodeId} (h : Parted a b s) {x : NodeId}
    (hx : x ∈ ({a, b} : Finset NodeId)) :
    ¬ GossipRound X monitored {a, b} x now later s t := by
  rintro ⟨n, targets, hn, hidle, hne, _, _, htargets, _⟩
  obtain ⟨y, hy⟩ := List.exists_mem_of_ne_nil targets hne
  obtain ⟨hyR, hpeer⟩ := htargets y hy
  have hrow : (s.settle {a, b}).view x = n.table.held := by
    rw [view_settle hx hn, GossipNode.finish, hidle]
    rfl
  rw [MembershipTable.mem_alivePeers_iff, h.started.named x n hn, ← hrow] at hpeer
  rw [Finset.mem_insert, Finset.mem_singleton] at hx hyR
  rcases hx with rfl | rfl <;> rcases hyR with rfl | rfl
  · exact hpeer.1 rfl
  · exact h.left hpeer.2
  · exact h.right hpeer.2
  · exact hpeer.1 rfl

theorem Parted.healStep {b : NodeId} {p q : Instant × Cluster} (h : Parted a b p.2)
    (hstep : HealStep X monitored {a, b} p q) :
    Parted a b q.2
      ∧ ∀ x y, gossipProtocol.contact (q.2.view x y) → q.2.view x y = p.2.view x y := by
  obtain ⟨x, hx, hround | htimeout⟩ := hstep
  · exact absurd hround (h.no_round hx)
  · refine ⟨⟨htimeout.started h.started, fun hc => h.left ?_, fun hc => h.right ?_⟩,
      fun _ _ => htimeout.view⟩
    · exact htimeout.contact_settle (Finset.mem_insert_self a {b}) hc
    · exact htimeout.contact_settle (by simp) hc

/-- Two such nodes only go on losing what they hold of each other. -/
theorem Parted.healSteps {b : NodeId} {p q : Instant × Cluster} (h : Parted a b p.2)
    (hsteps : Relation.ReflTransGen (HealStep X monitored {a, b}) p q) :
    Parted a b q.2
      ∧ ∀ x y, gossipProtocol.contact (q.2.view x y) → q.2.view x y = p.2.view x y := by
  induction hsteps with
  | refl => exact ⟨h, fun _ _ _ => rfl⟩
  | tail _ hstep ih =>
      obtain ⟨hparted, hview⟩ := ih
      obtain ⟨hparted', hview'⟩ := hparted.healStep hstep
      refine ⟨hparted', fun x y hc => ?_⟩
      have hsame := hview' x y hc
      rw [hsame] at hc ⊢
      exact hview x y hc

/-- They do not heal, unless each lists the other already. -/
theorem Parted.not_healable {b : NodeId} (h : Parted a b s) (hab : a ≠ b)
    (hlisted : ¬ ((∃ inc, s.view a b = (toLex (inc, .alive) : Version))
      ∧ ∃ inc, s.view b a = (toLex (inc, .alive) : Version))) :
    ¬ Healable X monitored {a, b} now s := by
  rintro ⟨later, t, hsteps, hall⟩
  obtain ⟨_, hview⟩ := Parted.healSteps (p := (now, s)) h hsteps
  have ha : a ∈ ({a, b} : Finset NodeId) := Finset.mem_insert_self a {b}
  have hb : b ∈ ({a, b} : Finset NodeId) := by simp
  obtain ⟨inc, halive⟩ := hall a ha b hb hab
  obtain ⟨inc', halive'⟩ := hall b hb a ha hab.symm
  refine hlisted ⟨⟨inc, ?_⟩, inc', ?_⟩
  · rw [← halive, hview a b (by rw [halive]; exact ⟨inc, .inl rfl⟩)]
  · rw [← halive', hview b a (by rw [halive']; exact ⟨inc', .inl rfl⟩)]

/-- Two nodes that list each other as Alive need no step. -/
theorem healable_of_listed {b : NodeId} {inc inc' : UInt64}
    (h : s.view a b = (toLex (inc, .alive) : Version))
    (h' : s.view b a = (toLex (inc', .alive) : Version)) :
    Healable X monitored {a, b} now s := by
  refine ⟨now, s, .refl, fun x hx y hy hxy => ?_⟩
  rw [Finset.mem_insert, Finset.mem_singleton] at hx hy
  rcases hx with rfl | rfl <;> rcases hy with rfl | rfl
  · exact absurd rfl hxy
  · exact ⟨inc, h⟩
  · exact ⟨inc', h'⟩
  · exact absurd rfl hxy

end Apart

/-! ## Healing -/

section Heal

variable (X : Crates) (monitored : List NodeId) (r : Router) {es : List ClusterEvent} {s : Cluster}
  {R : Finset NodeId}

/-- **When a partition heals.** In every state of every run, for running
nodes that have finished joining and none of which has used up its
incarnations. If they can be gathered, once they are through with the
timeouts they are in the middle of, then rounds bring them all to list
each other as Alive. If they are two sides without a contact, no rounds
and timeouts do. Two nodes can be healed exactly when a contact is left
at the end of these timeouts, or if each lists the other as Alive already
(and is about to suspect it). -/
theorem healable_after_partition (hrun : Trace.exec (step X monitored) (init r) es = some s)
    (hjoined : Joined R s)
    (hbumps : ∀ x ∈ R, Trace.changes (step X monitored) (own x) (init r) es + 1 < 2 ^ 64)
    (now : Instant) :
    (PushPull.Gathers gossipProtocol (s.settle R).view R → Healable X monitored R now s)
    ∧ ((∃ G H : Finset NodeId, G.Nonempty ∧ H.Nonempty ∧ G ∪ H = R ∧ Disjoint G H
        ∧ PushPull.Separate gossipProtocol s.view G H) →
      ¬ Healable X monitored R now s)
    ∧ (∀ a b, a ≠ b → R = {a, b} → (Healable X monitored R now s
        ↔ gossipProtocol.contact ((s.settle R).view a b)
          ∨ gossipProtocol.contact ((s.settle R).view b a)
          ∨ ((∃ inc, s.view a b = (toLex (inc, .alive) : Version))
            ∧ ∃ inc, s.view b a = (toLex (inc, .alive) : Version)))) := by
  have hnamed := named_exec hrun
  have hcount : ∀ x ∈ R, AuthenticCount X x
      (Trace.changes (step X monitored) (own x) (init r) es) s :=
    fun x hx => authenticCount_exec hrun (Nat.lt_of_succ_lt (hbumps x hx))
  have hready : Ready X R s := by
    refine ⟨hjoined, hnamed, fun x hx => (hcount x hx).1, fun x hx => ?_⟩
    rw [(hcount x hx).2]
    exact hbumps x hx
  have hheal : PushPull.Gathers gossipProtocol (s.settle R).view R →
      Healable X monitored R now s := by
    intro hgathers
    obtain ⟨hsteps, hsettled⟩ := hready.settle monitored now
    obtain ⟨later, t, hrest, hall⟩ : Healable X monitored R now (s.settle R) :=
      hsettled.healable_of_gathers (idle_settle R s) hgathers now
    exact ⟨later, t, hsteps.trans hrest, hall⟩
  refine ⟨hheal, ?_, ?_⟩
  · rintro ⟨G, H, hG, hH, hcover, hdisj, hsep⟩
    have hapart : Apart R G H s := ⟨hjoined.started hnamed, hcover, hdisj, hsep⟩
    exact hapart.not_healable hG hH
  · rintro a b hab rfl
    constructor
    · intro hhealable
      by_contra hnone
      rw [not_or, not_or] at hnone
      have hparted : Parted a b s := ⟨hjoined.started hnamed, hnone.1, hnone.2.1⟩
      exact hparted.not_healable hab hnone.2.2 hhealable
    · rintro (h | h | ⟨⟨inc, h⟩, inc', h'⟩)
      · exact hheal (.pair hab h)
      · apply hheal
        rw [Finset.pair_comm] at h ⊢
        exact .pair hab.symm h
      · exact healable_of_listed h h'

end Heal

/-- Node 2 joins through the address of node 1, known to it as node 3: it
exchanges gossip, rebalances, turns Alive and says so. -/
def joinRun : List ClusterEvent :=
  let say := buildGossipMessage (.hyphenated fun _ => 0) 0
  let one : MemberEntry := ⟨⟨⟨1⟩, ""⟩, .alive, 0, 0⟩
  let two : MemberEntry := ⟨⟨⟨2⟩, ""⟩, .joining, 0, 0⟩
  let seed : MemberEntry := ⟨⟨⟨3⟩, "10.0.0.1:5001"⟩, .alive, 0, 0⟩
  let joined : MemberEntry := { two with status := .alive, incarnation := 1 }
  [.start 0 ⟨1⟩ [], .start 0 ⟨2⟩ [seed.info],
    .send ⟨2⟩ 0 [two, seed],
    .node ⟨1⟩ (.gossip (.receive 0 (fun _ => ⟨0⟩) (say ⟨2⟩ [two, seed]))),
    .node ⟨1⟩ (.gossip (.touch 0 ⟨2⟩)),
    .send ⟨1⟩ 0 [one, two, seed],
    .node ⟨2⟩ (.gossip (.touch 0 ⟨3⟩)),
    .node ⟨2⟩ (.gossip (.receive 0 (fun _ => ⟨0⟩) (say ⟨1⟩ [one, two, seed]))),
    .node ⟨2⟩ (.rebalance .poll), .node ⟨2⟩ (.rebalance (.buildRing [one, seed])),
    .node ⟨2⟩ (.rebalance .nextPeer), .node ⟨2⟩ (.rebalance .nextPeer),
    .node ⟨2⟩ (.rebalance .count), .node ⟨2⟩ (.rebalance .beginPass),
    .node ⟨2⟩ (.rebalance .markAlive),
    .send ⟨2⟩ 0 [one, joined, seed],
    .node ⟨1⟩ (.gossip (.receive 0 (fun _ => ⟨0⟩) (say ⟨2⟩ [one, joined, seed]))),
    .node ⟨1⟩ (.gossip (.touch 0 ⟨2⟩))]

/-- `check_timeouts` at node `id`, after four seconds without an exchange. -/
def silence (id : NodeId) : List ClusterEvent :=
  .node id (.gossip (.sweepBegin 4000000000
    [⟨⟨⟨1⟩, ""⟩, .alive, 0, 0⟩, ⟨⟨⟨2⟩, ""⟩, .alive, 1, 0⟩,
      ⟨⟨⟨3⟩, "10.0.0.1:5001"⟩, .alive, 0, 0⟩]))
    :: List.replicate 4 (.node id (.gossip .sweepNext))

theorem joined_idle_pair {s : Cluster} {x y : NodeId}
    (hx : (s.nodes x).map (fun n => (n.table.localEntry.status, n.gossip.sweep))
      = some (.alive, none))
    (hy : (s.nodes y).map (fun n => (n.table.localEntry.status, n.gossip.sweep))
      = some (.alive, none)) : Joined {x, y} s ∧ Idle {x, y} s := by
  have hall : ∀ z ∈ ({x, y} : Finset NodeId), ∃ n, s.nodes z = some n
      ∧ (n.table.localEntry.status, n.gossip.sweep) = (.alive, none) := by
    intro z hz
    rcases Finset.mem_insert.mp hz with rfl | hz
    · exact Option.map_eq_some_iff.mp hx
    · rw [Finset.mem_singleton.mp hz]
      exact Option.map_eq_some_iff.mp hy
  constructor
  · intro z hz
    obtain ⟨n, hn, hpair⟩ := hall z hz
    exact ⟨n, hn, congrArg Prod.fst hpair⟩
  · intro z hz m hm
    obtain ⟨n, hn, hpair⟩ := hall z hz
    rw [hn] at hm
    cases hm
    exact congrArg Prod.snd hpair

/-- Only node 2 has run its timeouts: it suspects node 1, and node 1 still
lists it as Alive. -/
theorem healable_after_partition_one_sided :
    ∃ s, Trace.exec (step (.hyphenated fun _ => 0) []) (init ⟨.new, .new⟩)
        (joinRun ++ silence ⟨2⟩) = some s
      ∧ s.view ⟨2⟩ ⟨1⟩ = (toLex (0, .suspect) : Version)
      ∧ Healable (.hyphenated fun _ => 0) [] {⟨1⟩, ⟨2⟩} 4000000000 s := by
  obtain ⟨s, hrun, hsuspect, halive, hone, htwo⟩ :
      ∃ s, Trace.exec (step (.hyphenated fun _ => 0) []) (init ⟨.new, .new⟩)
          (joinRun ++ silence ⟨2⟩) = some s
        ∧ s.view ⟨2⟩ ⟨1⟩ = (toLex (0, .suspect) : Version)
        ∧ s.view ⟨1⟩ ⟨2⟩ = (toLex (1, .alive) : Version)
        ∧ (s.nodes ⟨1⟩).map (fun n => (n.table.localEntry.status, n.gossip.sweep))
          = some (.alive, none)
        ∧ (s.nodes ⟨2⟩).map (fun n => (n.table.localEntry.status, n.gossip.sweep))
          = some (.alive, none) := ⟨_, rfl, rfl, rfl, rfl, rfl⟩
  obtain ⟨hjoined, hidle⟩ := joined_idle_pair hone htwo
  refine ⟨s, hrun, hsuspect, (healable_after_partition _ [] _ hrun hjoined ?_ _).1 ?_⟩
  · intro x _
    exact lt_of_le_of_lt (Nat.succ_le_succ (Trace.changes_le_length ..)) (by decide)
  · rw [settle_of_idle hidle]
    refine .pair (by decide) ?_
    rw [halive]
    exact ⟨1, .inl rfl⟩

/-- **Mutual suspicion is final.** Both nodes have finished joining, run
and know each other; each has suspected the other, and neither gossips
with the other any more. -/
theorem not_healable_mutual_suspicion :
    ∃ s, Trace.exec (step (.hyphenated fun _ => 0) []) (init ⟨.new, .new⟩)
        (joinRun ++ silence ⟨1⟩ ++ silence ⟨2⟩) = some s
      ∧ Joined {⟨1⟩, ⟨2⟩} s ∧ Idle {⟨1⟩, ⟨2⟩} s
      ∧ s.view ⟨1⟩ ⟨2⟩ = (toLex (1, .suspect) : Version)
      ∧ s.view ⟨2⟩ ⟨1⟩ = (toLex (0, .suspect) : Version)
      ∧ ∀ now, ¬ Healable (.hyphenated fun _ => 0) [] {⟨1⟩, ⟨2⟩} now s := by
  obtain ⟨s, hrun, hsuspect, hsuspect', hone, htwo⟩ :
      ∃ s, Trace.exec (step (.hyphenated fun _ => 0) []) (init ⟨.new, .new⟩)
          (joinRun ++ silence ⟨1⟩ ++ silence ⟨2⟩) = some s
        ∧ s.view ⟨1⟩ ⟨2⟩ = (toLex (1, .suspect) : Version)
        ∧ s.view ⟨2⟩ ⟨1⟩ = (toLex (0, .suspect) : Version)
        ∧ (s.nodes ⟨1⟩).map (fun n => (n.table.localEntry.status, n.gossip.sweep))
          = some (.alive, none)
        ∧ (s.nodes ⟨2⟩).map (fun n => (n.table.localEntry.status, n.gossip.sweep))
          = some (.alive, none) := ⟨_, rfl, rfl, rfl, rfl, rfl⟩
  obtain ⟨hjoined, hidle⟩ := joined_idle_pair hone htwo
  refine ⟨s, hrun, hjoined, hidle, hsuspect, hsuspect', fun now => ?_⟩
  have hapart : Apart {⟨1⟩, ⟨2⟩} {⟨1⟩} {⟨2⟩} s := by
    refine ⟨hjoined.started (named_exec hrun), rfl, by decide, ?_⟩
    rw [PushPull.separate_singleton, hsuspect, hsuspect']
    exact ⟨not_contact_suspect 1, not_contact_suspect 0⟩
  exact hapart.not_healable (Finset.singleton_nonempty _) (Finset.singleton_nonempty _)

end Cluster

end SelfHealingCache
