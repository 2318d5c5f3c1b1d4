import SelfHealingCache.Lib.Trace
import SelfHealingCache.Node.Gossip

/-!
# The gossip side of a node, step by step

Everything the gossip server and the gossip loop do to the shared table,
cut at the table's lock: one `merge`, one `touch`, one member of the
timeout sweep. The sweep decides from a SNAPSHOT it took earlier, so
messages may be merged between the snapshot and the verdict.

`table_step` says what any of these steps can be, and
`EntryRule.others_step` what it takes for a property of entries to
survive them.
-/

namespace SelfHealingCache

/-- The table, and the timeout sweep in progress: its `now` and the
members of its snapshot still to be examined. -/
structure GossipNode where
  table : MembershipTable
  sweep : Option (Instant × List MemberEntry)

inductive GossipEvent where
  /-- A request or a reply is decoded and merged. -/
  | receive (now : Instant) (fresh : Nat → NodeId) (msg : GossipMessage)
  | touch (now : Instant) (id : NodeId)
  /-- `check_timeouts` lists the members. -/
  | sweepBegin (now : Instant) (snapshot : List MemberEntry)
  | sweepNext

namespace GossipNode

def step (X : Crates) (g : GossipNode) : GossipEvent → Option GossipNode
  | .receive now fresh msg =>
      some { g with table := processGossipResponse X g.table now fresh msg }
  | .touch now id => some { g with table := g.table.touch now id }
  | .sweepBegin now snapshot =>
      if g.sweep.isNone ∧ Lists g.table snapshot
      then some { g with sweep := some (now, snapshot) } else none
  | .sweepNext =>
      match g.sweep with
      | some (now, member :: rest) => some ⟨sweepMember now g.table member, some (now, rest)⟩
      | some (_, []) => some { g with sweep := none }
      | none => none

/-- The sweep running alone is `check_timeouts`. -/
theorem exec_checkTimeouts (X : Crates) (t : MembershipTable) (now : Instant)
    (snapshot : List MemberEntry) :
    Trace.exec (step X) ⟨t, some (now, snapshot)⟩
        (List.replicate (snapshot.length + 1) .sweepNext)
      = some ⟨checkTimeouts t now snapshot, none⟩ := by
  induction snapshot generalizing t with
  | nil => rfl
  | cons member rest ih =>
      rw [List.length_cons, List.replicate_succ, Trace.exec_cons]
      exact ⟨_, rfl, ih (sweepMember now t member)⟩

/-- Once the sweep in progress is over. -/
def finish (g : GossipNode) : GossipNode :=
  match g.sweep with
  | some (now, pending) => ⟨checkTimeouts g.table now pending, none⟩
  | none => g

/-- A step of the sweep leaves its end as it was. -/
theorem finish_sweepNext {X : Crates} {g g' : GossipNode} (h : g.step X .sweepNext = some g') :
    g'.finish = g.finish := by
  rw [step] at h
  split at h
  · rename_i now member rest hsweep
    cases h
    rw [finish, finish, hsweep]
    rfl
  · rename_i now hsweep
    cases h
    rw [finish, finish, hsweep]
    rfl
  · cases h

end GossipNode

/-- What one member of a sweep can do to the table. -/
theorem sweepMember_cases (now : Instant) (t : MembershipTable) (member : MemberEntry) :
    sweepMember now t member = t
      ∨ (member.info.id ≠ t.localId
        ∧ (sweepMember now t member = (t.markSuspect member.info.id).2
          ∨ sweepMember now t member = (t.markDead member.info.id).2)) := by
  rw [sweepMember]
  by_cases hlocal : member.info.id = t.localId
  · rw [if_pos hlocal]
    exact .inl rfl
  · rw [if_neg hlocal]
    cases member.status with
    | alive =>
        dsimp only
        split_ifs
        · exact .inr ⟨hlocal, .inl rfl⟩
        · exact .inl rfl
    | joining =>
        dsimp only
        split_ifs
        · exact .inr ⟨hlocal, .inl rfl⟩
        · exact .inl rfl
    | suspect =>
        dsimp only
        split_ifs
        · exact .inr ⟨hlocal, .inr rfl⟩
        · exact .inl rfl
    | dead => exact .inl rfl

/-- **Everything a gossip step can do to the table.** -/
theorem GossipNode.table_step {X : Crates} {g g' : GossipNode} {e : GossipEvent}
    (h : g.step X e = some g') :
    g'.table = g.table
    ∨ (∃ now fresh msg, e = .receive now fresh msg
        ∧ g'.table = g.table.merge now (decodeMembers X fresh msg.members))
    ∨ (∃ now id, g'.table = g.table.touch now id)
    ∨ (∃ id, id ≠ g.table.localId
        ∧ (g'.table = (g.table.markSuspect id).2 ∨ g'.table = (g.table.markDead id).2)) := by
  cases e with
  | receive now fresh msg =>
      cases h
      exact .inr (.inl ⟨now, fresh, msg, rfl, rfl⟩)
  | touch now id =>
      cases h
      exact .inr (.inr (.inl ⟨now, id, rfl⟩))
  | sweepBegin now snapshot =>
      rw [step] at h
      split_ifs at h
      cases h
      exact .inl rfl
  | sweepNext =>
      rw [step] at h
      split at h
      · rename_i now member rest _
        cases h
        rcases sweepMember_cases now g.table member with hsame | hmark
        · exact .inl hsame
        · exact .inr (.inr (.inr ⟨member.info.id, hmark⟩))
      · cases h
        exact .inl rfl
      · cases h

theorem GossipNode.localId_step {X : Crates} {g g' : GossipNode} {e : GossipEvent}
    (h : g.step X e = some g') : g'.table.localId = g.table.localId := by
  obtain h | ⟨_, _, _, _, h⟩ | ⟨_, _, h⟩ | ⟨_, _, h | h⟩ := table_step h
  · rw [h]
  · rw [h, MembershipTable.localId_merge]
  · rw [h, MembershipTable.localId_touch]
  · rw [h, MembershipTable.localId_markSuspect]
  · rw [h, MembershipTable.localId_markDead]

/-! ## The local entry -/

namespace MembershipTable

theorem localEntry_of_lookup {t t' : MembershipTable} (hid : t'.localId = t.localId)
    (h : t'.members.lookup t.localId = t.members.lookup t.localId) :
    t'.localEntry = t.localEntry := by
  apply localEntry_eq
  rw [hid, h, lookup_localId]

theorem localEntry_markSuspect {t : MembershipTable} {id : NodeId} (h : id ≠ t.localId) :
    (t.markSuspect id).2.localEntry = t.localEntry := by
  apply localEntry_of_lookup (localId_markSuspect t id)
  rw [lookup_markSuspect, if_neg (Ne.symm h)]

theorem localEntry_markDead {t : MembershipTable} {id : NodeId} (h : id ≠ t.localId) :
    (t.markDead id).2.localEntry = t.localEntry := by
  apply localEntry_of_lookup (localId_markDead t id)
  rw [lookup_markDead, if_neg (Ne.symm h)]

/-- A touch, of the local node too, changes no status or incarnation. -/
theorem version_localEntry_touch (t : MembershipTable) (now : Instant) (id : NodeId) :
    (t.touch now id).localEntry.version = t.localEntry.version := by
  have h := lookup_localId (t.touch now id)
  rw [localId_touch, lookup_touch, lookup_localId] at h
  split_ifs at h
  · rw [← Option.some.inj h]
    rfl
  · rw [← Option.some.inj h]

end MembershipTable

/-- Only a received message can change the status or the incarnation of
the local entry. -/
theorem GossipNode.localVersion_step {X : Crates} {g g' : GossipNode} {e : GossipEvent}
    (h : g.step X e = some g') :
    g'.table.localEntry.version = g.table.localEntry.version
    ∨ ∃ now fresh msg, e = .receive now fresh msg
        ∧ g'.table = g.table.merge now (decodeMembers X fresh msg.members) := by
  obtain h | ⟨now, fresh, msg, he, h⟩ | ⟨now, id, h⟩ | ⟨id, hid, h | h⟩ := table_step h
  · rw [h]
    exact .inl rfl
  · exact .inr ⟨now, fresh, msg, he, h⟩
  · rw [h, MembershipTable.version_localEntry_touch]
    exact .inl rfl
  · rw [h, MembershipTable.localEntry_markSuspect hid]
    exact .inl rfl
  · rw [h, MembershipTable.localEntry_markDead hid]
    exact .inl rfl

/-! ## Properties of the other entries -/

/-- A property of entries that survives a touch and the verdicts of the
timeout sweep. -/
structure EntryRule (Q : NodeId → MemberEntry → Prop) : Prop where
  touch : ∀ id e now, Q id e → Q id { e with lastSeen := now }
  suspect : ∀ id e, e.status = .alive → Q id e → Q id { e with status := .suspect }
  dead : ∀ id e, e.status = .alive ∨ e.status = .suspect → Q id e →
    Q id { e with status := .dead }

/-- `Q` holds of every entry but the local one. -/
def MembershipTable.Others (t : MembershipTable) (Q : NodeId → MemberEntry → Prop) : Prop :=
  ∀ id e, id ≠ t.localId → t.members.lookup id = some e → Q id e

section Others

variable {Q : NodeId → MemberEntry → Prop}

open MembershipTable

/-- `merge` keeps a property of the other entries when every remote entry
brings it along. -/
theorem MembershipTable.Others.merge {t : MembershipTable} (h : t.Others Q) {now : Instant}
    {es : List RemoteEntry}
    (hes : ∀ r ∈ es, r.nodeId ≠ t.localId → Q r.nodeId (r.toMember now)) :
    (t.merge now es).Others Q := by
  induction es generalizing t with
  | nil => exact h
  | cons r es ih =>
      rw [merge_cons]
      apply ih
      · intro id e hid hlook
        rw [localId_mergeEntry] at hid
        by_cases hr : r.nodeId = t.localId
        · rw [lookup_mergeEntry_self now hr, if_neg hid] at hlook
          exact h id e hid hlook
        · rw [lookup_mergeEntry_remote now hr] at hlook
          split_ifs at hlook with hj
          · subst hj
            rw [← Option.some.inj hlook]
            cases hhere : t.members.lookup r.nodeId with
            | none => exact hes r (by simp) hr
            | some here =>
                rw [absorb]
                split_ifs
                · exact hes r (by simp) hr
                · exact h r.nodeId here hid hhere
          · exact h id e hid hlook
      · intro r' hr' hne
        rw [localId_mergeEntry] at hne
        exact hes r' (by simp [hr']) hne

theorem EntryRule.others_step (rule : EntryRule Q) {X : Crates} {g g' : GossipNode}
    {e : GossipEvent} (hstep : g.step X e = some g') (h : g.table.Others Q)
    (hmsg : ∀ now fresh msg, e = .receive now fresh msg →
      ∀ r ∈ decodeMembers X fresh msg.members, r.nodeId ≠ g.table.localId →
        Q r.nodeId (r.toMember now)) :
    g'.table.Others Q := by
  obtain heq | ⟨now, fresh, msg, he, heq⟩ | ⟨now, id, heq⟩ | ⟨id, hid, heq | heq⟩ :=
    GossipNode.table_step hstep
  · rw [heq]
    exact h
  · rw [heq]
    exact h.merge (hmsg now fresh msg he)
  · rw [heq]
    intro j entry hj hlook
    rw [lookup_touch] at hlook
    split_ifs at hlook
    · obtain ⟨e', he', rfl⟩ := Option.map_eq_some_iff.mp hlook
      exact rule.touch j e' now (h j e' hj he')
    · exact h j entry hj hlook
  · rw [heq]
    intro j entry hj hlook
    rw [localId_markSuspect] at hj
    rw [lookup_markSuspect] at hlook
    split_ifs at hlook
    · obtain ⟨e', he', rfl⟩ := Option.map_eq_some_iff.mp hlook
      split_ifs with hst
      · exact rule.suspect j e' hst (h j e' hj he')
      · exact h j e' hj he'
    · exact h j entry hj hlook
  · rw [heq]
    intro j entry hj hlook
    rw [localId_markDead] at hj
    rw [lookup_markDead] at hlook
    split_ifs at hlook
    · obtain ⟨e', he', rfl⟩ := Option.map_eq_some_iff.mp hlook
      split_ifs with hst
      · exact rule.dead j e' hst (h j e' hj he')
      · exact h j e' hj he'
    · exact h j entry hj hlook

theorem MembershipTable.Others.markSelfAlive {t : MembershipTable} (h : t.Others Q) :
    t.markSelfAlive.Others Q := by
  intro id e hid hlook
  rw [localId_markSelfAlive] at hid
  rw [lookup_markSelfAlive, if_neg hid] at hlook
  exact h id e hid hlook

end Others

end SelfHealingCache
