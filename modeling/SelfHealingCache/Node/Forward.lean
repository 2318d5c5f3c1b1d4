import SelfHealingCache.Node.Authority
import SelfHealingCache.Node.GossipTask

/-!
# Entries only move forward

Several methods write a status or an incarnation, each behind a guard of
its own: `merge` its precedence table, the timeout sweep the guards of
`mark_suspect` and `mark_dead`, the rebalancer's `mark_self_alive` none at
all. `Advances` is what they have in common. At another id the version
only grows; the local status stays or becomes Alive.

The relation composes, so one lemma a call gives it for a whole run
(`advances_exec`), with the timeout sweep cut at the table's lock and
everything else free to run in between.
-/

namespace SelfHealingCache

/-! ## The relation -/

/-- How a table may change. -/
structure Advances (t t' : MembershipTable) : Prop where
  localId : t'.localId = t.localId
  held : ∀ id, id ≠ t.localId → t.held id ≤ t'.held id
  status : t'.localEntry.status = .alive ∨ t'.localEntry.status = t.localEntry.status

namespace Advances

variable {t t' t'' : MembershipTable}

theorem refl (t : MembershipTable) : Advances t t where
  localId := rfl
  held _ _ := le_rfl
  status := .inr rfl

theorem trans (h : Advances t t') (h' : Advances t' t'') : Advances t t'' where
  localId := h'.localId.trans h.localId
  held id hid := (h.held id hid).trans (h'.held id (by rw [h.localId]; exact hid))
  status := by
    rcases h'.status with halive | hsame
    · exact .inl halive
    · rw [hsame]
      exact h.status

/-- An entry is still there, at its version or a later one. -/
theorem lookup (h : Advances t t') {id : NodeId} (hid : id ≠ t.localId) {e : MemberEntry}
    (he : t.members.lookup id = some e) :
    ∃ e', t'.members.lookup id = some e' ∧ e.version ≤ e'.version := by
  have hle := h.held id hid
  rw [MembershipTable.held_eq he] at hle
  cases hlook : t'.members.lookup id with
  | none =>
      rw [MembershipTable.held, hlook] at hle
      exact absurd (le_bot_iff.mp hle) WithBot.coe_ne_bot
  | some e' =>
      rw [MembershipTable.held_eq hlook] at hle
      exact ⟨e', rfl, WithBot.coe_le_coe.mp hle⟩

theorem not_accuses (h : Advances t t') (hfine : ¬ t.localEntry.status.accuses) :
    ¬ t'.localEntry.status.accuses := by
  rcases h.status with halive | hsame
  · rw [halive]
    decide
  · rw [hsame]
    exact hfine

theorem stays_alive (h : Advances t t') (halive : t.localEntry.status = .alive) :
    t'.localEntry.status = .alive := by
  rcases h.status with hnow | hsame
  · exact hnow
  · rw [hsame]
    exact halive

end Advances

/-! ## One call -/

namespace MembershipTable

/-- An update of one entry that never lowers its version lowers none. -/
theorem held_le_of_lookup {t t' : MembershipTable} {id j : NodeId} {f : MemberEntry → MemberEntry}
    (hf : ∀ e, e.version ≤ (f e).version)
    (h : t'.members.lookup j
      = if j = id then (t.members.lookup j).map f else t.members.lookup j) :
    t.held j ≤ t'.held j := by
  rw [held, held, h]
  cases t.members.lookup j with
  | none => exact bot_le
  | some e =>
      split_ifs
      · exact WithBot.coe_le_coe.mpr (hf e)
      · exact le_rfl

/-- The same incarnation and a later status. -/
theorem version_le_of_status {e : MemberEntry} {st : MemberStatus} (h : e.status ≤ st) :
    e.version ≤ { e with status := st }.version :=
  Prod.Lex.le_iff.mpr (.inr ⟨rfl, h⟩)

theorem advances_merge (t : MembershipTable) (now : Instant) (es : List RemoteEntry) :
    Advances t (t.merge now es) where
  localId := localId_merge t now es
  held id hid := by
    rw [held_merge (fun _ _ => .inr hid)]
    exact le_sup_left
  status := by
    -- only a refutation writes the local status, and it writes Alive
    induction es generalizing t with
    | nil => exact .inr rfl
    | cons r es ih =>
        rw [merge_cons]
        rcases ih (mergeEntry now t r) with halive | hsame
        · exact .inl halive
        · rw [hsame, localEntry_mergeEntry, refute]
          split_ifs
          · exact .inl rfl
          · exact .inr rfl
          · exact .inr rfl

theorem advances_touch (t : MembershipTable) (now : Instant) (id : NodeId) :
    Advances t (t.touch now id) where
  localId := rfl
  held j _ := by rw [held_touch]
  status := .inr (congrArg (fun v => (ofLex v).2) (version_localEntry_touch t now id))

theorem advances_markSuspect {t : MembershipTable} {id : NodeId} (hid : id ≠ t.localId) :
    Advances t (t.markSuspect id).2 where
  localId := localId_markSuspect t id
  held j _ := by
    refine held_le_of_lookup (fun e => ?_) (lookup_markSuspect t id j)
    split_ifs with halive
    · exact version_le_of_status (by rw [halive]; decide)
    · exact le_rfl
  status := .inr (by rw [localEntry_markSuspect hid])

theorem advances_markDead {t : MembershipTable} {id : NodeId} (hid : id ≠ t.localId) :
    Advances t (t.markDead id).2 where
  localId := localId_markDead t id
  held j _ := by
    refine held_le_of_lookup (fun e => ?_) (lookup_markDead t id j)
    split_ifs with hst
    · rcases hst with hst | hst
      · exact version_le_of_status (by rw [hst]; decide)
      · exact version_le_of_status (by rw [hst]; decide)
    · exact le_rfl
  status := .inr (by rw [localEntry_markDead hid])

theorem advances_markSelfAlive (t : MembershipTable) : Advances t t.markSelfAlive where
  localId := rfl
  held j hj := by rw [held, held, lookup_markSelfAlive, if_neg hj]
  status := .inl (by rw [localEntry_markSelfAlive])

/-- A new table calls its own node Joining or Alive. -/
theorem not_accuses_new (now : Instant) (localId : NodeId) (seeds : List NodeInfo) :
    ¬ (new now localId seeds).localEntry.status.accuses := by
  rw [(localEntry_new now localId seeds).2]
  split_ifs <;> decide

end MembershipTable

/-! ## Runs of calls -/

/-- A call that writes the table: a gossip step (the timeout sweep among
them), a merge of any entries at all, or the end of a rebalance. -/
inductive TableCall where
  | gossip (e : GossipEvent)
  | merge (now : Instant) (entries : List RemoteEntry)
  | markSelfAlive

def TableCall.step (X : Crates) (g : GossipNode) : TableCall → Option GossipNode
  | .gossip e => g.step X e
  | .merge now entries => some { g with table := g.table.merge now entries }
  | .markSelfAlive => some { g with table := g.table.markSelfAlive }

theorem advances_step {X : Crates} {g g' : GossipNode} {c : TableCall}
    (h : TableCall.step X g c = some g') : Advances g.table g'.table := by
  cases c with
  | gossip e =>
      obtain heq | ⟨now, fresh, msg, _, heq⟩ | ⟨now, id, heq⟩ | ⟨id, hid, heq | heq⟩ :=
        GossipNode.table_step h
      · rw [heq]
        exact .refl _
      · rw [heq]
        exact MembershipTable.advances_merge ..
      · rw [heq]
        exact MembershipTable.advances_touch ..
      · rw [heq]
        exact MembershipTable.advances_markSuspect hid
      · rw [heq]
        exact MembershipTable.advances_markDead hid
  | merge now entries =>
      cases h
      exact MembershipTable.advances_merge ..
  | markSelfAlive =>
      cases h
      exact MembershipTable.advances_markSelfAlive _

theorem advances_exec {X : Crates} {g g' : GossipNode} {calls : List TableCall}
    (h : Trace.exec (TableCall.step X) g calls = some g') : Advances g.table g'.table := by
  refine Trace.exec_invariant (I := fun s => Advances g.table s.table) (C := fun _ _ => True)
    ?_ (.refl _) (Trace.along_of_forall (fun _ _ => trivial) g) h
  intro s c t hs _ hstep
  exact hs.trans (advances_step hstep)

/-- **Entries only move forward.** Over any run an entry about another
node stays and its version never decreases, so a Dead one comes back as
Alive or Joining only with a higher incarnation; the local entry, present
in every table, never becomes Joining again; and in a run that begins
with a new table it is never Suspect or Dead. -/
theorem members_move_forward (X : Crates) {g g' : GossipNode} {calls : List TableCall}
    (hrun : Trace.exec (TableCall.step X) g calls = some g') :
    (∀ id e, id ≠ g.table.localId → g.table.members.lookup id = some e →
      ∃ e', g'.table.members.lookup id = some e'
        ∧ (e.incarnation < e'.incarnation
          ∨ e.incarnation = e'.incarnation ∧ e.status.rank ≤ e'.status.rank)
        ∧ (e.status = .dead → e'.status = .alive ∨ e'.status = .joining →
          e.incarnation < e'.incarnation))
    ∧ g'.table.localId = g.table.localId
    ∧ (g'.table.members.lookup g.table.localId).isSome
    ∧ (g.table.localEntry.status = .alive → g'.table.localEntry.status = .alive)
    ∧ (∀ now localId seeds past,
      Trace.exec (TableCall.step X) ⟨.new now localId seeds, none⟩ past = some g →
        g'.table.localEntry.status ≠ .suspect ∧ g'.table.localEntry.status ≠ .dead) := by
  have hadv := advances_exec hrun
  refine ⟨?_, hadv.localId, ?_, hadv.stays_alive, ?_⟩
  · intro id e hid he
    obtain ⟨e', he', hle⟩ := hadv.lookup hid he
    have horder : e.incarnation < e'.incarnation
        ∨ e.incarnation = e'.incarnation ∧ e.status.rank ≤ e'.status.rank :=
      Prod.Lex.le_iff.mp hle
    refine ⟨e', he', horder, fun hdead hback => ?_⟩
    rcases horder with hlt | ⟨_, hrank⟩
    · exact hlt
    · -- at equal incarnation nothing ranks above Dead
      rw [hdead] at hrank
      rcases hback with hback | hback <;> · rw [hback] at hrank; exact absurd hrank (by decide)
  · rw [← hadv.localId]
    exact g'.table.hasLocal
  · -- the run so far and this one are one run from a new table
    intro now localId seeds past hpast
    have hfine := ((advances_exec hpast).trans hadv).not_accuses
      (MembershipTable.not_accuses_new now localId seeds)
    exact ⟨fun h => hfine (.inl h), fun h => hfine (.inr h)⟩

/-- Node 1, started with the seed 2. -/
def seededNode : GossipNode := ⟨.new 0 ⟨1⟩ [⟨⟨2⟩, "b"⟩], none⟩

/-- It hears that 2 is Dead, finishes joining, is accused itself, and
hears an old report that 2 is Alive. -/
def accusedCalls : List TableCall :=
  [.merge 1 [⟨⟨2⟩, "b", .dead, 3⟩], .markSelfAlive,
    .merge 2 [⟨⟨1⟩, "", .dead, 7⟩, ⟨⟨2⟩, "b", .alive, 3⟩]]

theorem members_move_forward_accused :
    ∃ g, Trace.exec (TableCall.step (.hyphenated fun _ => 0)) seededNode accusedCalls = some g
      ∧ (g.table.members.lookup ⟨2⟩).map (·.status) = some .dead
      ∧ g.table.localEntry.incarnation = 8
      ∧ g.table.localEntry.status ≠ .suspect ∧ g.table.localEntry.status ≠ .dead := by
  obtain ⟨g, hrun, hdead, hinc⟩ :
      ∃ g, Trace.exec (TableCall.step (.hyphenated fun _ => 0)) seededNode accusedCalls = some g
        ∧ (g.table.members.lookup ⟨2⟩).map (·.status) = some .dead
        ∧ g.table.localEntry.incarnation = 8 :=
    ⟨_, rfl, rfl, rfl⟩
  refine ⟨g, hrun, hdead, hinc, ?_⟩
  exact (members_move_forward (.hyphenated fun _ => 0) hrun).2.2.2.2 0 ⟨1⟩ [⟨⟨2⟩, "b"⟩] [] rfl

end SelfHealingCache
