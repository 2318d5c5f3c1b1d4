import SelfHealingCache.Node.TimeoutSweep

/-!
# A silent peer is detected

A sweep carries its verdict out whatever is merged while it is under way
(`held_of_sweep`): an entry it finds Alive for too long ends at Suspect
or later, one it finds Suspect for too long at Dead, and entries only
move forward.

What the next sweep finds is another matter, because merging a report
refreshes `last_seen` also when the report is itself a suspicion. `Known`
is what stays true of the entry of a peer that is never touched: as long
as its incarnation is not raised it is refreshed only by the report that
makes it Suspect, so two sweeps are enough (`held_of_silence`): one begun
`SUSPECT_TIMEOUT` after the peer fell silent, and one begun
`DEAD_TIMEOUT` after anything was merged before the first had ended.
-/

namespace SelfHealingCache

/-! ## One sweep -/

/-- What a verdict on an entry that is not Joining can be. -/
theorem verdict_cases {now : Instant} {member : MemberEntry} {status : MemberStatus}
    (h : verdict now member = some status) (hstanding : member.status ≠ .joining) :
    (member.status = .alive ∧ status = .suspect)
    ∨ (member.status = .suspect ∧ status = .dead) := by
  rw [verdict] at h
  cases hst : member.status with
  | joining => exact absurd hst hstanding
  | dead => simp [hst] at h
  | alive =>
      simp only [hst] at h
      split_ifs at h
      exact .inl ⟨rfl, (Option.some.inj h).symm⟩
  | suspect =>
      simp only [hst] at h
      split_ifs at h
      exact .inr ⟨rfl, (Option.some.inj h).symm⟩

/-- The guard of a verdict refuses only what is already there, of the
statuses that can have followed the one the verdict was about. -/
theorem le_of_not_heeds {seen status here : MemberStatus}
    (hverdict : (seen = .alive ∧ status = .suspect) ∨ (seen = .suspect ∧ status = .dead))
    (hlater : seen ≤ here) (hrefused : ¬ heeds status here) : status ≤ here := by
  rcases hverdict with ⟨rfl, rfl⟩ | ⟨rfl, rfl⟩
  · revert hlater hrefused
    cases here <;> decide
  · revert hlater hrefused
    cases here <;> decide

/-- A verdict on an entry brings any later version of it at least that
far. -/
theorem le_version_judge {now : Instant} {member e : MemberEntry} {status : MemberStatus}
    (hverdict : verdict now member = some status) (hstanding : member.status ≠ .joining)
    (h : member.version ≤ e.version) :
    toLex (member.incarnation, status) ≤ (judge now member e).version := by
  have hinc : member.incarnation ≤ e.incarnation := Version.incarnation_le h
  simp only [judge, hverdict]
  split_ifs with hheeds
  · exact Prod.Lex.toLex_mono ⟨hinc, le_rfl⟩
  · rcases Prod.Lex.le_iff.mp h with hlt | ⟨_, hle⟩
    · exact Prod.Lex.le_iff.mpr (.inl hlt)
    · exact Prod.Lex.toLex_mono
        ⟨hinc, le_of_not_heeds (verdict_cases hverdict hstanding) hle hheeds⟩

section Sweep

variable {X : Crates} {g g' : GossipNode} {now : Instant} {member : MemberEntry}
  {status : MemberStatus}

/-- The verdict has been carried out, or the sweep has yet to come to it. -/
def Due (now : Instant) (member : MemberEntry) (status : MemberStatus) (g : GossipNode) : Prop :=
  member.info.id ≠ g.table.localId
  ∧ ((toLex (member.incarnation, status) : Version) ≤ g.table.held member.info.id
    ∨ ((member.version : Version) ≤ g.table.held member.info.id
      ∧ ∃ rest, g.sweep = some (now, rest) ∧ member ∈ rest))

theorem Due.step (hverdict : verdict now member = some status)
    (hstanding : member.status ≠ .joining) {c : TableCall} (h : Due now member status g)
    (hstep : TableCall.step X g c = some g') : Due now member status g' := by
  have hadv := advances_step hstep
  obtain ⟨hid, hdue⟩ := h
  have hmono := hadv.held member.info.id hid
  refine ⟨hadv.localId ▸ hid, ?_⟩
  rcases hdue with hdone | ⟨hheld, rest, hsweep, hmem⟩
  · exact .inl (hdone.trans hmono)
  · have hkeep : g'.sweep = g.sweep → (member.version : Version) ≤ g'.table.held member.info.id
        ∧ ∃ rest, g'.sweep = some (now, rest) ∧ member ∈ rest :=
      fun hsame => ⟨hheld.trans hmono, rest, hsame.trans hsweep, hmem⟩
    cases c with
    | merge t entries => cases hstep; exact .inr (hkeep rfl)
    | markSelfAlive => cases hstep; exact .inr (hkeep rfl)
    | gossip e =>
        cases e with
        | receive t fresh msg => cases hstep; exact .inr (hkeep rfl)
        | touch t id => cases hstep; exact .inr (hkeep rfl)
        -- one sweep at a time
        | sweepBegin t snapshot => simp [TableCall.step, GossipNode.step, hsweep] at hstep
        | sweepNext =>
            cases rest with
            | nil => cases hmem
            | cons first rest =>
                have hg' : g' = ⟨sweepMember now g.table first, some (now, rest)⟩ := by
                  simpa [TableCall.step, GossipNode.step, hsweep] using hstep.symm
                rcases List.mem_cons.mp hmem with rfl | hlater
                -- its turn: the verdict is carried out, or the entry has gone past it
                · left
                  obtain ⟨e, he⟩ : ∃ e, g.table.members.lookup member.info.id = some e := by
                    cases hlook : g.table.members.lookup member.info.id with
                    | none => simp [MembershipTable.held, hlook] at hheld
                    | some e => exact ⟨e, rfl⟩
                  have hafter : g'.table.members.lookup member.info.id
                      = some (judge now member e) := by
                    rw [hg', lookup_sweepMember, if_pos ⟨rfl, hid⟩, he]
                    rfl
                  rw [MembershipTable.held_eq he] at hheld
                  rw [MembershipTable.held_eq hafter]
                  exact WithBot.coe_le_coe.mpr
                    (le_version_judge hverdict hstanding (WithBot.coe_le_coe.mp hheld))
                · exact .inr ⟨hheld.trans hmono, rest, by rw [hg'], hlater⟩

/-- **A sweep carries its verdicts out**, in any interleaving: by the
time no sweep is in progress the entry is at least where the verdict
wants it. -/
theorem held_of_sweep {calls : List TableCall} {snapshot : List MemberEntry}
    (hverdict : verdict now member = some status) (hstanding : member.status ≠ .joining)
    (hid : member.info.id ≠ g.table.localId)
    (hlook : g.table.members.lookup member.info.id = some member)
    (hsweep : g.sweep = some (now, snapshot)) (hmem : member ∈ snapshot)
    (hrun : Trace.exec (TableCall.step X) g calls = some g') (hdone : g'.sweep = none) :
    (toLex (member.incarnation, status) : Version) ≤ g'.table.held member.info.id := by
  have hstart : Due now member status g := by
    refine ⟨hid, .inr ⟨?_, snapshot, hsweep, hmem⟩⟩
    rw [MembershipTable.held_eq hlook]
  have hend : Due now member status g' :=
    Trace.exec_invariant (C := fun _ _ => True)
      (fun _ _ _ hs _ hstep => hs.step hverdict hstanding hstep) hstart
      (Trace.along_of_forall (fun _ _ => trivial) g) hrun
  rcases hend.2 with hdue | ⟨_, rest, hsweep', _⟩
  · exact hdue
  · rw [hdone] at hsweep'
    cases hsweep'

end Sweep

/-- A sweep begins when none is in progress, with a listing. -/
theorem sweepBegin_of_step {X : Crates} {g g' : GossipNode} {now : Instant}
    {snapshot : List MemberEntry}
    (h : TableCall.step X g (.gossip (.sweepBegin now snapshot)) = some g') :
    g.sweep = none ∧ Lists g.table snapshot ∧ g' = ⟨g.table, some (now, snapshot)⟩ := by
  rw [TableCall.step, GossipNode.step] at h
  split_ifs at h with hbegin
  exact ⟨by simpa using hbegin.1, hbegin.2, (Option.some.inj h).symm⟩

/-! ## A peer that is not touched -/

/-- The entries a call merges, and when. -/
def TableCall.heard (X : Crates) : TableCall → Option (Instant × List RemoteEntry)
  | .gossip (.receive now fresh msg) => some (now, decodeMembers X fresh msg.members)
  | .merge now entries => some (now, entries)
  | _ => none

/-- What is known of a peer at incarnation `i` or above: at `i` itself it
is not Joining, was last refreshed by the time `bound`, and while it is
Alive at `seen`. -/
def Known (x : NodeId) (i : UInt64) (seen bound : Instant) (t : MembershipTable) : Prop :=
  x ≠ t.localId ∧ ∃ e, t.members.lookup x = some e ∧ i ≤ e.incarnation
    ∧ (e.incarnation = i → e.status ≠ .joining ∧ e.lastSeen ≤ bound
      ∧ (e.status = .alive → e.lastSeen = seen))

section Known

open MembershipTable

variable {x : NodeId} {i : UInt64} {seen bound : Instant} {t t' : MembershipTable}

/-- An entry that is left alone. -/
theorem Known.of_lookup (h : Known x i seen bound t) (hid : t'.localId = t.localId)
    (hlook : t'.members.lookup x = t.members.lookup x) : Known x i seen bound t' := by
  obtain ⟨hx, hentry⟩ := h
  refine ⟨hid ▸ hx, ?_⟩
  rw [hlook]
  exact hentry

theorem Known.mergeEntry (h : Known x i seen bound t) {now : Instant} (hnow : now ≤ bound)
    (r : RemoteEntry) : Known x i seen bound (mergeEntry now t r) := by
  have hid : (MembershipTable.mergeEntry now t r).localId = t.localId := localId_mergeEntry now t r
  by_cases hself : r.nodeId = t.localId
  · apply h.of_lookup hid
    rw [lookup_mergeEntry_self now hself, if_neg h.1]
  · by_cases hr : x = r.nodeId
    · obtain ⟨hx, e, he, hinc, hat⟩ := h
      refine ⟨hid ▸ hx, absorb now r (some e), ?_, ?_⟩
      · rw [lookup_mergeEntry_remote now hself, if_pos hr, he]
      · rw [absorb]
        split_ifs with hnews
        · -- news at the same incarnation is a suspicion or worse
          refine ⟨hinc.trans (Version.incarnation_le hnews.le), fun hri => ?_⟩
          have hei : e.incarnation = i :=
            le_antisymm (by rw [← hri]; exact Version.incarnation_le hnews.le) hinc
          have hstatus : e.status < r.status := by
            rcases Prod.Lex.lt_iff.mp hnews with hlt | ⟨_, hlt⟩
            · have hlt' : e.incarnation < r.incarnation := hlt
              have hri' : r.incarnation = i := hri
              rw [hei, hri'] at hlt'
              exact absurd hlt' (lt_irrefl i)
            · exact hlt
          obtain ⟨hjoining, _, _⟩ := hat hei
          have hworse : r.status ≠ .joining ∧ r.status ≠ .alive := by
            revert hstatus hjoining
            cases e.status <;> cases r.status <;> decide
          exact ⟨hworse.1, hnow, fun halive => absurd halive hworse.2⟩
        · exact ⟨hinc, hat⟩
    · apply h.of_lookup hid
      rw [lookup_mergeEntry_remote now hself, if_neg hr]

theorem Known.merge {now : Instant} (hnow : now ≤ bound) (es : List RemoteEntry)
    (h : Known x i seen bound t) : Known x i seen bound (t.merge now es) := by
  induction es generalizing t with
  | nil => exact h
  | cons r es ih =>
      rw [merge_cons]
      exact ih (h.mergeEntry hnow r)

theorem Known.sweepMember (h : Known x i seen bound t) (now : Instant) (member : MemberEntry) :
    Known x i seen bound (sweepMember now t member) := by
  by_cases hx : x = member.info.id
  · obtain ⟨hlocal, e, he, hinc, hat⟩ := h
    refine ⟨by rw [localId_sweepMember]; exact hlocal, judge now member e, ?_, ?_⟩
    · rw [lookup_sweepMember, if_pos ⟨hx, hlocal⟩, he]
      rfl
    · rw [judge]
      split
      · rename_i status _
        split_ifs with hheeds
        · refine ⟨hinc, fun hi => ?_⟩
          have hverdict : status ≠ .joining ∧ status ≠ .alive := by
            revert hheeds
            cases status <;> cases e.status <;> decide
          exact ⟨hverdict.1, (hat hi).2.1, fun halive => absurd halive hverdict.2⟩
        · exact ⟨hinc, hat⟩
      · exact ⟨hinc, hat⟩
  · apply h.of_lookup (localId_sweepMember now t member)
    rw [lookup_sweepMember, if_neg fun hcond => hx hcond.1]

theorem Known.step {X : Crates} {g g' : GossipNode} {c : TableCall}
    (h : Known x i seen bound g.table) (htouch : ∀ now, c ≠ .gossip (.touch now x))
    (hheard : ∀ now es, c.heard X = some (now, es) → now ≤ bound)
    (hstep : TableCall.step X g c = some g') : Known x i seen bound g'.table := by
  cases c with
  | merge now entries =>
      cases hstep
      exact h.merge (hheard now entries rfl) entries
  | markSelfAlive =>
      cases hstep
      apply h.of_lookup (localId_markSelfAlive g.table)
      rw [lookup_markSelfAlive, if_neg h.1]
  | gossip e =>
      cases e with
      | receive now fresh msg =>
          cases hstep
          exact h.merge (hheard now _ rfl) _
      | touch now id =>
          cases hstep
          have hid : x ≠ id := fun heq => htouch now (by rw [heq])
          apply h.of_lookup (localId_touch g.table now id)
          rw [lookup_touch, if_neg hid]
      | sweepBegin now snapshot =>
          rw [TableCall.step, GossipNode.step] at hstep
          split_ifs at hstep
          cases hstep
          exact h
      | sweepNext =>
          rw [TableCall.step, GossipNode.step] at hstep
          split at hstep
          · cases hstep
            exact h.sweepMember _ _
          · cases hstep
            exact h
          · cases hstep

theorem Known.exec {X : Crates} {g g' : GossipNode} {calls : List TableCall}
    (h : Known x i seen bound g.table) (htouch : ∀ now, .gossip (.touch now x) ∉ calls)
    (hheard : ∀ c ∈ calls, ∀ now es, c.heard X = some (now, es) → now ≤ bound)
    (hrun : Trace.exec (TableCall.step X) g calls = some g') : Known x i seen bound g'.table := by
  refine Trace.exec_invariant (I := fun s => Known x i seen bound s.table) ?_ h
    (Trace.along_of_forall (P := fun c => (∀ now, c ≠ .gossip (.touch now x))
      ∧ ∀ now es, c.heard X = some (now, es) → now ≤ bound) ?_ g) hrun
  · intro s c t hs hc hstep
    exact hs.step hc.1 hc.2 hstep
  · intro c hc
    refine ⟨fun now heq => htouch now (heq ▸ hc), hheard c hc⟩

/-- What is held of the peer, as its version. -/
theorem Known.held_cases (h : Known x i seen bound t) :
    ((toLex (i, .dead) : Version) ≤ t.held x)
    ∨ (∃ e, t.members.lookup x = some e ∧ e.incarnation = i ∧ e.lastSeen ≤ bound
      ∧ (e.status = .suspect ∨ e.status = .alive ∧ e.lastSeen = seen)) := by
  obtain ⟨_, e, he, hinc, hat⟩ := h
  rcases lt_or_eq_of_le hinc with hlt | heq
  · left
    rw [held_eq he]
    exact WithBot.coe_le_coe.mpr (Prod.Lex.toLex_lt_toLex.mpr (.inl hlt)).le
  · obtain ⟨hjoining, hbound, halive⟩ := hat heq.symm
    cases hst : e.status with
    | joining => exact absurd hst hjoining
    | alive => exact .inr ⟨e, he, heq.symm, hbound, .inr ⟨hst, halive hst⟩⟩
    | suspect => exact .inr ⟨e, he, heq.symm, hbound, .inl hst⟩
    | dead =>
        left
        rw [held_eq he]
        exact WithBot.coe_le_coe.mpr (Prod.Lex.toLex_mono ⟨hinc, le_of_eq hst.symm⟩)

end Known

/-! ## Two sweeps -/

/-- A verdict a sweep has from its listing on is carried out by its end. -/
theorem held_of_listing {X : Crates} {t : MembershipTable} {g' : GossipNode} {x : NodeId}
    {e : MemberEntry} {now : Instant} {listing : List MemberEntry} {status : MemberStatus}
    {calls : List TableCall} (hx : x ≠ t.localId) (he : t.members.lookup x = some e)
    (hlists : Lists t listing) (hverdict : verdict now e = some status)
    (hstanding : e.status ≠ .joining)
    (hrun : Trace.exec (TableCall.step X) ⟨t, some (now, listing)⟩ calls = some g')
    (hdone : g'.sweep = none) : (toLex (e.incarnation, status) : Version) ≤ g'.table.held x := by
  obtain rfl : e.info.id = x := t.keyed x e he
  exact held_of_sweep hverdict hstanding hx he rfl (hlists.mem.mpr he) hrun hdone

/-- **Two sweeps are enough.** A peer last refreshed at `e.lastSeen` and
not touched until the second sweep begins is then held at Dead or at a
higher incarnation, if the first sweep begins more than `SUSPECT_TIMEOUT`
after that time and the second more than `DEAD_TIMEOUT` after everything
that was merged before. -/
theorem held_of_silence {X : Crates} {g g' : GossipNode} {x : NodeId} {e : MemberEntry}
    {before mid last : List TableCall} {n₁ n₂ bound : Instant} {l₁ l₂ : List MemberEntry}
    (hx : x ≠ g.table.localId) (he : g.table.members.lookup x = some e)
    (hstanding : e.status ≠ .joining)
    (hrun : Trace.exec (TableCall.step X) g (before ++ .gossip (.sweepBegin n₁ l₁)
      :: (mid ++ .gossip (.sweepBegin n₂ l₂) :: last)) = some g')
    (hdone : g'.sweep = none) (htouch : ∀ now, .gossip (.touch now x) ∉ before ++ mid)
    (hseen : e.lastSeen ≤ bound)
    (hheard : ∀ c ∈ before ++ mid, ∀ now es, c.heard X = some (now, es) → now ≤ bound)
    (hfirst : e.lastSeen + suspectTimeout < n₁) (hsecond : bound + deadTimeout < n₂) :
    (toLex (e.incarnation, .dead) : Version) ≤ g'.table.held x := by
  obtain ⟨g₁, hbefore, hrest⟩ := Trace.exec_append.mp hrun
  obtain ⟨g₁', hbegin₁, hrest⟩ := Trace.exec_cons.mp hrest
  obtain ⟨g₂, hmid, hrest⟩ := Trace.exec_append.mp hrest
  obtain ⟨g₂', hbegin₂, hlast⟩ := Trace.exec_cons.mp hrest
  obtain ⟨hnone₁, hlists₁, rfl⟩ := sweepBegin_of_step hbegin₁
  obtain ⟨hnone₂, hlists₂, rfl⟩ := sweepBegin_of_step hbegin₂
  have hstart : Known x e.incarnation e.lastSeen bound g.table :=
    ⟨hx, e, he, le_rfl, fun _ => ⟨hstanding, hseen, fun _ => rfl⟩⟩
  have hknown₁ : Known x e.incarnation e.lastSeen bound g₁.table :=
    hstart.exec (fun now hmem => htouch now (by simp [hmem]))
      (fun c hc => hheard c (by simp [hc])) hbefore
  have hknown₂ : Known x e.incarnation e.lastSeen bound g₂.table :=
    Known.exec (g := ⟨g₁.table, some (n₁, l₁)⟩) hknown₁
      (fun now hmem => htouch now (by simp [hmem])) (fun c hc => hheard c (by simp [hc])) hmid
  -- merges in between only raise what is held
  have hto₂ : g₁.table.held x ≤ g₂.table.held x := (advances_exec hmid).held x hknown₁.1
  have hto' : g₂.table.held x ≤ g'.table.held x := (advances_exec hlast).held x hknown₂.1
  rcases hknown₁.held_cases with hdead | ⟨e₁, he₁, hinc₁, _, hst₁⟩
  · exact hdead.trans (hto₂.trans hto')
  · -- the first sweep brings it to Suspect
    have hsuspect : (toLex (e.incarnation, .suspect) : Version) ≤ g₂.table.held x := by
      rcases hst₁ with hsuspect | ⟨halive, hseen₁⟩
      · refine le_trans ?_ hto₂
        rw [MembershipTable.held_eq he₁, ← hinc₁, ← hsuspect]
        exact le_rfl
      · have hverdict : verdict n₁ e₁ = some .suspect := by
          have hlate : suspectTimeout < n₁ - e₁.lastSeen := by
            rw [hseen₁]
            exact Nat.lt_sub_iff_add_lt'.mpr hfirst
          simp [verdict, halive, hlate]
        rw [← hinc₁]
        exact held_of_listing hknown₁.1 he₁ hlists₁ hverdict (by rw [halive]; decide) hmid hnone₂
    rcases hknown₂.held_cases with hdead | ⟨e₂, he₂, hinc₂, hbound₂, hst₂⟩
    · exact hdead.trans hto'
    · -- and the second from Suspect to Dead
      have hst : e₂.status = .suspect := by
        rcases hst₂ with hst | ⟨halive, _⟩
        · exact hst
        · rw [MembershipTable.held_eq he₂] at hsuspect
          rcases Prod.Lex.le_iff.mp (WithBot.coe_le_coe.mp hsuspect) with hlt | ⟨_, hle⟩
          · exact absurd (hinc₂ ▸ hlt) (lt_irrefl e.incarnation)
          · have hle : MemberStatus.suspect ≤ e₂.status := hle
            rw [halive] at hle
            exact absurd hle (by decide)
      have hverdict : verdict n₂ e₂ = some .dead := by
        have hlate : deadTimeout < n₂ - e₂.lastSeen :=
          Nat.lt_sub_iff_add_lt'.mpr (lt_of_le_of_lt (Nat.add_le_add_right hbound₂ _) hsecond)
        simp [verdict, hst, hlate]
      rw [← hinc₂]
      exact held_of_listing hknown₂.1 he₂ hlists₂ hverdict (by rw [hst]; decide) hlast hdone

end SelfHealingCache
