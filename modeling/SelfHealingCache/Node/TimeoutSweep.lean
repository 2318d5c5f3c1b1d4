import SelfHealingCache.Node.Forward

/-!
# The timeout sweep

`check_timeouts` decides in two places. The loop of `protocol.rs` reads
the verdict off a snapshot (`verdict`); `mark_suspect` and `mark_dead` of
`state.rs` carry it out if the status the table holds NOW is one they
accept (`heeds`). `lookup_sweepMember` puts the two together, and is all
that is used of either.

Alone, the sweep finds every entry as in its snapshot, and the two
places disagree about one status: the loop monitors Joining members, but
`mark_suspect` acts on Alive ones only.

With merges and touches in between, the entry may be another by the time
the verdict is carried out, and neither guard looks at `last_seen`.
-/

namespace SelfHealingCache

/-! ## The two decisions -/

/-- The status the loop of `check_timeouts` decides on. -/
def verdict (now : Instant) (member : MemberEntry) : Option MemberStatus :=
  match member.status with
  | .alive => if suspectTimeout < now - member.lastSeen then some .suspect else none
  | .joining => if suspectTimeout < now - member.lastSeen then some .suspect else none
  | .suspect => if deadTimeout < now - member.lastSeen then some .dead else none
  | .dead => none

/-- The guards of `mark_suspect` and `mark_dead`. -/
def heeds : (verdict current : MemberStatus) → Bool
  | .suspect, .alive => true
  | .dead, .alive => true
  | .dead, .suspect => true
  | _, _ => false

/-- The verdict on `member`, carried out on the entry `e`. -/
def judge (now : Instant) (member e : MemberEntry) : MemberEntry :=
  match verdict now member with
  | some status => if heeds status e.status then { e with status := status } else e
  | none => e

namespace MembershipTable

theorem lookup_markSuspect_heeds (t : MembershipTable) (id j : NodeId) :
    (t.markSuspect id).2.members.lookup j
      = if j = id then (t.members.lookup j).map fun e =>
          if heeds .suspect e.status then { e with status := .suspect } else e
        else t.members.lookup j := by
  rw [lookup_markSuspect]
  congr 2
  funext e
  cases e.status <;> simp [heeds]

theorem lookup_markDead_heeds (t : MembershipTable) (id j : NodeId) :
    (t.markDead id).2.members.lookup j
      = if j = id then (t.members.lookup j).map fun e =>
          if heeds .dead e.status then { e with status := .dead } else e
        else t.members.lookup j := by
  rw [lookup_markDead]
  congr 2
  funext e
  cases e.status <;> simp [heeds]

end MembershipTable

theorem sweepMember_eq (now : Instant) (t : MembershipTable) (member : MemberEntry) :
    sweepMember now t member
      = if member.info.id = t.localId then t
        else match verdict now member with
          | some .suspect => (t.markSuspect member.info.id).2
          | some .dead => (t.markDead member.info.id).2
          | _ => t := by
  rw [sweepMember, verdict]
  cases member.status with
  | alive =>
      dsimp only
      split_ifs <;> rfl
  | joining =>
      dsimp only
      split_ifs <;> rfl
  | suspect =>
      dsimp only
      split_ifs <;> rfl
  | dead => rfl

/-- **One member of the sweep.** -/
theorem lookup_sweepMember (now : Instant) (t : MembershipTable) (member : MemberEntry)
    (j : NodeId) :
    (sweepMember now t member).members.lookup j
      = if j = member.info.id ∧ j ≠ t.localId
        then (t.members.lookup j).map (judge now member) else t.members.lookup j := by
  rw [sweepMember_eq]
  by_cases hlocal : member.info.id = t.localId
  · rw [if_pos hlocal, if_neg]
    rintro ⟨rfl, hne⟩
    exact hne hlocal
  · have hcond : (j = member.info.id ∧ j ≠ t.localId) ↔ j = member.info.id := by
      constructor
      · exact And.left
      · rintro rfl
        exact ⟨rfl, hlocal⟩
    -- without a verdict, or with one that no guard heeds, nothing is written
    have hkeep : (∀ e, judge now member e = e) → t.members.lookup j
        = if j = member.info.id then (t.members.lookup j).map (judge now member)
          else t.members.lookup j := by
      intro h
      rw [show judge now member = id from funext h, Option.map_id_fun, id, ite_self]
    rw [if_neg hlocal]
    simp only [hcond]
    cases hverdict : verdict now member with
    | none => exact hkeep fun e => by simp [judge, hverdict]
    | some status =>
        have hjudge : judge now member = fun e =>
            if heeds status e.status then { e with status := status } else e := by
          funext e
          simp [judge, hverdict]
        cases status with
        | suspect => rw [hjudge, MembershipTable.lookup_markSuspect_heeds]
        | dead => rw [hjudge, MembershipTable.lookup_markDead_heeds]
        | alive => exact hkeep fun e => by simp [hjudge, heeds]
        | joining => exact hkeep fun e => by simp [hjudge, heeds]

theorem localId_sweepMember (now : Instant) (t : MembershipTable) (member : MemberEntry) :
    (sweepMember now t member).localId = t.localId := by
  rcases sweepMember_cases now t member with hsame | ⟨_, hmark | hmark⟩
  · rw [hsame]
  · rw [hmark, MembershipTable.localId_markSuspect]
  · rw [hmark, MembershipTable.localId_markDead]

/-! ## The sweep alone -/

/-- A listing has an entry for each id. -/
theorem Lists.nodup_ids {t : MembershipTable} {l : List MemberEntry} (h : Lists t l) :
    (l.map (·.info.id)).Nodup := by
  rw [(h.map _).nodup_iff]
  have hkeys : t.allMembers.map (·.info.id) = t.members.keys := by
    rw [MembershipTable.allMembers, Assoc.values, List.map_map]
    apply List.map_congr_left
    intro entry hentry
    exact t.keyed entry.1 entry.2 (AList.mem_lookup_iff.mpr hentry)
  rw [hkeys]
  exact t.members.keys_nodup

/-- The sweep over entries the table holds judges each of them by
itself, and no other. -/
theorem lookup_foldl_sweepMember {now : Instant} {l : List MemberEntry} {t : MembershipTable}
    (hids : (l.map (·.info.id)).Nodup)
    (hheld : ∀ member ∈ l, t.members.lookup member.info.id = some member) :
    (∀ member ∈ l, member.info.id ≠ t.localId →
      (l.foldl (sweepMember now) t).members.lookup member.info.id
        = some (judge now member member))
    ∧ ∀ id, id ∉ l.map (·.info.id) ∨ id = t.localId →
      (l.foldl (sweepMember now) t).members.lookup id = t.members.lookup id := by
  induction l generalizing t with
  | nil => exact ⟨by simp, fun _ _ => rfl⟩
  | cons first l ih =>
      rw [List.map_cons, List.nodup_cons] at hids
      rw [List.forall_mem_cons] at hheld
      have hlater : ∀ member ∈ l,
          (sweepMember now t first).members.lookup member.info.id = some member := by
        intro member hmember
        have hne : member.info.id ≠ first.info.id := by
          intro heq
          exact hids.1 (heq ▸ List.mem_map_of_mem hmember)
        rw [lookup_sweepMember, if_neg fun h => hne h.1]
        exact hheld.2 member hmember
      obtain ⟨hmembers, hothers⟩ := ih hids.2 hlater
      rw [localId_sweepMember] at hmembers hothers
      rw [List.foldl_cons]
      refine ⟨List.forall_mem_cons.mpr ⟨?_, hmembers⟩, ?_⟩
      · intro hne
        rw [hothers _ (.inl hids.1), lookup_sweepMember, if_pos ⟨rfl, hne⟩, hheld.1]
        rfl
      · intro id hid
        have hnot : ¬ (id = first.info.id ∧ id ≠ t.localId) := by
          rintro ⟨rfl, hne⟩
          rcases hid with hid | hid
          · exact hid List.mem_cons_self
          · exact hne hid
        have hrest : id ∉ l.map (·.info.id) ∨ id = t.localId := by
          rcases hid with hid | hid
          · exact .inl fun hmem => hid (List.mem_cons_of_mem _ hmem)
          · exact .inr hid
        rw [hothers id hrest, lookup_sweepMember, if_neg hnot]

theorem lookup_checkTimeouts {t : MembershipTable} {snapshot : List MemberEntry}
    (h : Lists t snapshot) (now : Instant) (id : NodeId) :
    (checkTimeouts t now snapshot).members.lookup id
      = (t.members.lookup id).map fun e => if id = t.localId then e else judge now e e := by
  obtain ⟨hmembers, hothers⟩ := @lookup_foldl_sweepMember now snapshot t h.nodup_ids
    fun member hmember => h.mem.mp hmember
  rw [checkTimeouts]
  by_cases hid : id = t.localId
  · rw [hothers id (.inr hid)]
    simp [hid]
  · cases hlook : t.members.lookup id with
    | none =>
        rw [hothers id, hlook]
        · rfl
        · refine .inl fun hmem => ?_
          obtain ⟨member, hmember, rfl⟩ := List.mem_map.mp hmem
          rw [h.mem.mp hmember] at hlook
          cases hlook
    | some e =>
        obtain rfl := t.keyed id e hlook
        rw [hmembers e (h.mem.mpr hlook) hid]
        simp [hid]

/-- What a timeout is meant to do to an entry: the verdict, whatever the
status. -/
def condemned (now : Instant) (e : MemberEntry) : MemberEntry :=
  match verdict now e with
  | some status => { e with status := status }
  | none => e

/-- The guard refuses the verdict on one kind of entry. -/
theorem judge_self_iff {now : Instant} {e : MemberEntry} :
    judge now e e = condemned now e
      ↔ (e.status = .joining → now - e.lastSeen ≤ suspectTimeout) := by
  obtain ⟨info, status, incarnation, lastSeen⟩ := e
  cases status with
  | alive =>
      simp only [judge, condemned, verdict]
      split_ifs <;> simp_all [heeds]
  | suspect =>
      simp only [judge, condemned, verdict]
      split_ifs <;> simp_all [heeds]
  | dead => simp [judge, condemned, verdict]
  | joining =>
      by_cases hlate : suspectTimeout < now - lastSeen
      · refine iff_of_false ?_ fun h => absurd (h rfl) (Nat.not_le.mpr hlate)
        simp [judge, condemned, verdict, hlate, heeds]
      · refine iff_of_true ?_ fun _ => Nat.not_lt.mp hlate
        simp [judge, condemned, verdict, hlate]

/-- **What an uninterrupted sweep leaves**: every entry but the local one
with its verdict carried out and nothing else changed, unless a Joining
member has timed out. -/
theorem checkTimeouts_condemns_iff {t : MembershipTable} {snapshot : List MemberEntry}
    (h : Lists t snapshot) (now : Instant) :
    (∀ id, (checkTimeouts t now snapshot).members.lookup id
        = (t.members.lookup id).map fun e => if id = t.localId then e else condemned now e)
      ↔ ∀ id e, id ≠ t.localId → t.members.lookup id = some e → e.status = .joining →
        now - e.lastSeen ≤ suspectTimeout := by
  simp only [lookup_checkTimeouts h]
  constructor
  · intro hpost id e hid hlook
    have hone := hpost id
    rw [hlook, Option.map_some, Option.map_some, if_neg hid, if_neg hid] at hone
    exact judge_self_iff.mp (Option.some.inj hone)
  · intro hcond id
    cases hlook : t.members.lookup id with
    | none => rfl
    | some e =>
        rw [Option.map_some, Option.map_some]
        split_ifs with hid
        · rfl
        · rw [judge_self_iff.mpr (hcond id e hid hlook)]

/-- Node 1 with a peer 2 in the given status, seen at time zero. -/
def monitoring (status : MemberStatus) : MembershipTable :=
  (MembershipTable.new 0 ⟨1⟩ []).merge 0 [⟨⟨2⟩, "b", status, 0⟩]

/-- An Alive peer, silent for four seconds. -/
theorem checkTimeouts_condemns_alive :
    ((checkTimeouts (monitoring .alive) 4000000000 (monitoring .alive).allMembers).members.lookup
      ⟨2⟩).map (·.status) = some .suspect := by
  have hlists : Lists (monitoring .alive) (monitoring .alive).allMembers := List.Perm.refl _
  have hcond : ∀ id e, id ≠ (monitoring .alive).localId →
      (monitoring .alive).members.lookup id = some e → e.status = .joining →
        4000000000 - e.lastSeen ≤ suspectTimeout := by
    intro id e _ hlook hjoining
    have hnone : ∀ e ∈ (monitoring .alive).allMembers, e.status ≠ .joining := by decide
    exact absurd hjoining (hnone e (Assoc.mem_values.mpr ⟨id, hlook⟩))
  rw [(checkTimeouts_condemns_iff hlists 4000000000).mpr hcond]
  decide

/-- A Joining peer, silent as long: the loop suspects it, `mark_suspect`
does nothing. -/
theorem checkTimeouts_spares_joining :
    Lists (monitoring .joining) (monitoring .joining).allMembers
      ∧ ((checkTimeouts (monitoring .joining) 4000000000
        (monitoring .joining).allMembers).members.lookup ⟨2⟩).map (·.status) = some .joining
      ∧ ¬ ∀ id, (checkTimeouts (monitoring .joining) 4000000000
          (monitoring .joining).allMembers).members.lookup id
        = ((monitoring .joining).members.lookup id).map fun e =>
          if id = (monitoring .joining).localId then e else condemned 4000000000 e := by
  refine ⟨List.Perm.refl _, by decide, fun h => ?_⟩
  exact absurd (h ⟨2⟩) (by decide)

/-! ## The sweep among other calls -/

/-- A step of the sweep changes a status only on the evidence the table
holds at that moment: to Suspect when the entry is out of date, to Dead
when it is Suspect and further out of date, and never an Alive entry with
a higher incarnation than the sweep has seen. -/
def EvidenceHolds (X : Crates) (g : GossipNode) (c : TableCall) : Prop :=
  ∀ now member rest g', c = .gossip .sweepNext → g.sweep = some (now, member :: rest) →
    TableCall.step X g c = some g' →
    ∀ id e e', g.table.members.lookup id = some e → g'.table.members.lookup id = some e' →
      e'.status ≠ e.status →
      ((e'.status = .suspect ∧ suspectTimeout < now - e.lastSeen)
        ∨ (e'.status = .dead ∧ e.status = .suspect ∧ deadTimeout < now - e.lastSeen))
      ∧ ¬ (e.status = .alive ∧ member.incarnation < e.incarnation)

/-- The entry of `member` is as the sweep saw it, or is one on which the
verdict has no effect. -/
def Unrefreshed (t : MembershipTable) (member : MemberEntry) (status : MemberStatus) : Prop :=
  t.members.lookup member.info.id = some member
    ∨ ∀ e, t.members.lookup member.info.id = some e → ¬ heeds status e.status

/-- The members the sweep has yet to come to and has a verdict on. -/
def Pending (g : GossipNode) (member : MemberEntry) (status : MemberStatus) : Prop :=
  ∃ now rest, g.sweep = some (now, rest) ∧ member ∈ rest ∧ verdict now member = some status
    ∧ member.info.id ≠ g.table.localId

/-- The call, taken while a sweep is under way, does not change the entry
of a member the sweep has yet to come to and has a verdict on, unless to
one on which the verdict has no effect. -/
def Undisturbed (X : Crates) (g : GossipNode) (c : TableCall) : Prop :=
  c ≠ .gossip .sweepNext → ∀ g', TableCall.step X g c = some g' →
    ∀ member status, Pending g member status →
      g'.table.members.lookup member.info.id = g.table.members.lookup member.info.id
        ∨ ∀ e, g'.table.members.lookup member.info.id = some e → ¬ heeds status e.status

/-- The invariant: the sweep's list has each id once, and what is pending
on it is unrefreshed. -/
structure SweepInv (g : GossipNode) : Prop where
  nodup : ∀ now rest, g.sweep = some (now, rest) → (rest.map (·.info.id)).Nodup
  unrefreshed : ∀ member status, Pending g member status → Unrefreshed g.table member status

/-- What a call does to the sweep. -/
theorem sweep_of_call {X : Crates} {g g' : GossipNode} {c : TableCall}
    (h : TableCall.step X g c = some g') :
    (c ≠ .gossip .sweepNext ∧ g'.sweep = g.sweep)
    ∨ (∃ now snapshot, Lists g.table snapshot ∧ g' = { g with sweep := some (now, snapshot) })
    ∨ (∃ now member rest, c = .gossip .sweepNext ∧ g.sweep = some (now, member :: rest)
      ∧ g' = ⟨sweepMember now g.table member, some (now, rest)⟩)
    ∨ g'.sweep = none := by
  cases c with
  | gossip e =>
      cases e with
      | receive now fresh msg =>
          cases h
          exact .inl ⟨by simp, rfl⟩
      | touch now id =>
          cases h
          exact .inl ⟨by simp, rfl⟩
      | sweepBegin now snapshot =>
          rw [TableCall.step, GossipNode.step] at h
          split_ifs at h with hbegin
          cases h
          exact .inr (.inl ⟨now, snapshot, hbegin.2, rfl⟩)
      | sweepNext =>
          rw [TableCall.step, GossipNode.step] at h
          split at h
          · rename_i now member rest hsweep
            cases h
            exact .inr (.inr (.inl ⟨now, member, rest, rfl, hsweep, rfl⟩))
          · cases h
            exact .inr (.inr (.inr rfl))
          · cases h
  | merge now entries =>
      cases h
      exact .inl ⟨by simp, rfl⟩
  | markSelfAlive =>
      cases h
      exact .inl ⟨by simp, rfl⟩

/-- No sweep, nothing pending. -/
theorem sweepInv_of_none {g : GossipNode} (h : g.sweep = none) : SweepInv g where
  nodup now rest hsweep := by
    rw [h] at hsweep
    cases hsweep
  unrefreshed member status hpending := by
    obtain ⟨now, rest, hsweep, _⟩ := hpending
    rw [h] at hsweep
    cases hsweep

/-- **The invariant is kept.** A new sweep has just seen every entry; a
step of the sweep touches the entry of its own member only; any other
call keeps what is pending by assumption. -/
theorem SweepInv.step {X : Crates} {g g' : GossipNode} {c : TableCall} (hinv : SweepInv g)
    (hc : Undisturbed X g c) (h : TableCall.step X g c = some g') : SweepInv g' := by
  have hlocal : g'.table.localId = g.table.localId := (advances_step h).localId
  obtain ⟨hother, hsame⟩ | ⟨now, snapshot, hlists, rfl⟩
    | ⟨now, first, rest, rfl, hsweep, rfl⟩ | hnone
    := sweep_of_call h
  · refine ⟨fun now rest hsweep => hinv.nodup now rest (hsame ▸ hsweep), ?_⟩
    intro member status hpending
    have hbefore : Pending g member status := by
      rw [Pending, hsame, hlocal] at hpending
      exact hpending
    rcases hc hother g' h member status hbefore with hkept | himmune
    · rcases hinv.unrefreshed member status hbefore with hseen | himmune
      · exact .inl (hkept.trans hseen)
      · refine .inr fun e he => himmune e ?_
        rw [← hkept]
        exact he
    · exact .inr himmune
  · refine ⟨?_, ?_⟩
    · intro now' rest hsweep
      cases hsweep
      exact hlists.nodup_ids
    · rintro member status ⟨now', rest, hsweep, hmember, _⟩
      cases hsweep
      exact .inl (hlists.mem.mp hmember)
  · have hids := hinv.nodup now _ hsweep
    rw [List.map_cons, List.nodup_cons] at hids
    refine ⟨?_, ?_⟩
    · intro now' rest' hsweep'
      cases hsweep'
      exact hids.2
    · rintro member status ⟨now', rest', hsweep', hmember, hverdict, hid⟩
      cases hsweep'
      rw [hlocal] at hid
      have hne : member.info.id ≠ first.info.id := by
        intro heq
        exact hids.1 (heq ▸ List.mem_map_of_mem hmember)
      have hbefore := hinv.unrefreshed member status
        ⟨now, first :: rest, hsweep, List.mem_cons_of_mem _ hmember, hverdict, hid⟩
      rw [Unrefreshed, lookup_sweepMember, if_neg fun hfirst => hne hfirst.1]
      exact hbefore
  · exact sweepInv_of_none hnone

theorem judge_eq_of_ne {now : Instant} {member e : MemberEntry}
    (h : (judge now member e).status ≠ e.status) :
    ∃ status, verdict now member = some status ∧ heeds status e.status
      ∧ (judge now member e).status = status := by
  cases hverdict : verdict now member with
  | none => simp [judge, hverdict] at h
  | some status =>
      by_cases hheeds : heeds status e.status
      · exact ⟨status, rfl, hheeds, by simp [judge, hverdict, hheeds]⟩
      · simp [judge, hverdict, hheeds] at h

theorem evidence_of_verdict {now : Instant} {member : MemberEntry} {status : MemberStatus}
    (h : verdict now member = some status) :
    (status = .suspect ∧ suspectTimeout < now - member.lastSeen)
      ∨ (status = .dead ∧ member.status = .suspect ∧ deadTimeout < now - member.lastSeen) := by
  rw [verdict] at h
  cases hstatus : member.status with
  | alive =>
      simp only [hstatus] at h
      split_ifs at h with hlate
      cases h
      exact .inl ⟨rfl, hlate⟩
  | joining =>
      simp only [hstatus] at h
      split_ifs at h with hlate
      cases h
      exact .inl ⟨rfl, hlate⟩
  | suspect =>
      simp only [hstatus] at h
      split_ifs at h with hlate
      cases h
      exact .inr ⟨rfl, rfl, hlate⟩
  | dead => simp [hstatus] at h

/-- On an unrefreshed entry the sweep's evidence is the table's. -/
theorem SweepInv.evidenceHolds {X : Crates} {g : GossipNode} (hinv : SweepInv g)
    (c : TableCall) : EvidenceHolds X g c := by
  rintro now member rest g' rfl hsweep hstep id e e' he he' hne
  obtain rfl : g' = ⟨sweepMember now g.table member, some (now, rest)⟩ := by
    rw [TableCall.step, GossipNode.step, hsweep] at hstep
    exact (Option.some.inj hstep).symm
  rw [lookup_sweepMember, he] at he'
  split_ifs at he' with hid
  · cases he'
    obtain ⟨status, hverdict, hheeds, hstatus⟩ := judge_eq_of_ne hne
    rw [hstatus]
    rw [hid.1] at he
    have hpending : Pending g member status :=
      ⟨now, member :: rest, hsweep, List.mem_cons_self, hverdict, hid.1 ▸ hid.2⟩
    rcases hinv.unrefreshed member status hpending with hseen | himmune
    · rw [hseen] at he
      cases he
      exact ⟨evidence_of_verdict hverdict, fun h => absurd h.2 (lt_irrefl _)⟩
    · exact absurd hheeds (himmune e he)
  · cases he'
    exact absurd rfl hne

/-- **No verdict on fresh evidence, in an undisturbed run.** -/
theorem evidence_holds_of_undisturbed (X : Crates) {g : GossipNode} (hstart : g.sweep = none)
    {calls : List TableCall} (h : Trace.Along (TableCall.step X) (Undisturbed X) g calls) :
    Trace.Along (TableCall.step X) (EvidenceHolds X) g calls := by
  have hinv : Trace.Throughout (TableCall.step X) SweepInv g calls :=
    Trace.throughout_of_along (fun s c t hs hc hstep => hs.step hc hstep)
      (sweepInv_of_none hstart) h
  exact (Trace.along_of_throughout hinv).mono fun s c hs => hs.evidenceHolds c

/-- A sweep at six seconds over the peer 2, with a message merged between
the snapshot and the verdicts. -/
def sweepAround (entries : List RemoteEntry) : List TableCall :=
  [.gossip (.sweepBegin 6000000000 (monitoring .suspect).allMembers),
    .merge 6000000000 entries, .gossip .sweepNext, .gossip .sweepNext]

/-- Nothing is heard of a peer that has been Suspect for six seconds: it
becomes Dead. -/
theorem evidence_holds_of_silence :
    (∃ g, Trace.exec (TableCall.step (.hyphenated fun _ => 0)) ⟨monitoring .suspect, none⟩
        (sweepAround []) = some g
      ∧ (g.table.members.lookup ⟨2⟩).map (·.status) = some .dead)
    ∧ Trace.Along (TableCall.step (.hyphenated fun _ => 0))
      (EvidenceHolds (.hyphenated fun _ => 0)) ⟨monitoring .suspect, none⟩ (sweepAround []) := by
  refine ⟨⟨_, rfl, by decide⟩, evidence_holds_of_undisturbed _ rfl ?_⟩
  intro g₁ h₁
  refine ⟨?_, ?_⟩
  · rintro _ g' _ member status ⟨now, rest, hsweep, _⟩
    cases hsweep
  · intro g₂ h₂
    cases h₂
    refine ⟨?_, ?_⟩
    · rintro _ g' hstep member status _
      cases hstep
      exact .inl rfl
    · intro g₃ _
      refine ⟨fun hne => absurd rfl hne, ?_⟩
      intro g₄ _
      exact ⟨fun hne => absurd rfl hne, trivial⟩

/-- Its refutation arrives behind the snapshot (Alive, incarnation 7): the
sweep marks that entry Dead. -/
theorem evidence_fails_on_refutation :
    (∃ g, Trace.exec (TableCall.step (.hyphenated fun _ => 0)) ⟨monitoring .suspect, none⟩
        (sweepAround [⟨⟨2⟩, "b", .alive, 7⟩]) = some g
      ∧ g.table.members.lookup ⟨2⟩ = some ⟨⟨⟨2⟩, "b"⟩, .dead, 7, 6000000000⟩)
    ∧ ¬ Trace.Along (TableCall.step (.hyphenated fun _ => 0))
      (EvidenceHolds (.hyphenated fun _ => 0)) ⟨monitoring .suspect, none⟩
      (sweepAround [⟨⟨2⟩, "b", .alive, 7⟩]) := by
  refine ⟨⟨_, rfl, by decide⟩, fun h => ?_⟩
  obtain ⟨u, t, hu, ht, hsweep, hbefore, hafter⟩ : ∃ u t,
      Trace.exec (TableCall.step (.hyphenated fun _ => 0)) ⟨monitoring .suspect, none⟩
        ((sweepAround [⟨⟨2⟩, "b", .alive, 7⟩]).take 2) = some u
      ∧ TableCall.step (.hyphenated fun _ => 0) u (.gossip .sweepNext) = some t
      ∧ (∃ member rest, u.sweep = some (6000000000, member :: rest))
      ∧ u.table.members.lookup ⟨2⟩ = some ⟨⟨⟨2⟩, "b"⟩, .alive, 7, 6000000000⟩
      ∧ t.table.members.lookup ⟨2⟩ = some ⟨⟨⟨2⟩, "b"⟩, .dead, 7, 6000000000⟩ :=
    ⟨_, _, rfl, rfl, ⟨_, _, rfl⟩, by decide, by decide⟩
  obtain ⟨member, rest, hsweep⟩ := hsweep
  have hstep := h.at ((sweepAround [⟨⟨2⟩, "b", .alive, 7⟩]).take 2) hu ht
  have hevidence := (hstep _ _ _ _ rfl hsweep ht _ _ _ hbefore hafter (by decide)).1
  rcases hevidence with ⟨hsuspect, _⟩ | ⟨_, hsuspect, _⟩
  · cases hsuspect
  · cases hsuspect

end SelfHealingCache
