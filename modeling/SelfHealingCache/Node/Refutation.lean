import SelfHealingCache.Node.Forward

/-!
# Refuting an accusation

`merge` answers an entry that calls the local node Suspect or Dead by
moving the local incarnation past it: `local.incarnation =
remote_incarnation + 1`. The remote incarnation is whatever the message
carries, and the sum is a `u64` sum, which wraps to zero behind
`u64::MAX` (an unoptimised build panics there instead).

Short of that word the argument is the intended one: one entry never
lowers the local incarnation and leaves it above the accusation
(`lt_refute`), so a message does (`merge_ahead`), so does any run; and an
incarnation above the accusation outranks it wherever it is held
(`overrides_of_lt`).
-/

namespace SelfHealingCache

/-! ## One message -/

/-- `u64::MAX`. -/
def maxIncarnation : UInt64 := 18446744073709551615

theorem ne_maxIncarnation_iff {r : UInt64} : r ≠ maxIncarnation ↔ r.toNat + 1 < 2 ^ 64 := by
  have hr := r.toNat_lt
  have hmax : maxIncarnation.toNat = 2 ^ 64 - 1 := rfl
  rw [ne_eq, ← UInt64.toNat_inj, hmax]
  omega

theorem le_maxIncarnation (r : UInt64) : r ≤ maxIncarnation := by
  have hr := r.toNat_lt
  have hmax : maxIncarnation.toNat = 2 ^ 64 - 1 := rfl
  rw [UInt64.le_iff_toNat_le, hmax]
  omega

/-- Below the last word, adding one is adding one. -/
theorem lt_add_one_of_ne {r : UInt64} (h : r ≠ maxIncarnation) : r < r + 1 := by
  rw [UInt64.lt_iff_toNat_lt, U64.toNat_succ_of_lt (ne_maxIncarnation_iff.mp h)]
  omega

namespace MembershipTable

theorem le_refute {r : RemoteEntry} (hr : r.accuses → r.incarnation ≠ maxIncarnation)
    (e : MemberEntry) : e.incarnation ≤ (refute r e).incarnation := by
  rw [refute]
  split_ifs with h
  · exact h.2.trans (lt_add_one_of_ne (hr h.1)).le
  · exact le_rfl

/-- After the entry has been processed, the accusation is refuted. -/
theorem lt_refute {r : RemoteEntry} (hacc : r.accuses) (hr : r.incarnation ≠ maxIncarnation)
    (e : MemberEntry) : r.incarnation < (refute r e).incarnation := by
  rw [refute]
  split_ifs with h
  · exact lt_add_one_of_ne hr
  · exact not_le.mp fun hle => h ⟨hacc, hle⟩

/-- **A message leaves the node ahead of its accusations.** -/
theorem merge_ahead {t : MembershipTable} (now : Instant) {es : List RemoteEntry}
    (hes : ∀ r ∈ es, r.nodeId = t.localId → r.accuses → r.incarnation ≠ maxIncarnation) :
    t.localEntry.incarnation ≤ (t.merge now es).localEntry.incarnation
      ∧ ∀ r ∈ es, r.nodeId = t.localId → r.accuses →
        r.incarnation < (t.merge now es).localEntry.incarnation := by
  induction es generalizing t with
  | nil => exact ⟨le_rfl, by simp⟩
  | cons r es ih =>
      rw [List.forall_mem_cons] at hes
      obtain ⟨hmono, hahead⟩ := @ih (mergeEntry now t r) (by
        rw [localId_mergeEntry]
        exact hes.2)
      rw [localId_mergeEntry] at hahead
      have hone : t.localEntry.incarnation ≤ (mergeEntry now t r).localEntry.incarnation := by
        rw [localEntry_mergeEntry]
        split_ifs with hid
        · exact le_refute (hes.1 hid) _
        · exact le_rfl
      rw [merge_cons]
      refine ⟨hone.trans hmono, List.forall_mem_cons.mpr ⟨?_, hahead⟩⟩
      intro hid hacc
      have hlt := lt_refute hacc (hes.1 hid hacc) t.localEntry
      rw [localEntry_mergeEntry, if_pos hid] at hmono
      exact hlt.trans_le hmono

end MembershipTable

/-! ## Runs -/

/-- The entries a call merges. -/
def TableCall.merged (X : Crates) : TableCall → List RemoteEntry
  | .gossip (.receive _ fresh msg) => decodeMembers X fresh msg.members
  | .gossip _ => []
  | .merge _ entries => entries
  | .markSelfAlive => []

/-- The call merges an entry that calls the local node Suspect or Dead at
incarnation `r`. -/
def TableCall.AccusesAt (X : Crates) (g : GossipNode) (c : TableCall) (r : UInt64) : Prop :=
  ∃ e ∈ c.merged X, e.nodeId = g.table.localId ∧ e.accuses ∧ e.incarnation = r

/-- Whoever holds an entry about the node at incarnation `r` gives it up
for the node's own when a message of the node reaches it. -/
def MembershipTable.Overrides (X : Crates) (t : MembershipTable) (r : UInt64) : Prop :=
  ∀ (b : MembershipTable) (status : MemberStatus) (sent now : Instant) (fresh : Nat → NodeId)
    (listing : List MemberEntry), b.localId ≠ t.localId →
    b.held t.localId = (toLex (r, status) : UInt64 ×ₗ MemberStatus) → Lists t listing →
    (processGossipResponse X b now fresh (buildGossipMessage X sent t.localId listing)).held
        t.localId = t.localEntry.version

/-- Wherever the run is cut, the local incarnation has not decreased, and
every accusation processed so far is below it and overridden by the next
message. -/
def SelfRefutes (X : Crates) (g : GossipNode) (calls : List TableCall) : Prop :=
  ∀ pre c mid post u v w, calls = pre ++ c :: (mid ++ post) →
    Trace.exec (TableCall.step X) g pre = some u → TableCall.step X u c = some v →
    Trace.exec (TableCall.step X) v mid = some w →
    u.table.localIncarnation ≤ w.table.localIncarnation
      ∧ ∀ r, c.AccusesAt X u r → r < w.table.localIncarnation ∧ w.table.Overrides X r

/-- The call does not step over the last `u64`: no accusation at
`u64::MAX`, no `mark_self_alive` there. -/
def Unwrapped (X : Crates) (g : GossipNode) (c : TableCall) : Prop :=
  (∀ r, c.AccusesAt X g r → r ≠ maxIncarnation)
    ∧ (c = .markSelfAlive → g.table.localIncarnation ≠ maxIncarnation)

/-- A higher incarnation of one's own outranks any status. -/
theorem overrides_of_lt {X : Crates} {t : MembershipTable} {r : UInt64}
    (h : r < t.localIncarnation) : t.Overrides X r := by
  intro b status sent now fresh listing hne hheld hlists
  rw [t.localIncarnation_eq] at h
  rw [processGossipResponse, held_merge_listing hlists (Ne.symm hne), hheld,
    MembershipTable.held_localId]
  apply sup_of_le_right
  rw [WithBot.coe_le_coe, Prod.Lex.le_iff]
  exact .inl h

/-- What a call that is no refutation does to the local incarnation. -/
theorem localIncarnation_of_version {t t' : MembershipTable}
    (h : t'.localEntry.version = t.localEntry.version) :
    t'.localIncarnation = t.localIncarnation := by
  rw [t.localIncarnation_eq, t'.localIncarnation_eq]
  exact congrArg (fun v => (ofLex v).1) h

/-- **One call.** -/
theorem ahead_of_step {X : Crates} {u v : GossipNode} {c : TableCall} (hc : Unwrapped X u c)
    (h : TableCall.step X u c = some v) :
    u.table.localIncarnation ≤ v.table.localIncarnation
      ∧ ∀ r, c.AccusesAt X u r → r < v.table.localIncarnation := by
  have hmerge : ∀ now es, c.merged X = es → v.table = u.table.merge now es →
      u.table.localIncarnation ≤ v.table.localIncarnation
        ∧ ∀ r, c.AccusesAt X u r → r < v.table.localIncarnation := by
    rintro now es rfl hv
    obtain ⟨hmono, hahead⟩ := MembershipTable.merge_ahead now fun e he hid hacc =>
      hc.1 e.incarnation ⟨e, he, hid, hacc, rfl⟩
    rw [u.table.localIncarnation_eq, v.table.localIncarnation_eq, hv]
    refine ⟨hmono, ?_⟩
    rintro r ⟨e, he, hid, hacc, rfl⟩
    exact hahead e he hid hacc
  cases c with
  | gossip e =>
      by_cases hreceive : ∃ now fresh msg, e = .receive now fresh msg
      · obtain ⟨now, fresh, msg, rfl⟩ := hreceive
        cases h
        exact hmerge now _ rfl rfl
      · have hnone : (TableCall.gossip e).merged X = [] := by
          cases e with
          | receive now fresh msg => exact absurd ⟨now, fresh, msg, rfl⟩ hreceive
          | touch => rfl
          | sweepBegin => rfl
          | sweepNext => rfl
        rcases GossipNode.localVersion_step h with hsame | ⟨now, fresh, msg, he, _⟩
        · refine ⟨(localIncarnation_of_version hsame).ge, ?_⟩
          rintro r ⟨e', he', _⟩
          rw [hnone] at he'
          cases he'
        · exact absurd ⟨now, fresh, msg, he⟩ hreceive
  | merge now entries =>
      cases h
      exact hmerge now _ rfl rfl
  | markSelfAlive =>
      cases h
      refine ⟨?_, ?_⟩
      · rw [MembershipTable.localIncarnation_eq, MembershipTable.localIncarnation_eq,
          MembershipTable.localEntry_markSelfAlive]
        have hne := hc.2 rfl
        rw [MembershipTable.localIncarnation_eq] at hne
        exact (lt_add_one_of_ne hne).le
      · rintro r ⟨e, he, _⟩
        cases he

/-- Over any run the local incarnation does not decrease. -/
theorem localIncarnation_exec {X : Crates} {v w : GossipNode} {calls : List TableCall}
    (hcalls : Trace.Along (TableCall.step X) (Unwrapped X) v calls)
    (h : Trace.exec (TableCall.step X) v calls = some w) :
    v.table.localIncarnation ≤ w.table.localIncarnation := by
  refine Trace.exec_invariant (I := fun s => v.table.localIncarnation ≤ s.table.localIncarnation)
    ?_ le_rfl hcalls h
  intro s c t hs hc hstep
  exact hs.trans (ahead_of_step hc hstep).1

/-- **Refutation wins as long as nothing steps over the last `u64`**, and
only then: an accusation there cannot be outranked, and the step itself
starts again at zero. -/
theorem selfRefutes_iff (X : Crates) (g : GossipNode) (calls : List TableCall) :
    SelfRefutes X g calls ↔ Trace.Along (TableCall.step X) (Unwrapped X) g calls := by
  constructor
  · intro h
    refine Trace.along_iff_at.mpr fun pre c post u v hcalls hpre hc => ?_
    obtain ⟨hmono, hahead⟩ := h pre c [] post u v v hcalls hpre hc rfl
    refine ⟨?_, ?_⟩
    · rintro r hr rfl
      exact absurd (hahead _ hr).1 (not_lt.mpr (le_maxIncarnation _))
    · rintro rfl hmax
      cases hc
      rw [u.table.localIncarnation_eq] at hmax
      rw [MembershipTable.localIncarnation_eq, MembershipTable.localIncarnation_eq,
        MembershipTable.localEntry_markSelfAlive, hmax] at hmono
      exact absurd (show maxIncarnation ≤ maxIncarnation + 1 from hmono) (by decide)
  · intro h pre c mid post u v w hcalls hpre hc hmid
    rw [hcalls] at h
    obtain ⟨hone, hrest⟩ := Trace.along_cons.mp (Trace.along_append hpre h).2 v hc
    obtain ⟨hmono, hahead⟩ := ahead_of_step hone hc
    have hlater := localIncarnation_exec (Trace.along_append hmid hrest).1 hmid
    refine ⟨hmono.trans hlater, fun r hr => ?_⟩
    have hlt := (hahead r hr).trans_le hlater
    exact ⟨hlt, overrides_of_lt hlt⟩

/-- Called Suspect at 4, then Dead at `u64::MAX`. -/
def maxAccusation : List TableCall :=
  [.merge 1 [⟨⟨1⟩, "", .suspect, 4⟩], .merge 2 [⟨⟨1⟩, "", .dead, maxIncarnation⟩]]

/-- The second accusation takes the node from incarnation 5 back to zero,
while whoever sent it holds the node Dead at `u64::MAX`. -/
theorem not_selfRefutes_maxAccusation :
    (∃ w, Trace.exec (TableCall.step (.hyphenated fun _ => 0)) ⟨.new 0 ⟨1⟩ [], none⟩
        maxAccusation = some w ∧ w.table.localIncarnation = 0)
      ∧ ¬ SelfRefutes (.hyphenated fun _ => 0) ⟨.new 0 ⟨1⟩ [], none⟩ maxAccusation := by
  refine ⟨⟨_, rfl, rfl⟩, fun h => ?_⟩
  obtain ⟨hmono, _⟩ := h [.merge 1 [⟨⟨1⟩, "", .suspect, 4⟩]] _ [] [] _ _ _ rfl rfl rfl rfl
  exact absurd (show (5 : UInt64) ≤ 0 from hmono) (by decide)

end SelfHealingCache
