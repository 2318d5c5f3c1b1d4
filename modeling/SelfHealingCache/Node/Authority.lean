import SelfHealingCache.Node.Gossip

/-!
# What a node hears about itself

At every id but its own a node joins what it hears into what it holds.
About itself it listens to accusations only: a Suspect or Dead report at
its own incarnation or above is REFUTED by moving one past it, and any
other report is ignored.

The second rule is why a node is not quite the authority on itself. A
peer that remembers it as Suspect or Dead learns better from the next
exchange; a peer that remembers it as Alive at a higher incarnation, as
after a restart under the same id, keeps that memory.
-/

namespace SelfHealingCache

/-- Incarnation and status, in the order `merge` compares them. -/
abbrev Version := UInt64 ×ₗ MemberStatus

def MemberStatus.accuses (s : MemberStatus) : Prop := s = .suspect ∨ s = .dead

instance (s : MemberStatus) : Decidable s.accuses := inferInstanceAs (Decidable (_ ∨ _))

/-- What a report about the node itself does to its own version. -/
def refuteVersion (own heard : Version) : Version :=
  if (ofLex heard).2.accuses ∧ (ofLex own).1 ≤ (ofLex heard).1
  then toLex ((ofLex heard).1 + 1, .alive) else own

/-- The own version after a listing that says `heard` about the node. -/
def refuteHeard (own : Version) (heard : WithBot Version) : Version :=
  heard.recBotCoe own (refuteVersion own)

@[simp] theorem refuteHeard_bot (own : Version) : refuteHeard own ⊥ = own := rfl

@[simp] theorem refuteHeard_coe (own heard : Version) :
    refuteHeard own heard = refuteVersion own heard := rfl

/-- The incarnation of `v` can still be moved past. -/
def Version.Below (v : Version) : Prop := (ofLex v).1.toNat + 1 < 2 ^ 64

theorem Version.lt_bump {v w : Version} (hv : v.Below) (h : (ofLex w).1 ≤ (ofLex v).1)
    (st : MemberStatus) : w < toLex ((ofLex v).1 + 1, st) := by
  have hlt : (ofLex w).1 < (ofLex v).1 + 1 := by
    rw [UInt64.lt_iff_toNat_lt, U64.toNat_succ_of_lt hv]
    rw [UInt64.le_iff_toNat_le] at h
    omega
  exact Prod.Lex.toLex_lt_toLex.mpr (.inl hlt)

theorem Version.incarnation_le {v w : Version} (h : v ≤ w) : (ofLex v).1 ≤ (ofLex w).1 := by
  rcases Prod.Lex.le_iff.mp h with hlt | ⟨heq, _⟩
  · exact hlt.le
  · exact heq.le

/-- An accusation at or above the own version is refuted past it. -/
theorem lt_refuteVersion {own heard : Version} (hbelow : heard.Below) (h : own ≤ heard)
    (hacc : (ofLex heard).2.accuses) : heard < refuteVersion own heard := by
  rw [refuteVersion, if_pos ⟨hacc, Version.incarnation_le h⟩]
  exact Version.lt_bump hbelow le_rfl _

/-- Anything that is not an accusation is ignored. -/
theorem refuteVersion_of_not_accuses {own heard : Version} (hacc : ¬ (ofLex heard).2.accuses) :
    refuteVersion own heard = own :=
  if_neg fun h => hacc h.1

namespace MembershipTable

/-- Hearing the same report again changes nothing. -/
theorem refute_idem (r : RemoteEntry) (e : MemberEntry) : refute r (refute r e) = refute r e := by
  rw [refute]
  split_ifs with h
  · rw [refute] at h ⊢
    split_ifs with h'
    · rfl
    · rw [if_neg h'] at h
      exact absurd h h'
  · rfl

/-- When every entry about the local node is the same, hearing them all
is hearing it once. -/
theorem localEntry_merge_of_same {t : MembershipTable} {now : Instant} {es : List RemoteEntry}
    {r : RemoteEntry} (hsame : ∀ r' ∈ es, r'.nodeId = t.localId → r' = r)
    (hid : r.nodeId = t.localId) :
    (t.merge now es).localEntry = if r ∈ es then refute r t.localEntry else t.localEntry := by
  induction es generalizing t with
  | nil => rfl
  | cons r' es ih =>
      have htail := ih (t := mergeEntry now t r')
        (by rw [localId_mergeEntry]; exact fun x hx => hsame x (List.mem_cons_of_mem _ hx))
        (by rw [localId_mergeEntry]; exact hid)
      rw [merge_cons, htail, localEntry_mergeEntry]
      by_cases hr' : r'.nodeId = t.localId
      · rw [if_pos hr', hsame r' List.mem_cons_self hr', refute_idem]
        simp
      · have hne : r ≠ r' := by
          rintro rfl
          exact hr' hid
        rw [if_neg hr']
        simp [hne]

theorem version_refute (r : RemoteEntry) (e : MemberEntry) :
    (refute r e).version = refuteVersion e.version r.version := by
  show _ = if r.accuses ∧ e.incarnation ≤ r.incarnation
    then toLex (r.incarnation + 1, MemberStatus.alive) else e.version
  rw [refute]
  split_ifs <;> rfl

/-- **What a listing does to the node's own entry.** -/
theorem version_localEntry_merge_listing {X : Crates} {t s : MembershipTable}
    {now sent : Instant} {fresh : Nat → NodeId} {l : List MemberEntry} (hl : Lists s l) :
    (t.merge now (decodeMembers X fresh
        (buildGossipMessage X sent s.localId l).members)).localEntry.version
      = refuteHeard t.localEntry.version (s.held t.localId) := by
  rw [buildGossipMessage, decodeMembers_encode]
  have hentry : ∀ r ∈ l.map MemberEntry.toRemote, r.nodeId = t.localId →
      ∃ e, s.members.lookup t.localId = some e ∧ r = e.toRemote := by
    intro r hr hid
    obtain ⟨e, he, rfl⟩ := List.mem_map.mp hr
    refine ⟨e, ?_, rfl⟩
    rw [← hid]
    exact hl.mem.mp he
  cases hlook : s.members.lookup t.localId with
  | none =>
      have hquiet : (t.merge now (l.map MemberEntry.toRemote)).localEntry = t.localEntry := by
        apply localEntry_merge_of_unaccused
        intro r hr hid
        obtain ⟨e, he, _⟩ := hentry r hr hid
        rw [hlook] at he
        cases he
      rw [hquiet, held, hlook]
      rfl
  | some e =>
      have hkey : e.info.id = t.localId := s.keyed _ e hlook
      have hmem : e.toRemote ∈ l.map MemberEntry.toRemote :=
        List.mem_map_of_mem (hl.mem.mpr (by rw [hkey]; exact hlook))
      have hsame : ∀ r ∈ l.map MemberEntry.toRemote, r.nodeId = t.localId → r = e.toRemote := by
        intro r hr hid
        obtain ⟨e', he', rfl⟩ := hentry r hr hid
        rw [hlook] at he'
        cases he'
        rfl
      rw [localEntry_merge_of_same hsame hkey, if_pos hmem, version_refute, held_eq hlook,
        refuteHeard_coe]
      rfl

theorem held_localId (t : MembershipTable) : t.held t.localId = t.localEntry.version :=
  held_eq t.lookup_localId

theorem version_localEntry_eq {t : MembershipTable} {v : Version} (h : t.held t.localId = v) :
    t.localEntry.version = v := by
  rw [held_localId] at h
  exact WithBot.coe_inj.mp h

end MembershipTable

/-! ## Push, pull, push -/

/-- The version side of the exchange: `m` is what the peer holds after
the first push. -/
theorem sup_refuteVersion_eq_iff {own m : Version} (hbelow : m.Below) (h : own ≤ m) :
    m ⊔ refuteVersion own m = refuteVersion own m ↔ ((ofLex m).2.accuses ∨ m = own) := by
  by_cases hacc : (ofLex m).2.accuses
  · have hlt := lt_refuteVersion hbelow h hacc
    exact ⟨fun _ => .inl hacc, fun _ => sup_of_le_right hlt.le⟩
  · rw [refuteVersion_of_not_accuses hacc, sup_of_le_left h]
    exact ⟨.inr, fun hor => hor.resolve_left hacc⟩

namespace MembershipTable

/-- The peer remembers the node as Alive or Joining, ahead of the node's
own entry. -/
def Outranks (b a : MembershipTable) : Prop :=
  ∃ e, b.members.lookup a.localId = some e ∧ ¬ e.status.accuses
    ∧ a.localEntry.version < e.version

/-- No incarnation in the table is the last one. -/
def Unexhausted (t : MembershipTable) : Prop :=
  ∀ id e, t.members.lookup id = some e → e.incarnation.toNat + 1 < 2 ^ 64

/-- What the peer holds after the first push, as a version. -/
theorem sup_held_localEntry {a b : MembershipTable} (ha : a.Unexhausted) (hb : b.Unexhausted) :
    ∃ m : Version, b.held a.localId ⊔ a.localEntry.version = m
      ∧ a.localEntry.version ≤ m ∧ m.Below
      ∧ (b.Outranks a ↔ ¬ (ofLex m).2.accuses ∧ m ≠ a.localEntry.version)
      ∧ (b.Outranks a → b.held a.localId = m) := by
  have hown : Version.Below a.localEntry.version := ha _ _ a.lookup_localId
  cases hlook : b.members.lookup a.localId with
  | none =>
      have hnot : ¬ b.Outranks a := by
        rintro ⟨e, he, _⟩
        rw [hlook] at he
        cases he
      refine ⟨a.localEntry.version, ?_, le_rfl, hown, ?_, fun h => absurd h hnot⟩
      · rw [held, hlook, bot_sup_eq]
      · exact ⟨fun h => absurd h hnot, fun h => absurd rfl h.2⟩
  | some e =>
      have houtranks : b.Outranks a ↔ ¬ e.status.accuses ∧ a.localEntry.version < e.version := by
        constructor
        · rintro ⟨e', he', hacc, hlt⟩
          rw [hlook] at he'
          cases he'
          exact ⟨hacc, hlt⟩
        · rintro ⟨hacc, hlt⟩
          exact ⟨e, hlook, hacc, hlt⟩
      rw [held_eq hlook, ← WithBot.coe_sup, houtranks]
      rcases lt_or_ge a.localEntry.version e.version with hlt | hge
      · refine ⟨e.version, ?_, hlt.le, hb _ _ hlook, ?_, fun _ => rfl⟩
        · rw [sup_of_le_left hlt.le]
        · exact ⟨fun h => ⟨h.1, hlt.ne'⟩, fun h => ⟨h.1, hlt⟩⟩
      · refine ⟨a.localEntry.version, ?_, le_rfl, hown, ?_, fun h => absurd h.2 (not_lt.mpr hge)⟩
        · rw [sup_of_le_right hge]
        · exact ⟨fun h => absurd h.2 (not_lt.mpr hge), fun h => absurd rfl h.2⟩

end MembershipTable

theorem localId_receiveGossip (X : Crates) (t : MembershipTable) (now : Instant)
    (fresh : Nat → NodeId) (msg : GossipMessage) :
    (receiveGossip X t now fresh msg).localId = t.localId := by
  rw [receiveGossip]
  split
  · rw [MembershipTable.localId_touch, MembershipTable.localId_merge]
  · rw [MembershipTable.localId_merge]

/-- **How far a node is the authority on itself.** A node pushes its
table to a peer, merges the reply and pushes again. The peer then holds
the node's own version, unless it remembered the node as Alive or Joining
ahead of it: that is no accusation, so nobody gives way. -/
theorem push_pull_push (X : Crates) {a b : MembershipTable} (hne : a.localId ≠ b.localId)
    (ha : a.Unexhausted) (hb : b.Unexhausted) (sent got back sentAgain gotAgain : Instant)
    (fresh fresh' fresh'' : Nat → NodeId) (target : NodeId) (la lb la' : List MemberEntry)
    (hla : Lists a la) :
    let served := gossipExchange X b got fresh (buildGossipMessage X sent a.localId la) lb
    Lists served.1 lb →
    let a' := processGossipResponse X (a.touch back target) back fresh' served.2
    Lists a' la' →
    let b' := receiveGossip X served.1 gotAgain fresh''
      (buildGossipMessage X sentAgain a'.localId la')
    (b'.held a.localId = a'.localEntry.version ↔ ¬ b.Outranks a)
    ∧ (b.Outranks a →
      a'.localEntry.version = a.localEntry.version ∧ b'.held a.localId = b.held a.localId) := by
  intro served hlb a' hla' b'
  obtain ⟨m, hm, hle, hbelow, houtranks, hkept⟩ := MembershipTable.sup_held_localEntry ha hb
  have hserved : served.1.held a.localId = m := by
    rw [← hm, ← MembershipTable.held_localId]
    exact held_receiveGossip hla hne
  have hown : a'.localEntry.version = refuteVersion a.localEntry.version m := by
    have htouch : (a.touch back target).localEntry.version = a.localEntry.version := by
      apply MembershipTable.version_localEntry_eq
      rw [held_touch, MembershipTable.localId_touch, MembershipTable.held_localId]
    rw [← htouch, ← refuteHeard_coe, ← hserved]
    exact MembershipTable.version_localEntry_merge_listing hlb
  have hid : a'.localId = a.localId := MembershipTable.localId_merge ..
  have hfinal : b'.held a.localId = (m ⊔ refuteVersion a.localEntry.version m : Version) := by
    have hlocal : served.1.localId = b.localId := localId_receiveGossip ..
    rw [← hown, WithBot.coe_sup, ← hserved, ← MembershipTable.held_localId a', hid]
    exact held_receiveGossip hla' (by rw [hlocal]; exact hne)
  constructor
  · rw [hfinal, hown, WithBot.coe_inj, sup_refuteVersion_eq_iff hbelow hle, houtranks]
    tauto
  · intro hout
    have hsame : refuteVersion a.localEntry.version m = a.localEntry.version :=
      refuteVersion_of_not_accuses (houtranks.mp hout).1
    rw [hown, hfinal, hsame, hkept hout, sup_of_le_left hle]
    exact ⟨rfl, rfl⟩

/-- Node 1, freshly started. -/
def freshNode : MembershipTable := .new 0 ⟨1⟩ []

/-- Node 2, remembering node 1 as `status` at incarnation 5. -/
def rememberingNode (status : MemberStatus) : MembershipTable :=
  (MembershipTable.new 0 ⟨2⟩ []).merge 0 [⟨⟨1⟩, "", status, 5⟩]

/-- The exchange between the two, every table listed in its own order. -/
def rememberedExchange (status : MemberStatus) : MembershipTable × MembershipTable :=
  let X := Crates.hyphenated fun _ => 0
  let draw := fun _ => (⟨0⟩ : NodeId)
  let b := receiveGossip X (rememberingNode status) 1 draw
    (buildGossipMessage X 1 freshNode.localId freshNode.allMembers)
  let a := processGossipResponse X (freshNode.touch 2 ⟨2⟩) 2 draw
    (buildGossipMessage X 1 b.localId b.allMembers)
  (a, receiveGossip X b 3 draw (buildGossipMessage X 3 a.localId a.allMembers))

theorem unexhausted_freshNode : freshNode.Unexhausted := by
  intro id e he
  rw [(MembershipTable.lookup_new he).1]
  decide

theorem unexhausted_rememberingNode (status : MemberStatus) :
    (rememberingNode status).Unexhausted := by
  intro id e he
  have hother : (⟨1⟩ : NodeId) ≠ (MembershipTable.new 0 ⟨2⟩ []).localId := by decide
  rw [rememberingNode, MembershipTable.merge_cons, MembershipTable.merge, List.foldl_nil,
    MembershipTable.lookup_mergeEntry_remote 0 hother] at he
  split_ifs at he with hid
  · -- node 2 starts without seeds and knows nothing of node 1
    have hnone : (MembershipTable.new 0 ⟨2⟩ []).members.lookup id = none := by
      rw [hid]
      rfl
    rw [hnone] at he
    cases he
    show (5 : UInt64).toNat + 1 < 2 ^ 64
    decide
  · rw [(MembershipTable.lookup_new he).1]
    decide

/-- Remembered as Dead, node 1 refutes and is believed. -/
theorem push_pull_push_remembered_dead :
    (rememberedExchange .dead).1.localEntry.version = toLex (6, .alive)
    ∧ (rememberedExchange .dead).2.held freshNode.localId
      = (rememberedExchange .dead).1.localEntry.version := by
  refine ⟨by decide +kernel, ?_⟩
  have hexchange := push_pull_push (.hyphenated fun _ => 0) (a := freshNode)
    (b := rememberingNode .dead) (by decide) unexhausted_freshNode
    (unexhausted_rememberingNode .dead) 1 1 2 3 3 (fun _ => ⟨0⟩) (fun _ => ⟨0⟩) (fun _ => ⟨0⟩) ⟨2⟩
    freshNode.allMembers
    (receiveGossip (.hyphenated fun _ => 0) (rememberingNode .dead) 1 (fun _ => ⟨0⟩)
      (buildGossipMessage (.hyphenated fun _ => 0) 1 freshNode.localId
        freshNode.allMembers)).allMembers
    (rememberedExchange .dead).1.allMembers (List.Perm.refl _) (List.Perm.refl _)
    (List.Perm.refl _)
  apply hexchange.1.mpr
  rintro ⟨e, he, hacc, _⟩
  cases he
  exact hacc (.inr rfl)

/-- Remembered as Alive at incarnation 5, node 1 stays at 0 and node 2
keeps its memory. -/
theorem push_pull_push_remembered_alive :
    freshNode.Unexhausted ∧ (rememberingNode .alive).Unexhausted
    ∧ (rememberedExchange .alive).1.localEntry.version = toLex (0, .alive)
    ∧ (rememberedExchange .alive).2.held freshNode.localId = (toLex (5, .alive) : Version)
    ∧ (rememberedExchange .alive).2.held freshNode.localId
      ≠ (rememberedExchange .alive).1.localEntry.version := by
  have hown : (rememberedExchange .alive).1.localEntry.version = toLex (0, .alive) := by
    decide +kernel
  have hheld : (rememberedExchange .alive).2.held freshNode.localId
      = (toLex (5, .alive) : Version) := by
    decide +kernel
  refine ⟨unexhausted_freshNode, unexhausted_rememberingNode _, hown, hheld, ?_⟩
  rw [hheld, hown]
  decide

end SelfHealingCache
