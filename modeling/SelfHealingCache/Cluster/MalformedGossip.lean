import SelfHealingCache.Router.Gossip

/-!
# Entries that do not decode

A gossip message is decoded in three places. The router skips an entry
whose `node_id` is no UUID or whose status number is none of the four
(`exchangeGossip_filter`). The two decoders of the node keep it: an
unparsable id is replaced by `NodeId::new()`, an unknown status by Alive.

So such an entry is harmless on a node only when `merge` has no use for
what it was turned into: its id parses and is the local one, or one that
is already held at its incarnation as Alive, or above. An id that does
not parse always becomes a new member.
-/

namespace SelfHealingCache

section Decoders

variable (X : Crates)

/-- The id is a UUID and the status one of the four. -/
def WellFormed (m : ProtoMemberEntry) : Prop :=
  (X.parse m.nodeId).isSome ∧ (MemberStatus.ofProto m.status).isSome

instance (m : ProtoMemberEntry) : Decidable (WellFormed X m) := inferInstanceAs (Decidable (_ ∧ _))

/-- The message without its malformed entries. -/
def GossipMessage.wellFormed (msg : GossipMessage) : GossipMessage :=
  { msg with members := msg.members.filter fun m => WellFormed X m }

/-- The router skips what does not decode. -/
theorem exchangeGossip_filter (r : Router) (members : List ProtoMemberEntry) :
    exchangeGossip X r (members.filter fun m => WellFormed X m) = exchangeGossip X r members := by
  induction members generalizing r with
  | nil => rfl
  | cons m members ih =>
      by_cases hm : WellFormed X m
      · rw [List.filter_cons_of_pos (by simpa using hm)]
        exact ih (exchangeMember X r m)
      · have hskip : exchangeMember X r m = r := by
          have hnone : observed X m = none := by
            rw [observed]
            cases hid : X.parse m.nodeId with
            | none => rfl
            | some id =>
                cases hstatus : MemberStatus.ofProto m.status with
                | none => rfl
                | some status => exact absurd ⟨by rw [hid]; rfl, by rw [hstatus]; rfl⟩ hm
          rw [exchangeMember, hnone]
        rw [List.filter_cons_of_neg (by simpa using hm), ih, exchangeGossip, exchangeGossip,
          List.foldl_cons, hskip]

end Decoders

/-! ## An entry without effect -/

namespace MembershipTable

/-- An entry about another node has no effect exactly when that node is
held at its version or above. -/
theorem mergeEntry_eq_self_iff {now : Instant} {t : MembershipTable} {r : RemoteEntry}
    (h : r.nodeId ≠ t.localId) :
    mergeEntry now t r = t ↔ (r.version : WithBot (UInt64 ×ₗ MemberStatus)) ≤ t.held r.nodeId := by
  constructor
  · intro hsame
    have hlook := lookup_mergeEntry_remote now h r.nodeId
    rw [hsame, if_pos rfl] at hlook
    rw [held_eq hlook, WithBot.coe_le_coe]
    cases hhere : t.members.lookup r.nodeId with
    | none => exact le_rfl
    | some e =>
        rw [absorb]
        split_ifs with hlt
        · exact le_rfl
        · exact not_lt.mp hlt
  · intro hle
    cases hhere : t.members.lookup r.nodeId with
    | none =>
        rw [held, hhere] at hle
        exact absurd (le_bot_iff.mp hle) WithBot.coe_ne_bot
    | some e =>
        rw [held_eq hhere, WithBot.coe_le_coe, RemoteEntry.version, MemberEntry.version,
          Prod.Lex.toLex_le_toLex] at hle
        rw [mergeEntry, if_neg h, hhere]
        dsimp only
        rcases hle with hlt | ⟨heq, hstatus⟩
        · rw [if_neg (not_lt.mpr hlt.le), if_neg hlt.ne]
        · have hinc : r.incarnation = e.incarnation := heq
          have hkeep : ¬ shouldUpdate e.status r.status := by
            rw [shouldUpdate_iff]
            exact not_lt.mpr hstatus
          rw [if_neg (not_lt.mpr hinc.le), if_pos hinc, if_neg hkeep]

/-- An entry about the local node that does not accuse it has none. -/
theorem mergeEntry_eq_self_of_local {now : Instant} {t : MembershipTable} {r : RemoteEntry}
    (h : r.nodeId = t.localId) (hacc : ¬ r.accuses) : mergeEntry now t r = t := by
  rw [mergeEntry, if_pos h, if_neg hacc]

end MembershipTable

/-! ## Entry by entry -/

theorem decodeMembers_append (X : Crates) (fresh : Nat → NodeId)
    (pre post : List ProtoMemberEntry) :
    decodeMembers X fresh (pre ++ post)
      = decodeMembers X fresh pre ++ decodeMembers X (fun i => fresh (i + pre.length)) post := by
  induction pre generalizing fresh with
  | nil => rfl
  | cons m pre ih =>
      rw [List.cons_append, decodeMembers, ih, decodeMembers, List.cons_append]
      rfl

theorem mem_decodeMembers {X : Crates} {fresh : Nat → NodeId} {l : List ProtoMemberEntry}
    {r : RemoteEntry} (h : r ∈ decodeMembers X fresh l) :
    ∃ i m, i < l.length ∧ m ∈ l ∧ r = decodeMember X (fresh i) m := by
  induction l generalizing fresh with
  | nil => cases h
  | cons m l ih =>
      rcases List.mem_cons.mp h with rfl | hrest
      · exact ⟨0, m, Nat.succ_pos _, List.mem_cons_self, rfl⟩
      · obtain ⟨i, m', hi, hm', rfl⟩ := ih hrest
        exact ⟨i + 1, m', Nat.succ_lt_succ hi, List.mem_cons_of_mem _ hm', rfl⟩

/-- The entry at its turn. -/
theorem merge_decodeMembers_snoc (X : Crates) (t : MembershipTable) (now : Instant)
    (fresh : Nat → NodeId) (pre : List ProtoMemberEntry) (m : ProtoMemberEntry) :
    t.merge now (decodeMembers X fresh (pre ++ [m]))
      = MembershipTable.mergeEntry now (t.merge now (decodeMembers X fresh pre))
        (decodeMember X (fresh pre.length) m) := by
  rw [decodeMembers_append, MembershipTable.merge, List.foldl_append]
  simp only [decodeMembers, List.foldl_cons, List.foldl_nil, Nat.zero_add]
  rfl

/-- What the decoders rely on: the ids `NodeId::new()` draws for a message
are new, to the table, to the message and among themselves. -/
structure NewIds (X : Crates) (t : MembershipTable) (msg : GossipMessage) (fresh : Nat → NodeId) :
    Prop where
  notHeld : ∀ i < msg.members.length, t.members.lookup (fresh i) = none
  notSent : ∀ i < msg.members.length, ∀ m ∈ msg.members, X.parse m.nodeId ≠ some (fresh i)
  distinct : ∀ i < msg.members.length, ∀ j < i, fresh j ≠ fresh i

/-- **Malformed entries are ignored**, by both decoders: the table is the
one the message without them gives, and at its turn none of them changes
anything. -/
structure MalformedIgnored (X : Crates) (t : MembershipTable) (now : Instant)
    (fresh : Nat → NodeId) (msg : GossipMessage) : Prop where
  response : ∀ fresh', processGossipResponse X t now fresh msg
    = processGossipResponse X t now fresh' (msg.wellFormed X)
  exchange : ∀ fresh' listing, (gossipExchange X t now fresh msg listing).1
    = (gossipExchange X t now fresh' (msg.wellFormed X) listing).1
  turn : ∀ pre m post, msg.members = pre ++ m :: post → ¬ WellFormed X m →
    t.merge now (decodeMembers X fresh (pre ++ [m])) = t.merge now (decodeMembers X fresh pre)

/-- The id of `m` parses, and is the local one or is held, by the table
or by what the message has said before, at the incarnation of `m` as
Alive or above. -/
def Superseded (X : Crates) (t : MembershipTable) (fresh : Nat → NodeId)
    (pre : List ProtoMemberEntry) (m : ProtoMemberEntry) : Prop :=
  ∃ id, X.parse m.nodeId = some id ∧ (id = t.localId
    ∨ ((toLex (m.incarnation, MemberStatus.alive) : UInt64 ×ₗ MemberStatus)
        : WithBot (UInt64 ×ₗ MemberStatus))
      ≤ t.held id ⊔ JoinFold.reported ((decodeMembers X fresh pre).map RemoteEntry.item) id)

section Malformed

variable {X : Crates} {t : MembershipTable} {now : Instant} {fresh : Nat → NodeId}
  {msg : GossipMessage}

/-- An id that parses, with a status that does not. -/
theorem decodeMember_of_parse {m : ProtoMemberEntry} {id drawn : NodeId}
    (hid : X.parse m.nodeId = some id) (hm : ¬ WellFormed X m) :
    decodeMember X drawn m = ⟨id, m.addr, .alive, m.incarnation⟩ := by
  have hstatus : MemberStatus.ofProto m.status = none := by
    by_contra hsome
    exact hm ⟨by rw [hid]; rfl, Option.isSome_iff_ne_none.mpr hsome⟩
  rw [decodeMember, hid, hstatus]
  rfl

/-- **An entry with a known id has no effect at its turn exactly when it
is superseded.** -/
theorem mergeEntry_malformed_iff {pre : List ProtoMemberEntry} {m : ProtoMemberEntry}
    {id drawn : NodeId} (hid : X.parse m.nodeId = some id) (hm : ¬ WellFormed X m) :
    MembershipTable.mergeEntry now (t.merge now (decodeMembers X fresh pre))
        (decodeMember X drawn m) = t.merge now (decodeMembers X fresh pre)
      ↔ Superseded X t fresh pre m := by
  rw [decodeMember_of_parse hid hm]
  by_cases hlocal : id = t.localId
  · refine iff_of_true (MembershipTable.mergeEntry_eq_self_of_local ?_ ?_) ⟨id, hid, .inl hlocal⟩
    · rw [MembershipTable.localId_merge]
      exact hlocal
    · rintro (h | h) <;> cases h
  · rw [MembershipTable.mergeEntry_eq_self_iff (by rwa [MembershipTable.localId_merge]),
      MembershipTable.held_merge fun _ _ => .inr hlocal]
    constructor
    · intro h
      exact ⟨id, hid, .inr h⟩
    · rintro ⟨id', hid', h⟩
      rw [hid] at hid'
      cases hid'
      exact h.resolve_left hlocal

/-- An id that does not parse makes a new member. -/
theorem mergeEntry_unparsable {pre post : List ProtoMemberEntry} {m : ProtoMemberEntry}
    (hfresh : NewIds X t msg fresh) (hmsg : msg.members = pre ++ m :: post)
    (hid : X.parse m.nodeId = none) :
    MembershipTable.mergeEntry now (t.merge now (decodeMembers X fresh pre))
        (decodeMember X (fresh pre.length) m) ≠ t.merge now (decodeMembers X fresh pre) := by
  have hlt : pre.length < msg.members.length := by
    rw [hmsg, List.length_append, List.length_cons]
    omega
  have hlocal : fresh pre.length ≠ t.localId := by
    intro heq
    have hnone := hfresh.notHeld _ hlt
    rw [heq, t.lookup_localId] at hnone
    cases hnone
  have hunsaid : JoinFold.reported ((decodeMembers X fresh pre).map RemoteEntry.item)
      (fresh pre.length) = ⊥ := by
    apply JoinFold.reported_eq_bot
    intro x hx heq
    obtain ⟨r, hr, rfl⟩ := List.mem_map.mp hx
    obtain ⟨i, m', hi, hm', rfl⟩ := mem_decodeMembers hr
    have hsaid : (X.parse m'.nodeId).getD (fresh i) = fresh pre.length := heq
    cases hparse : X.parse m'.nodeId with
    | none =>
        rw [hparse] at hsaid
        exact hfresh.distinct _ hlt i hi hsaid
    | some id =>
        rw [hparse] at hsaid
        refine hfresh.notSent _ hlt m' ?_ (hparse.trans (congrArg some hsaid))
        rw [hmsg]
        exact List.mem_append_left _ hm'
  have hnode : (decodeMember X (fresh pre.length) m).nodeId = fresh pre.length := by
    show (X.parse m.nodeId).getD _ = _
    rw [hid]
    rfl
  intro hsame
  rw [MembershipTable.mergeEntry_eq_self_iff
    (by rwa [hnode, MembershipTable.localId_merge]), hnode,
    MembershipTable.held_merge fun _ _ => .inr hlocal, hunsaid, MembershipTable.held,
    hfresh.notHeld _ hlt] at hsame
  exact absurd (le_bot_iff.mp hsame) WithBot.coe_ne_bot

/-- Nothing is drawn for a well-formed entry. -/
theorem decodeMember_eq_of_wellFormed {m : ProtoMemberEntry} (hm : WellFormed X m)
    (drawn drawn' : NodeId) : decodeMember X drawn m = decodeMember X drawn' m := by
  obtain ⟨id, hid⟩ := Option.isSome_iff_exists.mp hm.1
  rw [decodeMember, decodeMember, hid]
  rfl

/-- Leaving out entries without effect leaves the result. -/
theorem merge_filter_of_turn {l : List ProtoMemberEntry}
    (hturn : ∀ pre m post, l = pre ++ m :: post → ¬ WellFormed X m →
      t.merge now (decodeMembers X fresh (pre ++ [m])) = t.merge now (decodeMembers X fresh pre))
    (fresh' : Nat → NodeId) :
    t.merge now (decodeMembers X fresh l)
      = t.merge now (decodeMembers X fresh' (l.filter fun m => WellFormed X m)) := by
  induction l using List.reverseRecOn with
  | nil => rfl
  | append_singleton pre m ih =>
      have hpre := ih fun p a q h => hturn p a (q ++ [m]) (by rw [h]; simp)
      rw [List.filter_append]
      by_cases hm : WellFormed X m
      · rw [List.filter_cons_of_pos (by simpa using hm), List.filter_nil,
          merge_decodeMembers_snoc, merge_decodeMembers_snoc, hpre,
          decodeMember_eq_of_wellFormed hm]
      · rw [List.filter_cons_of_neg (by simpa using hm), List.filter_nil, List.append_nil,
          hturn pre m [] rfl hm, hpre]

theorem malformedIgnored_of_turn
    (hturn : ∀ pre m post, msg.members = pre ++ m :: post → ¬ WellFormed X m →
      t.merge now (decodeMembers X fresh (pre ++ [m])) = t.merge now (decodeMembers X fresh pre)) :
    MalformedIgnored X t now fresh msg where
  response fresh' := merge_filter_of_turn hturn fresh'
  exchange fresh' listing := by
    have hmerged := merge_filter_of_turn hturn fresh'
    simp only [gossipExchange, receiveGossip, GossipMessage.wellFormed]
    rw [hmerged]
  turn := hturn

/-- **Malformed entries are ignored exactly when they have nothing new to
say**: every one of them has an id that parses, and what it is taken for
is superseded. -/
theorem malformedIgnored_iff (hfresh : NewIds X t msg fresh) :
    MalformedIgnored X t now fresh msg
      ↔ ∀ pre m post, msg.members = pre ++ m :: post → ¬ WellFormed X m →
        Superseded X t fresh pre m := by
  constructor
  · intro h pre m post hmsg hm
    have hturn := h.turn pre m post hmsg hm
    rw [merge_decodeMembers_snoc] at hturn
    cases hid : X.parse m.nodeId with
    | none => exact absurd hturn (mergeEntry_unparsable hfresh hmsg hid)
    | some id => exact (mergeEntry_malformed_iff hid hm).mp hturn
  · intro h
    apply malformedIgnored_of_turn
    intro pre m post hmsg hm
    obtain ⟨id, hid, hheld⟩ := h pre m post hmsg hm
    rw [merge_decodeMembers_snoc]
    exact (mergeEntry_malformed_iff hid hm).mpr ⟨id, hid, hheld⟩

end Malformed

/-- Node 1, which holds node 2 as Dead at incarnation 5. -/
def mournful : MembershipTable :=
  (MembershipTable.new 0 ⟨1⟩ []).merge 0 [⟨⟨2⟩, "b", .dead, 5⟩]

/-- A message about node 2 with the status number 99. -/
def unknownStatus (incarnation : UInt64) : GossipMessage :=
  ⟨[⟨(Crates.hyphenated fun _ => 0).display ⟨2⟩, "b", 99, incarnation, 0⟩], ""⟩

theorem decode_unknownStatus (fresh : Nat → NodeId) (incarnation : UInt64) :
    decodeMembers (.hyphenated fun _ => 0) fresh (unknownStatus incarnation).members
      = [⟨⟨2⟩, "b", .alive, incarnation⟩] := by
  simp [unknownStatus, decodeMembers, decodeMember, Crates.parse_display, MemberStatus.ofProto]

theorem not_wellFormed_unknownStatus (m : ProtoMemberEntry) (h : m.status = 99) :
    ¬ WellFormed (.hyphenated fun _ => 0) m := by
  rintro ⟨_, hstatus⟩
  rw [h] at hstatus
  exact absurd hstatus (by decide)

/-- At incarnation 5 the unknown status is below Dead. -/
theorem malformedIgnored_old :
    MalformedIgnored (.hyphenated fun _ => 0) mournful 1 (fun _ => ⟨100⟩) (unknownStatus 5) := by
  have hnew : NewIds (.hyphenated fun _ => 0) mournful (unknownStatus 5) fun _ => ⟨100⟩ := by
    refine ⟨fun _ _ => by decide, ?_, ?_⟩
    · intro i _ m hm
      rw [unknownStatus, List.mem_singleton] at hm
      rw [hm, Crates.parse_display]
      decide
    · intro i hi j hj
      rw [unknownStatus, List.length_singleton] at hi
      omega
  refine (malformedIgnored_iff hnew).mpr fun pre m post hmsg _ => ?_
  rw [unknownStatus, eq_comm, List.append_eq_singleton_iff] at hmsg
  rcases hmsg with ⟨rfl, hm⟩ | ⟨_, hm⟩
  · cases hm
    exact ⟨⟨2⟩, Crates.parse_display _ _, .inr (by decide)⟩
  · cases hm

/-- At incarnation 6 it brings a dead node back to life. -/
theorem malformed_revives :
    ((processGossipResponse (.hyphenated fun _ => 0) mournful 1 (fun _ => ⟨100⟩)
        (unknownStatus 6)).members.lookup ⟨2⟩).map (·.status) = some .alive
      ∧ ¬ WellFormed (.hyphenated fun _ => 0)
        ⟨(Crates.hyphenated fun _ => 0).display ⟨2⟩, "b", 99, 6, 0⟩
      ∧ ¬ MalformedIgnored (.hyphenated fun _ => 0) mournful 1 (fun _ => ⟨100⟩)
        (unknownStatus 6) := by
  have hm : ¬ WellFormed (.hyphenated fun _ => 0)
      ⟨(Crates.hyphenated fun _ => 0).display ⟨2⟩, "b", 99, 6, 0⟩ :=
    not_wellFormed_unknownStatus _ rfl
  refine ⟨?_, hm, fun h => ?_⟩
  · rw [processGossipResponse, decode_unknownStatus]
    decide
  · have hturn : mournful.merge 1 (decodeMembers (.hyphenated fun _ => 0) (fun _ => ⟨100⟩)
        (unknownStatus 6).members) = mournful := h.turn [] _ [] rfl hm
    rw [decode_unknownStatus] at hturn
    have hstatus := congrArg (fun t => (t.members.lookup ⟨2⟩).map (·.status)) hturn
    exact absurd hstatus (by decide)

end SelfHealingCache
