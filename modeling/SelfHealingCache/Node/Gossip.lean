import SelfHealingCache.Node.Membership

/-!
# The gossip protocol

`crates/node/src/gossip/protocol.rs` and `server.rs`: the wire message,
its two decoders (the server's and the client's are the same text, one
definition here), the exchange, and the timeout sweep.

A message lists the members in the iteration order of a hash map, which
is unspecified: wherever a table is listed, `Lists t l` says that `l` is
ANY ordering of its entries, and the results hold for all of them.

A `node_id` that does not parse is replaced by `NodeId::new()`, a random
id: `fresh i` is the id drawn for the `i`-th entry.
-/

namespace SelfHealingCache

/-- `const SUSPECT_TIMEOUT`. -/
def suspectTimeout : Duration := 3 * 1000000000

/-- `const DEAD_TIMEOUT`. -/
def deadTimeout : Duration := 5 * 1000000000

/-! ## The wire -/

/-- `gossip_proto::MemberEntry`; the status is the raw enum number. -/
structure ProtoMemberEntry where
  nodeId : String
  addr : String
  status : Int
  incarnation : UInt64
  lastSeenMs : UInt64
  deriving DecidableEq

structure GossipMessage where
  members : List ProtoMemberEntry
  senderId : String
  deriving DecidableEq

/-- `ProtoMemberStatus::X as i32`. -/
def MemberStatus.toProto : MemberStatus → Int
  | .alive => 0
  | .suspect => 1
  | .dead => 2
  | .joining => 3

/-- `ProtoMemberStatus::try_from(i32)`. -/
def MemberStatus.ofProto (n : Int) : Option MemberStatus :=
  if n = 0 then some .alive
  else if n = 1 then some .suspect
  else if n = 2 then some .dead
  else if n = 3 then some .joining
  else none

@[simp] theorem MemberStatus.ofProto_toProto (s : MemberStatus) : ofProto s.toProto = some s := by
  cases s <;> rfl

section Protocol

variable (X : Crates)

/-- An unknown status number counts as Alive, an unparsable id as the
freshly drawn one. -/
def decodeMember (drawn : NodeId) (m : ProtoMemberEntry) : RemoteEntry where
  nodeId := (X.parse m.nodeId).getD drawn
  addr := m.addr
  status := (MemberStatus.ofProto m.status).getD .alive
  incarnation := m.incarnation

/-- The list a decoder hands to `merge`. -/
def decodeMembers (fresh : Nat → NodeId) : List ProtoMemberEntry → List RemoteEntry
  | [] => []
  | m :: ms => decodeMember X (fresh 0) m :: decodeMembers (fun i => fresh (i + 1)) ms

def encodeMember (now : Instant) (e : MemberEntry) : ProtoMemberEntry where
  nodeId := X.display e.info.id
  addr := e.info.addr
  status := e.status.toProto
  incarnation := e.incarnation
  lastSeenMs := UInt64.ofNat ((now - e.lastSeen) / 1000000)

/-- `build_gossip_message`, the members listed as `listing`. -/
def buildGossipMessage (now : Instant) (localId : NodeId) (listing : List MemberEntry) :
    GossipMessage :=
  ⟨listing.map (encodeMember X now), X.display localId⟩

/-- The server side of an exchange up to the reply: merge, then touch
the sender if its id parses. -/
def receiveGossip (t : MembershipTable) (now : Instant) (fresh : Nat → NodeId)
    (msg : GossipMessage) : MembershipTable :=
  let merged := t.merge now (decodeMembers X fresh msg.members)
  match X.parse msg.senderId with
  | some sender => merged.touch now sender
  | none => merged

/-- The server side of an exchange: the table after it and the reply,
which lists that table as `listing`. -/
def gossipExchange (t : MembershipTable) (now : Instant) (fresh : Nat → NodeId)
    (msg : GossipMessage) (listing : List MemberEntry) : MembershipTable × GossipMessage :=
  let t' := receiveGossip X t now fresh msg
  (t', buildGossipMessage X now t'.localId listing)

/-- The client side: merge the reply. -/
def processGossipResponse (t : MembershipTable) (now : Instant) (fresh : Nat → NodeId)
    (msg : GossipMessage) : MembershipTable :=
  t.merge now (decodeMembers X fresh msg.members)

end Protocol

/-! ## The timeout sweep -/

/-- One iteration of `check_timeouts`: the verdict is read off the
SNAPSHOT entry `member`, the guard of `mark_suspect` / `mark_dead` off
the table as it is now. -/
def sweepMember (now : Instant) (t : MembershipTable) (member : MemberEntry) : MembershipTable :=
  if member.info.id = t.localId then t
  else
    match member.status with
    | .alive =>
        if suspectTimeout < now - member.lastSeen then (t.markSuspect member.info.id).2 else t
    | .joining =>
        if suspectTimeout < now - member.lastSeen then (t.markSuspect member.info.id).2 else t
    | .suspect =>
        if deadTimeout < now - member.lastSeen then (t.markDead member.info.id).2 else t
    | .dead => t

/-- `check_timeouts`, uninterrupted, with the snapshot listed as
`snapshot`. -/
def checkTimeouts (t : MembershipTable) (now : Instant) (snapshot : List MemberEntry) :
    MembershipTable :=
  snapshot.foldl (sweepMember now) t

/-! ## Listings -/

/-- `l` lists the entries of `t`, in some order. -/
def Lists (t : MembershipTable) (l : List MemberEntry) : Prop := l.Perm t.allMembers

instance (t : MembershipTable) (l : List MemberEntry) : Decidable (Lists t l) :=
  inferInstanceAs (Decidable (l.Perm _))

theorem Lists.mem {t : MembershipTable} {l : List MemberEntry} (h : Lists t l) {e : MemberEntry} :
    e ∈ l ↔ t.members.lookup e.info.id = some e := by
  rw [h.mem_iff, MembershipTable.allMembers, Assoc.mem_values]
  constructor
  · intro ⟨k, hk⟩
    rw [t.keyed k e hk]
    exact hk
  · intro hk
    exact ⟨_, hk⟩

/-- A member entry as the remote entry it decodes to. -/
def MemberEntry.toRemote (e : MemberEntry) : RemoteEntry :=
  ⟨e.info.id, e.info.addr, e.status, e.incarnation⟩

/-- **What a node sends is what a peer reads**: decoding an encoded
listing gives back every entry, whatever ids would have been drawn. -/
theorem decodeMembers_encode (X : Crates) (now : Instant) (l : List MemberEntry)
    (fresh : Nat → NodeId) :
    decodeMembers X fresh (l.map (encodeMember X now)) = l.map MemberEntry.toRemote := by
  induction l generalizing fresh with
  | nil => rfl
  | cons e l ih =>
      have hone : decodeMember X (fresh 0) (encodeMember X now e) = e.toRemote := by
        simp [decodeMember, encodeMember, MemberEntry.toRemote, X.parse_display]
      rw [List.map_cons, decodeMembers, hone, ih]
      rfl

/-- A full listing reports exactly the sender's view. -/
theorem reported_listing {t : MembershipTable} {l : List MemberEntry} (h : Lists t l)
    (id : NodeId) :
    JoinFold.reported ((l.map MemberEntry.toRemote).map RemoteEntry.item) id = t.held id := by
  have hitem : ∀ x ∈ (l.map MemberEntry.toRemote).map RemoteEntry.item,
      ∃ e ∈ l, x = (e.info.id, e.version) := by
    intro x hx
    rw [List.map_map] at hx
    obtain ⟨e, he, rfl⟩ := List.mem_map.mp hx
    exact ⟨e, he, rfl⟩
  cases hlook : t.members.lookup id with
  | none =>
      rw [MembershipTable.held, hlook]
      apply JoinFold.reported_eq_bot
      intro x hx hid
      obtain ⟨e, he, rfl⟩ := hitem x hx
      have hin : t.members.lookup id = some e := by
        rw [← hid]
        exact h.mem.mp he
      rw [hlook] at hin
      cases hin
  | some e =>
      have hkey : e.info.id = id := t.keyed id e hlook
      rw [MembershipTable.held_eq hlook]
      refine JoinFold.reported_eq_coe ?_ ?_
      · have he : e ∈ l := h.mem.mpr (by rw [hkey]; exact hlook)
        rw [List.map_map]
        exact List.mem_map.mpr ⟨e, he, by rw [← hkey]; rfl⟩
      · intro x hx hid
        obtain ⟨e', he', rfl⟩ := hitem x hx
        have hin : t.members.lookup id = some e' := by
          rw [← hid]
          exact h.mem.mp he'
        rw [hlook] at hin
        cases hin
        rfl

@[simp] theorem held_touch (t : MembershipTable) (now : Instant) (id j : NodeId) :
    (t.touch now id).held j = t.held j := by
  rw [MembershipTable.held, MembershipTable.held, MembershipTable.lookup_touch]
  cases hlook : t.members.lookup j with
  | none => simp
  | some e =>
      by_cases hj : j = id
      · rw [if_pos hj]
        rfl
      · rw [if_neg hj]

/-! ## Convergence -/

/-- A list without entries about the local node, merged into a table
that may have moved on since. -/
theorem held_merge_of_no_local {t s : MembershipTable} {now : Instant} {es : List RemoteEntry}
    (hes : ∀ r ∈ es, r.nodeId ≠ t.localId) (hs : s.localId = t.localId) (id : NodeId) :
    (s.merge now es).held id
      = s.held id ⊔ JoinFold.reported (es.map RemoteEntry.item) id := by
  apply MembershipTable.held_merge
  intro r hr
  rw [hs]
  exact .inl (hes r hr)

/-- A full listing of `s`, merged into `t`, joins the two views at every
id but `t`'s own. -/
theorem held_merge_listing {X : Crates} {t s : MembershipTable} {now sent : Instant}
    {fresh : Nat → NodeId} {l : List MemberEntry} {id : NodeId} (hl : Lists s l)
    (hid : id ≠ t.localId) :
    (t.merge now
      (decodeMembers X fresh (buildGossipMessage X sent s.localId l).members)).held id
        = t.held id ⊔ s.held id := by
  rw [buildGossipMessage, decodeMembers_encode,
    MembershipTable.held_merge (fun _ _ => .inr hid), reported_listing hl]

theorem held_receiveGossip {X : Crates} {t s : MembershipTable} {now sent : Instant}
    {fresh : Nat → NodeId} {l : List MemberEntry} {id : NodeId} (hl : Lists s l)
    (hid : id ≠ t.localId) :
    (receiveGossip X t now fresh (buildGossipMessage X sent s.localId l)).held id
      = t.held id ⊔ s.held id := by
  rw [receiveGossip]
  split
  · rw [held_touch]
    exact held_merge_listing hl hid
  · exact held_merge_listing hl hid

/-- **Merge is a join, and gossip converges by it.** An id ends at the
lexicographic maximum of what was held and what was reported; so the
order and the repetition of reports do not matter, and one uninterrupted
push-pull exchange leaves both sides with the same view of every third
node, in whatever order the two tables are listed. -/
theorem merge_is_join (X : Crates) :
    (∀ (t : MembershipTable) (now : Instant) (es : List RemoteEntry),
      (∀ r ∈ es, r.nodeId ≠ t.localId) → ∀ id,
        (t.merge now es).held id
          = t.held id ⊔ JoinFold.reported (es.map RemoteEntry.item) id)
    ∧ (∀ (t : MembershipTable) (now now' : Instant) (es fs : List RemoteEntry),
      (∀ r ∈ es, r.nodeId ≠ t.localId) → (∀ r ∈ fs, r.nodeId ≠ t.localId) → ∀ id,
        ((t.merge now es).merge now' fs).held id = ((t.merge now fs).merge now' es).held id)
    ∧ (∀ (t : MembershipTable) (now now' : Instant) (es : List RemoteEntry),
      (∀ r ∈ es, r.nodeId ≠ t.localId) → ∀ id,
        ((t.merge now es).merge now' es).held id = (t.merge now es).held id)
    ∧ (∀ (a b : MembershipTable) (sent got back : Instant)
        (fresh fresh' : Nat → NodeId) (target : NodeId) (la lb : List MemberEntry),
      Lists a la →
      let served := gossipExchange X b got fresh (buildGossipMessage X sent a.localId la) lb
      Lists served.1 lb →
      let a' := processGossipResponse X (a.touch back target) back fresh' served.2
      ∀ id, id ≠ a.localId → id ≠ b.localId → a'.held id = served.1.held id) := by
  refine ⟨?_, ?_, ?_, ?_⟩
  · intro t now es hes id
    exact held_merge_of_no_local hes rfl id
  · intro t now now' es fs hes hfs id
    rw [held_merge_of_no_local hfs (by simp), held_merge_of_no_local hes rfl,
      held_merge_of_no_local hes (by simp), held_merge_of_no_local hfs rfl]
    exact sup_right_comm ..
  · intro t now now' es hes id
    rw [held_merge_of_no_local hes (by simp), held_merge_of_no_local hes rfl]
    exact sup_of_le_left le_sup_right
  · intro a b sent got back fresh fresh' target la lb hla served hlb a' id ha hb
    have hb' : served.1.held id = b.held id ⊔ a.held id := held_receiveGossip hla hb
    have ha' : a'.held id = (a.touch back target).held id ⊔ served.1.held id :=
      held_merge_listing hlb ha
    rw [ha', held_touch, hb']
    exact sup_of_le_right le_sup_right

end SelfHealingCache
