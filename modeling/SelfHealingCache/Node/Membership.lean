import Mathlib.Data.Prod.Lex
import Mathlib.Order.WithBot
import SelfHealingCache.Common.NodeId
import SelfHealingCache.Lib.Assoc
import SelfHealingCache.Lib.JoinFold
import SelfHealingCache.Lib.U64
import SelfHealingCache.Node.Store

/-!
# The membership table

`crates/node/src/gossip/state.rs`. The two facts every method relies on
are fields of the table, so a table violating them cannot be built:
every entry is filed under its own id (`keyed`), and the local entry is
present (`hasLocal`), so the source's `if let Some(entry) =
members.get_mut(&self.local_id)` never falls through.

Incarnations are `u64` and increment by WRAPPING addition (the release
profile the README builds with). `Instant::now()` is read once per
method call.

`held` is the abstract view of a table: for each id the pair of
incarnation and status, ordered lexicographically with `Joining < Alive
< Suspect < Dead`. `held_mergeEntry` says one remote entry is joined
into that view, and the fold rule lifts it to `merge`.
-/

namespace SelfHealingCache

inductive MemberStatus where
  | alive
  | suspect
  | dead
  | joining
  deriving DecidableEq

/-- Precedence at equal incarnation. -/
def MemberStatus.rank : MemberStatus → Nat
  | .joining => 0
  | .alive => 1
  | .suspect => 2
  | .dead => 3

instance : LinearOrder MemberStatus :=
  LinearOrder.lift' MemberStatus.rank (by intro a b; cases a <;> cases b <;> decide)

structure MemberEntry where
  info : NodeInfo
  status : MemberStatus
  incarnation : UInt64
  lastSeen : Instant
  deriving DecidableEq

/-- One element of the list `merge` takes. -/
structure RemoteEntry where
  nodeId : NodeId
  addr : String
  status : MemberStatus
  incarnation : UInt64
  deriving DecidableEq

/-- The record `merge` files for a remote entry. -/
def RemoteEntry.toMember (r : RemoteEntry) (now : Instant) : MemberEntry :=
  ⟨⟨r.nodeId, r.addr⟩, r.status, r.incarnation, now⟩

/-- What the precedence rule compares: incarnation first, then status. -/
def MemberEntry.version (e : MemberEntry) : UInt64 ×ₗ MemberStatus :=
  toLex (e.incarnation, e.status)

theorem MemberEntry.version_eq_iff {e : MemberEntry} {inc : UInt64} {st : MemberStatus} :
    e.version = toLex (inc, st) ↔ e.incarnation = inc ∧ e.status = st := by
  rw [version, toLex_inj, Prod.mk.injEq]

def RemoteEntry.version (r : RemoteEntry) : UInt64 ×ₗ MemberStatus :=
  toLex (r.incarnation, r.status)

/-- What the entry reports, as the join-fold library reads it. -/
def RemoteEntry.item (r : RemoteEntry) : NodeId × (UInt64 ×ₗ MemberStatus) :=
  (r.nodeId, r.version)

/-- A remote entry that calls its node Suspect or Dead. -/
def RemoteEntry.accuses (r : RemoteEntry) : Prop :=
  r.status = .suspect ∨ r.status = .dead

instance (r : RemoteEntry) : Decidable r.accuses := inferInstanceAs (Decidable (_ ∨ _))

structure MembershipTable where
  members : Assoc NodeId MemberEntry
  localId : NodeId
  keyed : ∀ id e, members.lookup id = some e → e.info.id = id
  hasLocal : (members.lookup localId).isSome

namespace MembershipTable

/-! ## In-place update and insertion -/

/-- `members.get_mut(id)` followed by an assignment that keeps `info`. -/
def update (t : MembershipTable) (id : NodeId) (f : MemberEntry → MemberEntry)
    (hf : ∀ e, (f e).info = e.info) : MembershipTable where
  members := t.members.modify id f
  localId := t.localId
  keyed := by
    intro j e he
    rw [Assoc.lookup_modify] at he
    split_ifs at he with hj
    · obtain ⟨e', he', rfl⟩ := Option.map_eq_some_iff.mp he
      rw [hf]
      exact t.keyed j e' he'
    · exact t.keyed j e he
  hasLocal := by
    rw [Assoc.lookup_modify]
    split_ifs
    · simpa using t.hasLocal
    · exact t.hasLocal

/-- `members.insert(entry.info.id, entry)`. -/
def put (t : MembershipTable) (entry : MemberEntry) : MembershipTable where
  members := t.members.insert entry.info.id entry
  localId := t.localId
  keyed := by
    intro j e he
    rw [Assoc.lookup_insert_eq] at he
    split_ifs at he with hj
    · cases he
      exact hj.symm
    · exact t.keyed j e he
  hasLocal := by
    rw [Assoc.lookup_insert_eq]
    split_ifs
    · rfl
    · exact t.hasLocal

@[simp] theorem localId_update (t : MembershipTable) (id f hf) :
    (t.update id f hf).localId = t.localId := rfl

@[simp] theorem localId_put (t : MembershipTable) (entry : MemberEntry) :
    (t.put entry).localId = t.localId := rfl

theorem lookup_update (t : MembershipTable) (id : NodeId) (f : MemberEntry → MemberEntry) (hf)
    (j : NodeId) :
    (t.update id f hf).members.lookup j
      = if j = id then (t.members.lookup j).map f else t.members.lookup j :=
  Assoc.lookup_modify ..

theorem lookup_put (t : MembershipTable) (entry : MemberEntry) (j : NodeId) :
    (t.put entry).members.lookup j
      = if j = entry.info.id then some entry else t.members.lookup j :=
  Assoc.lookup_insert_eq ..

/-! ## Construction -/

/-- The table of a node that knows only itself. -/
def singleton (self : MemberEntry) : MembershipTable where
  members := AList.singleton self.info.id self
  localId := self.info.id
  keyed := by
    intro j e he
    rw [← AList.insert_empty, Assoc.lookup_insert_eq] at he
    split_ifs at he with hj
    · cases he
      exact hj.symm
    · simp at he
  hasLocal := by
    rw [← AList.insert_empty, Assoc.lookup_insert_eq]
    simp

theorem lookup_singleton (self : MemberEntry) (j : NodeId) :
    (singleton self).members.lookup j = if j = self.info.id then some self else none := by
  have h : (singleton self).members = AList.insert self.info.id self ∅ :=
    (AList.insert_empty _ _).symm
  rw [h, Assoc.lookup_insert_eq]
  simp

/-- The record a node files for itself: the seed carrying its own id if
there is one, else an EMPTY address. -/
def selfInfo (localId : NodeId) (seedNodes : List NodeInfo) : NodeInfo :=
  (seedNodes.find? fun n => n.id = localId).getD ⟨localId, ""⟩

theorem selfInfo_id (localId : NodeId) (seedNodes : List NodeInfo) :
    (selfInfo localId seedNodes).id = localId := by
  rw [selfInfo]
  cases h : seedNodes.find? fun n => n.id = localId with
  | none => rfl
  | some n => simpa using List.find?_some h

/-- One iteration of the seed loop of `new`. -/
def addSeed (now : Instant) (localId : NodeId) (t : MembershipTable) (node : NodeInfo) :
    MembershipTable :=
  if node.id ≠ localId then t.put ⟨node, .alive, 0, now⟩ else t

/-- Self as Alive (standalone) or Joining (has seeds), then every seed
as Alive. -/
def new (now : Instant) (localId : NodeId) (seedNodes : List NodeInfo) : MembershipTable :=
  seedNodes.foldl (addSeed now localId)
    (singleton
      { info := selfInfo localId seedNodes
        status := if seedNodes.isEmpty then .alive else .joining
        incarnation := 0
        lastSeen := now })

/-! ## Queries -/

/-- `members.values()`, in the map's own order. -/
def allMembers (t : MembershipTable) : List MemberEntry := t.members.values

/-- Peers a gossip round may choose from. -/
def alivePeers (t : MembershipTable) : List MemberEntry :=
  (t.members.entries.filter fun e =>
    e.1 ≠ t.localId ∧ (e.2.status = .alive ∨ e.2.status = .joining)).map (·.2)

/-- Peers the rebalancer builds its ring from. -/
def routablePeers (t : MembershipTable) : List MemberEntry :=
  (t.members.entries.filter fun e => e.1 ≠ t.localId ∧ e.2.status = .alive).map (·.2)

def isAlive (t : MembershipTable) (id : NodeId) : Bool :=
  ((t.members.lookup id).map fun e => decide (e.status = .alive)).getD false

def localIncarnation (t : MembershipTable) : UInt64 :=
  ((t.members.lookup t.localId).map (·.incarnation)).getD 0

def localAddr (t : MembershipTable) : String :=
  ((t.members.lookup t.localId).map (·.info.addr)).getD ""

def isSelfJoining (t : MembershipTable) : Bool :=
  ((t.members.lookup t.localId).map fun e => decide (e.status = .joining)).getD false

/-! ## Status changes -/

/-- Only an Alive entry becomes Suspect; a Joining one is left alone. -/
def markSuspect (t : MembershipTable) (id : NodeId) : Bool × MembershipTable :=
  match t.members.lookup id with
  | some entry =>
      if entry.status = .alive
      then (true, t.update id (fun e => { e with status := .suspect }) fun _ => rfl)
      else (false, t)
  | none => (false, t)

/-- An Alive or Suspect entry becomes Dead. -/
def markDead (t : MembershipTable) (id : NodeId) : Bool × MembershipTable :=
  match t.members.lookup id with
  | some entry =>
      if entry.status = .alive ∨ entry.status = .suspect
      then (true, t.update id (fun e => { e with status := .dead }) fun _ => rfl)
      else (false, t)
  | none => (false, t)

def touch (t : MembershipTable) (now : Instant) (id : NodeId) : MembershipTable :=
  t.update id (fun e => { e with lastSeen := now }) fun _ => rfl

/-- Called by the rebalancer once the transfer is complete. -/
def markSelfAlive (t : MembershipTable) : MembershipTable :=
  t.update t.localId
    (fun e => { e with incarnation := e.incarnation + 1, status := .alive }) fun _ => rfl

/-! ## Merge -/

/-- The status table of `merge` at equal incarnation. -/
def shouldUpdate : (here remote : MemberStatus) → Bool
  | .alive, .dead => true
  | .suspect, .dead => true
  | .joining, .dead => true
  | .alive, .suspect => true
  | .joining, .suspect => true
  | .joining, .alive => true
  | _, _ => false

/-- One iteration of the loop of `merge`. -/
def mergeEntry (now : Instant) (t : MembershipTable) (r : RemoteEntry) : MembershipTable :=
  if r.nodeId = t.localId then
    -- someone suspects us: refute by bumping past the accusation
    if r.accuses then
      t.update t.localId
        (fun e => if e.incarnation ≤ r.incarnation
          then { e with incarnation := r.incarnation + 1, status := .alive } else e)
        (fun e => by split_ifs <;> rfl)
    else t
  else
    match t.members.lookup r.nodeId with
    | some here =>
        if here.incarnation < r.incarnation then t.put (r.toMember now)
        else if r.incarnation = here.incarnation then
          if shouldUpdate here.status r.status then t.put (r.toMember now) else t
        else t
    | none => t.put (r.toMember now)

def merge (t : MembershipTable) (now : Instant) (entries : List RemoteEntry) : MembershipTable :=
  entries.foldl (mergeEntry now) t

/-! ## The local id never changes -/

@[simp] theorem localId_singleton (self : MemberEntry) :
    (singleton self).localId = self.info.id := rfl

@[simp] theorem localId_markSuspect (t : MembershipTable) (id : NodeId) :
    (t.markSuspect id).2.localId = t.localId := by
  unfold markSuspect
  repeat' split
  all_goals rfl

@[simp] theorem localId_markDead (t : MembershipTable) (id : NodeId) :
    (t.markDead id).2.localId = t.localId := by
  unfold markDead
  repeat' split
  all_goals rfl

@[simp] theorem localId_touch (t : MembershipTable) (now : Instant) (id : NodeId) :
    (t.touch now id).localId = t.localId := rfl

@[simp] theorem localId_markSelfAlive (t : MembershipTable) :
    t.markSelfAlive.localId = t.localId := rfl

@[simp] theorem localId_mergeEntry (now : Instant) (t : MembershipTable) (r : RemoteEntry) :
    (mergeEntry now t r).localId = t.localId := by
  unfold mergeEntry
  repeat' split
  all_goals rfl

@[simp] theorem localId_merge (t : MembershipTable) (now : Instant) (es : List RemoteEntry) :
    (t.merge now es).localId = t.localId := by
  induction es generalizing t with
  | nil => rfl
  | cons r es ih => exact (ih _).trans (localId_mergeEntry now t r)

/-! ## What each method does to an entry

One lemma a method; everything below and in the modules above goes
through these and unfolds no method again. -/

theorem lookup_markSuspect (t : MembershipTable) (id j : NodeId) :
    (t.markSuspect id).2.members.lookup j
      = if j = id
        then (t.members.lookup j).map fun e =>
          if e.status = .alive then { e with status := .suspect } else e
        else t.members.lookup j := by
  unfold markSuspect
  split
  · rename_i entry hentry
    split_ifs with hst hj hj
    · rw [lookup_update, if_pos hj, hj, hentry]
      simp [hst]
    · rw [lookup_update, if_neg hj]
    · rw [hj, hentry]
      simp [hst]
    · rfl
  · rename_i hnone
    split_ifs with hj
    · rw [hj, hnone]
      rfl
    · rfl

theorem lookup_markDead (t : MembershipTable) (id j : NodeId) :
    (t.markDead id).2.members.lookup j
      = if j = id
        then (t.members.lookup j).map fun e =>
          if e.status = .alive ∨ e.status = .suspect then { e with status := .dead } else e
        else t.members.lookup j := by
  unfold markDead
  split
  · rename_i entry hentry
    split_ifs with hst hj hj
    · rw [lookup_update, if_pos hj, hj, hentry]
      simp [hst]
    · rw [lookup_update, if_neg hj]
    · rw [hj, hentry]
      simp [hst]
    · rfl
  · rename_i hnone
    split_ifs with hj
    · rw [hj, hnone]
      rfl
    · rfl

theorem lookup_touch (t : MembershipTable) (now : Instant) (id j : NodeId) :
    (t.touch now id).members.lookup j
      = if j = id then (t.members.lookup j).map fun e => { e with lastSeen := now }
        else t.members.lookup j :=
  lookup_update ..

theorem lookup_markSelfAlive (t : MembershipTable) (j : NodeId) :
    t.markSelfAlive.members.lookup j
      = if j = t.localId
        then (t.members.lookup j).map fun e =>
          { e with incarnation := e.incarnation + 1, status := .alive }
        else t.members.lookup j :=
  lookup_update ..

/-- What an entry about the local node does to the local entry. -/
def refute (r : RemoteEntry) (e : MemberEntry) : MemberEntry :=
  if r.accuses ∧ e.incarnation ≤ r.incarnation
  then { e with incarnation := r.incarnation + 1, status := .alive } else e

/-- What an entry about another node does to that node's entry. -/
def absorb (now : Instant) (r : RemoteEntry) : Option MemberEntry → MemberEntry
  | some e => if e.version < r.version then r.toMember now else e
  | none => r.toMember now

theorem shouldUpdate_iff (here remote : MemberStatus) :
    shouldUpdate here remote ↔ here < remote := by
  cases here <;> cases remote <;> decide

theorem lookup_mergeEntry_self (now : Instant) {t : MembershipTable} {r : RemoteEntry}
    (h : r.nodeId = t.localId) (j : NodeId) :
    (mergeEntry now t r).members.lookup j
      = if j = t.localId then (t.members.lookup j).map (refute r) else t.members.lookup j := by
  rw [mergeEntry, if_pos h]
  by_cases hacc : r.accuses
  · rw [if_pos hacc, lookup_update]
    have hfun : refute r = fun e => if e.incarnation ≤ r.incarnation
        then { e with incarnation := r.incarnation + 1, status := .alive } else e := by
      funext e
      simp [refute, hacc]
    rw [hfun]
  · have hid : refute r = id := by
      funext e
      simp [refute, hacc]
    rw [if_neg hacc, hid]
    simp

theorem lookup_mergeEntry_remote (now : Instant) {t : MembershipTable} {r : RemoteEntry}
    (h : r.nodeId ≠ t.localId) (j : NodeId) :
    (mergeEntry now t r).members.lookup j
      = if j = r.nodeId then some (absorb now r (t.members.lookup j))
        else t.members.lookup j := by
  have hput : (t.put (r.toMember now)).members.lookup j
      = if j = r.nodeId then some (r.toMember now) else t.members.lookup j := lookup_put ..
  rw [mergeEntry, if_neg h]
  cases hhere : t.members.lookup r.nodeId with
  | none =>
      rw [hput]
      split_ifs with hj
      · rw [hj, hhere]
        rfl
      · rfl
  | some here =>
      -- the nested comparison of the source is one comparison of versions
      have hver : here.version < r.version
          ↔ here.incarnation < r.incarnation
            ∨ (r.incarnation = here.incarnation ∧ shouldUpdate here.status r.status) := by
        rw [MemberEntry.version, RemoteEntry.version, Prod.Lex.toLex_lt_toLex,
          shouldUpdate_iff, eq_comm (a := here.incarnation)]
      have hkeep : ∀ c : Prop, [Decidable c] → (here.version < r.version ↔ c) →
          (if c then t.put (r.toMember now) else t).members.lookup j
            = if j = r.nodeId then some (absorb now r (t.members.lookup j))
              else t.members.lookup j := by
        intro c _ hc
        by_cases hcond : c
        · rw [if_pos hcond, hput]
          split_ifs with hj
          · rw [hj, hhere, absorb, if_pos (hc.mpr hcond)]
          · rfl
        · rw [if_neg hcond]
          split_ifs with hj
          · rw [hj, hhere, absorb, if_neg (fun hlt => hcond (hc.mp hlt))]
          · rfl
      dsimp only
      by_cases hlt : here.incarnation < r.incarnation
      · rw [if_pos hlt]
        simpa using hkeep True (by simp [hver, hlt])
      · rw [if_neg hlt]
        by_cases heq : r.incarnation = here.incarnation
        · rw [if_pos heq]
          exact hkeep _ (by simp [hver, heq])
        · rw [if_neg heq]
          simpa using hkeep False (by simp [hver, hlt, heq])

/-! ## The local entry -/

/-- The node's own entry. -/
def localEntry (t : MembershipTable) : MemberEntry :=
  (t.members.lookup t.localId).get t.hasLocal

theorem lookup_localId (t : MembershipTable) :
    t.members.lookup t.localId = some t.localEntry := by
  simp [localEntry]

theorem mem_routablePeers {t : MembershipTable} {e : MemberEntry} :
    e ∈ t.routablePeers
      ↔ t.members.lookup e.info.id = some e ∧ e.info.id ≠ t.localId ∧ e.status = .alive := by
  rw [routablePeers, List.mem_map]
  constructor
  · intro ⟨⟨id, entry⟩, hmem, heq⟩
    obtain ⟨hentry, hcond⟩ := List.mem_filter.mp hmem
    have hlook : t.members.lookup id = some entry := AList.mem_lookup_iff.mpr hentry
    cases heq
    rw [t.keyed id entry hlook]
    exact ⟨hlook, by simpa using hcond⟩
  · intro ⟨hlook, hcond⟩
    refine ⟨⟨e.info.id, e⟩, List.mem_filter.mpr ⟨AList.mem_lookup_iff.mp hlook, ?_⟩, rfl⟩
    simpa using hcond

theorem localEntry_eq {t : MembershipTable} {e : MemberEntry}
    (h : t.members.lookup t.localId = some e) : t.localEntry = e := by
  rw [lookup_localId] at h
  exact Option.some.inj h

theorem localIncarnation_eq (t : MembershipTable) :
    t.localIncarnation = t.localEntry.incarnation := by
  simp [localIncarnation, lookup_localId]

theorem isSelfJoining_iff (t : MembershipTable) :
    t.isSelfJoining ↔ t.localEntry.status = .joining := by
  simp [isSelfJoining, lookup_localId]

theorem localEntry_mergeEntry (now : Instant) (t : MembershipTable) (r : RemoteEntry) :
    (mergeEntry now t r).localEntry
      = if r.nodeId = t.localId then refute r t.localEntry else t.localEntry := by
  apply localEntry_eq
  rw [localId_mergeEntry]
  by_cases h : r.nodeId = t.localId
  · rw [if_pos h, lookup_mergeEntry_self now h, if_pos rfl, lookup_localId]
    rfl
  · rw [if_neg h, lookup_mergeEntry_remote now h, if_neg (Ne.symm h), lookup_localId]

theorem merge_cons (t : MembershipTable) (now : Instant) (r : RemoteEntry)
    (es : List RemoteEntry) : t.merge now (r :: es) = (mergeEntry now t r).merge now es := rfl

/-- Without an accusation of the local node, `merge` leaves the local
entry alone. -/
theorem localEntry_merge_of_unaccused {t : MembershipTable} {now : Instant}
    {es : List RemoteEntry} (h : ∀ r ∈ es, r.nodeId = t.localId → ¬ r.accuses) :
    (t.merge now es).localEntry = t.localEntry := by
  induction es generalizing t with
  | nil => rfl
  | cons r es ih =>
      have hone : (mergeEntry now t r).localEntry = t.localEntry := by
        rw [localEntry_mergeEntry]
        split_ifs with hr
        · rw [refute, if_neg (fun hacc => h r (by simp) hr hacc.1)]
        · rfl
      rw [merge_cons, ih, hone]
      intro r' hr'
      rw [localId_mergeEntry]
      exact h r' (by simp [hr'])

/-- Refutation sets Alive and nothing else touches the local status, so
an Alive node stays Alive through any message. -/
theorem status_localEntry_merge_of_alive {t : MembershipTable} {now : Instant}
    {es : List RemoteEntry} (h : t.localEntry.status = .alive) :
    (t.merge now es).localEntry.status = .alive := by
  induction es generalizing t with
  | nil => exact h
  | cons r es ih =>
      apply ih
      rw [localEntry_mergeEntry]
      split_ifs
      · rw [refute]
        split_ifs
        · rfl
        · exact h
      · exact h

/-- **An accusation ends Joining.** At incarnation zero every accusation
counts, and refuting it sets Alive. -/
theorem status_localEntry_merge_of_accused {t : MembershipTable} {now : Instant}
    {es : List RemoteEntry} (hinc : t.localEntry.incarnation = 0)
    (h : ∃ r ∈ es, r.nodeId = t.localId ∧ r.accuses) :
    (t.merge now es).localEntry.status = .alive := by
  induction es generalizing t with
  | nil => simp at h
  | cons r es ih =>
      rw [merge_cons]
      by_cases hr : r.nodeId = t.localId ∧ r.accuses
      · apply status_localEntry_merge_of_alive
        have hle : t.localEntry.incarnation ≤ r.incarnation := by
          rw [hinc, UInt64.le_iff_toNat_le]
          exact Nat.zero_le _
        rw [localEntry_mergeEntry, if_pos hr.1, refute, if_pos ⟨hr.2, hle⟩]
      · have hsame : (mergeEntry now t r).localEntry = t.localEntry := by
          rw [localEntry_mergeEntry]
          split_ifs with hid
          · rw [refute, if_neg (fun hacc => hr ⟨hid, hacc.1⟩)]
          · rfl
        apply ih
        · rw [hsame]
          exact hinc
        · obtain ⟨r', hr', hacc⟩ := h
          rw [localId_mergeEntry]
          rcases List.mem_cons.mp hr' with rfl | hr'
          · exact absurd hacc hr
          · exact ⟨r', hr', hacc⟩

/-- While nobody claims more than the local incarnation, a message makes
the node bump it at most ONCE: after one bump every accusation is old. -/
theorem incarnation_merge_of_bounded {t : MembershipTable} {now : Instant}
    {es : List RemoteEntry} {b : UInt64} (hwrap : b.toNat + 1 < 2 ^ 64)
    (hlocal : t.localEntry.incarnation = b ∨ t.localEntry.incarnation = b + 1)
    (h : ∀ r ∈ es, r.nodeId = t.localId → r.incarnation ≤ b) :
    (t.merge now es).localEntry.incarnation = b
      ∨ (t.merge now es).localEntry.incarnation = b + 1 := by
  induction es generalizing t with
  | nil => exact hlocal
  | cons r es ih =>
      rw [merge_cons]
      apply ih
      · rw [localEntry_mergeEntry]
        split_ifs with hr
        · have hle := h r (by simp) hr
          rw [refute]
          split_ifs with hacc
          · -- the accusation counts, so it is at the bound and not yet refuted
            right
            rcases hlocal with hb | hb
            · rw [hb] at hacc
              exact congrArg (· + 1) (le_antisymm hle hacc.2)
            · rw [hb] at hacc
              have hlt := UInt64.le_iff_toNat_le.mp (le_trans hacc.2 hle)
              rw [U64.toNat_succ_of_lt hwrap] at hlt
              omega
          · exact hlocal
        · exact hlocal
      · intro r' hr'
        rw [localId_mergeEntry]
        exact h r' (by simp [hr'])

theorem localEntry_markSelfAlive (t : MembershipTable) :
    t.markSelfAlive.localEntry
      = { t.localEntry with incarnation := t.localEntry.incarnation + 1, status := .alive } := by
  apply localEntry_eq
  rw [localId_markSelfAlive, lookup_markSelfAlive, if_pos rfl, lookup_localId]
  rfl

/-! ## Initial tables -/

theorem localId_foldl_addSeed (now : Instant) (localId : NodeId) (seeds : List NodeInfo)
    (t : MembershipTable) : (seeds.foldl (addSeed now localId) t).localId = t.localId := by
  induction seeds generalizing t with
  | nil => rfl
  | cons node seeds ih =>
      rw [List.foldl_cons, ih, addSeed]
      split_ifs <;> rfl

theorem localId_new (now : Instant) (localId : NodeId) (seeds : List NodeInfo) :
    (new now localId seeds).localId = localId := by
  rw [new, localId_foldl_addSeed]
  exact selfInfo_id localId seeds

/-- The seed loop adds seeds only, as Alive at incarnation zero. -/
theorem seed_of_lookup {now : Instant} {localId j : NodeId} {seeds : List NodeInfo}
    {t : MembershipTable} {e : MemberEntry}
    (h : (seeds.foldl (addSeed now localId) t).members.lookup j = some e) :
    t.members.lookup j = some e
      ∨ (j ≠ localId ∧ ∃ node ∈ seeds, j = node.id ∧ e = ⟨node, .alive, 0, now⟩) := by
  induction seeds generalizing t with
  | nil => exact .inl h
  | cons node seeds ih =>
      rcases ih h with hstep | ⟨hne, node', hmem, hj, he⟩
      · rw [addSeed] at hstep
        split_ifs at hstep with hnode
        · rw [lookup_put] at hstep
          split_ifs at hstep with hj
          · cases hstep
            exact .inr ⟨by rw [hj]; exact hnode, node, List.mem_cons_self, hj, rfl⟩
          · exact .inl hstep
        · exact .inl hstep
      · exact .inr ⟨hne, node', List.mem_cons_of_mem _ hmem, hj, he⟩

theorem lookup_foldl_addSeed {now : Instant} {localId j : NodeId} {seeds : List NodeInfo}
    {t : MembershipTable} {e : MemberEntry}
    (h : (seeds.foldl (addSeed now localId) t).members.lookup j = some e) :
    t.members.lookup j = some e
      ∨ (j ≠ localId ∧ e.incarnation = 0 ∧ e.status = .alive ∧ j ∈ seeds.map (·.id)) := by
  rcases seed_of_lookup h with hold | ⟨hne, node, hmem, rfl, rfl⟩
  · exact .inl hold
  · exact .inr ⟨hne, rfl, rfl, List.mem_map_of_mem hmem⟩

/-- Every entry of a new table is the node itself or one of its seeds,
at incarnation zero. -/
theorem lookup_new {now : Instant} {localId : NodeId} {seeds : List NodeInfo} {j : NodeId}
    {e : MemberEntry} (h : (new now localId seeds).members.lookup j = some e) :
    e.incarnation = 0 ∧
      ((j = localId ∧ e.status = if seeds.isEmpty then .alive else .joining)
        ∨ (j ≠ localId ∧ e.status = .alive ∧ j ∈ seeds.map (·.id))) := by
  rcases lookup_foldl_addSeed h with hself | ⟨hne, hinc, hst, hmem⟩
  · rw [lookup_singleton] at hself
    by_cases hj : j = (selfInfo localId seeds).id
    · rw [if_pos hj] at hself
      cases hself
      exact ⟨rfl, .inl ⟨hj.trans (selfInfo_id localId seeds), rfl⟩⟩
    · rw [if_neg hj] at hself
      cases hself
  · exact ⟨hinc, .inr ⟨hne, hst, hmem⟩⟩

theorem localEntry_new (now : Instant) (localId : NodeId) (seeds : List NodeInfo) :
    (new now localId seeds).localEntry.incarnation = 0
      ∧ (new now localId seeds).localEntry.status
        = if seeds.isEmpty then .alive else .joining := by
  have h := lookup_localId (new now localId seeds)
  rw [localId_new] at h
  obtain ⟨hinc, ⟨_, hst⟩ | ⟨hne, _⟩⟩ := lookup_new h
  · exact ⟨hinc, hst⟩
  · exact absurd rfl hne

/-! ## The view a table holds -/

/-- The version held for an id; `⊥` when the id is unknown. -/
def held (t : MembershipTable) (id : NodeId) : WithBot (UInt64 ×ₗ MemberStatus) :=
  match t.members.lookup id with
  | some e => (e.version : WithBot (UInt64 ×ₗ MemberStatus))
  | none => ⊥

theorem held_eq {t : MembershipTable} {id : NodeId} {e : MemberEntry}
    (h : t.members.lookup id = some e) : t.held id = e.version := by
  simp [held, h]

/-- **One remote entry is joined into the view**, at every id when it is
about another node, and at every other id when it is about this one. -/
theorem held_mergeEntry {now : Instant} {t : MembershipTable} {r : RemoteEntry} {id : NodeId}
    (h : r.nodeId ≠ t.localId ∨ id ≠ t.localId) :
    (mergeEntry now t r).held id = t.held id ⊔ JoinFold.reported [r.item] id := by
  by_cases hself : r.nodeId = t.localId
  · have hid : id ≠ t.localId := h.resolve_left fun hne => hne hself
    have hlook := lookup_mergeEntry_self now hself id
    rw [if_neg hid] at hlook
    simp [held, hlook, RemoteEntry.item, hself, Ne.symm hid]
  · have hlook := lookup_mergeEntry_remote now hself id
    by_cases hid : id = r.nodeId
    · subst hid
      rw [if_pos rfl] at hlook
      rw [held_eq hlook]
      simp only [RemoteEntry.item, JoinFold.reported_cons, JoinFold.reported_nil, if_pos,
        sup_bot_eq]
      cases hhere : t.members.lookup r.nodeId with
      | none =>
          simp only [held, hhere, absorb, bot_sup_eq]
          rfl
      | some e =>
          rw [held_eq hhere, ← WithBot.coe_sup, absorb]
          by_cases hlt : e.version < r.version
          · rw [if_pos hlt, sup_of_le_right hlt.le]
            rfl
          · rw [if_neg hlt, sup_of_le_left (not_lt.mp hlt)]
    · rw [if_neg hid] at hlook
      simp [held, hlook, RemoteEntry.item, Ne.symm hid]

/-- **Merge is a join**: an id ends at the maximum of what was held and
what was reported. Only the local entry can escape the rule, and only
through an entry about the local node. -/
theorem held_merge {t : MembershipTable} {now : Instant} {es : List RemoteEntry} {id : NodeId}
    (h : ∀ r ∈ es, r.nodeId ≠ t.localId ∨ id ≠ t.localId) :
    (t.merge now es).held id
      = t.held id ⊔ JoinFold.reported (es.map RemoteEntry.item) id := by
  apply JoinFold.foldl_view (fun s => s.localId = t.localId) (fun s => held s id) rfl
  intro s hs r hr
  refine ⟨(localId_mergeEntry now s r).trans hs, held_mergeEntry ?_⟩
  rw [hs]
  exact h r hr

end MembershipTable

end SelfHealingCache
