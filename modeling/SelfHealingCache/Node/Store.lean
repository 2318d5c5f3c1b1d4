import SelfHealingCache.Lib.Assoc

/-!
# The TTL store

`crates/node/src/cache/store.rs` and the sweeper of `expiry.rs`. An
`Instant` is a reading of the process's monotonic clock in nanoseconds;
every operation that calls `Instant::now()` takes the reading as `now`.
The `epoch` field of the source only serves conversions nothing calls
and is left out.

An expired entry stays in the map until something removes it: a read of
its key, the sweeper, or an overwrite. `Op` lists the operations, and
`lookup_run_of_untouched` / `lookup_run_of_unset` say what a run of them
can do to a key they do not address.

The map is a `DashMap`. What works on one key holds the lock of its shard
and is one step here; `sweep`, which goes through the shards one after
the other, is one step here as well: between two of its shards the source
lets other operations in.
-/

namespace SelfHealingCache

/-- A reading of the monotonic clock, in nanoseconds. -/
abbrev Instant := Nat

/-- A span of time, in nanoseconds. -/
abbrev Duration := Nat

abbrev Bytes := List UInt8

/-- `Duration::from_millis`. -/
def fromMillis (ms : UInt64) : Duration := ms.toNat * 1000000

/-- `Duration::from_secs`. -/
def fromSecs (secs : UInt64) : Duration := secs.toNat * 1000000000

structure CacheEntry where
  value : Bytes
  expiresAt : Option Instant
  deriving DecidableEq

/-- Readable at `now`: no expiry, or an expiry strictly ahead. -/
def CacheEntry.live (e : CacheEntry) (now : Instant) : Bool :=
  match e.expiresAt with
  | some expiresAt => now < expiresAt
  | none => true

/-- What has expired stays expired. -/
theorem CacheEntry.live_of_le {e : CacheEntry} {now later : Instant} (h : now ≤ later)
    (hlive : e.live later) : e.live now := by
  rw [live] at hlive ⊢
  cases hexp : e.expiresAt with
  | none => rfl
  | some expiresAt =>
      rw [hexp] at hlive
      simp only [decide_eq_true_eq] at hlive ⊢
      exact Nat.lt_of_le_of_lt h hlive

structure CacheStore where
  data : Assoc String CacheEntry
  deriving DecidableEq

namespace CacheStore

def new : CacheStore := ⟨∅⟩

def set (s : CacheStore) (now : Instant) (key : String) (value : Bytes)
    (ttl : Option Duration) : CacheStore :=
  ⟨s.data.insert key ⟨value, ttl.map (now + ·)⟩⟩

/-- The value read, and the store after the read: an expired entry is
removed on the way (lazy expiry). -/
def get (s : CacheStore) (now : Instant) (key : String) : Option Bytes × CacheStore :=
  match s.data.lookup key with
  | none => (none, s)
  | some entry =>
      match entry.expiresAt with
      | some expiresAt =>
          if expiresAt ≤ now then (none, ⟨s.data.erase key⟩) else (some entry.value, s)
      | none => (some entry.value, s)

/-- `remove(key).is_some()`: an expired entry still counts. -/
def delete (s : CacheStore) (key : String) : Bool × CacheStore :=
  ((s.data.lookup key).isSome, ⟨s.data.erase key⟩)

/-- Set the expiry of a key that is in the map, expired or not. -/
def expire (s : CacheStore) (now : Instant) (key : String) (ttl : Duration) :
    Bool × CacheStore :=
  ((s.data.lookup key).isSome,
    ⟨s.data.modify key fun entry => { entry with expiresAt := some (now + ttl) }⟩)

/-- Insert a transferred key; a remaining time of zero is skipped. -/
def setFromTransfer (s : CacheStore) (now : Instant) (key : String) (value : Bytes)
    (remainingMs : Option UInt64) : CacheStore :=
  match remainingMs with
  | some ms => if ms = 0 then s else s.set now key value (some (fromMillis ms))
  | none => s.set now key value none

/-- One pass of the expiry sweeper. -/
def sweep (s : CacheStore) (now : Instant) : CacheStore :=
  ⟨s.data.retain fun _ entry => match entry.expiresAt with
    | some expiresAt => now < expiresAt
    | none => true⟩

/-! ## What each operation does to a key -/

@[simp] theorem lookup_set (s : CacheStore) (now : Instant) (key : String) (value : Bytes)
    (ttl : Option Duration) (k : String) :
    (s.set now key value ttl).data.lookup k
      = if k = key then some ⟨value, ttl.map (now + ·)⟩ else s.data.lookup k :=
  Assoc.lookup_insert_eq ..

@[simp] theorem lookup_delete (s : CacheStore) (key k : String) :
    (s.delete key).2.data.lookup k = if k = key then none else s.data.lookup k :=
  Assoc.lookup_erase_eq ..

@[simp] theorem lookup_expire (s : CacheStore) (now : Instant) (key : String) (ttl : Duration)
    (k : String) :
    (s.expire now key ttl).2.data.lookup k
      = if k = key
        then (s.data.lookup k).map fun entry => { entry with expiresAt := some (now + ttl) }
        else s.data.lookup k :=
  Assoc.lookup_modify ..

@[simp] theorem lookup_sweep (s : CacheStore) (now : Instant) (k : String) :
    (s.sweep now).data.lookup k = (s.data.lookup k).filter (·.live now) :=
  Assoc.lookup_retain ..

/-- A transfer writes its own key, or nothing when no time remains. -/
theorem lookup_setFromTransfer (s : CacheStore) (now : Instant) (key : String) (value : Bytes)
    (remainingMs : Option UInt64) (k : String) :
    (s.setFromTransfer now key value remainingMs).data.lookup k
      = if k = key ∧ remainingMs ≠ some 0
        then some ⟨value, remainingMs.map fun ms => now + fromMillis ms⟩
        else s.data.lookup k := by
  cases remainingMs with
  | none => simp [setFromTransfer]
  | some ms => by_cases hzero : ms = 0 <;> simp [setFromTransfer, hzero]

theorem lookup_setFromTransfer_ne {s : CacheStore} {now : Instant} {key k : String}
    {value : Bytes} {remainingMs : Option UInt64} (h : k ≠ key) :
    (s.setFromTransfer now key value remainingMs).data.lookup k = s.data.lookup k := by
  rw [lookup_setFromTransfer, if_neg fun hk => h hk.1]

/-- **What a read returns**: the value of the entry, if it is live. -/
theorem get_fst (s : CacheStore) (now : Instant) (key : String) :
    (s.get now key).1 = ((s.data.lookup key).filter (·.live now)).map (·.value) := by
  rw [get]
  cases s.data.lookup key with
  | none => rfl
  | some entry =>
      cases hexp : entry.expiresAt with
      | none => simp [CacheEntry.live, hexp, Option.filter]
      | some expiresAt =>
          by_cases hle : expiresAt ≤ now
          · simp [CacheEntry.live, hexp, Option.filter, hle]
          · simp [CacheEntry.live, hexp, Option.filter, hle, Nat.lt_of_not_le hle]

/-- **What a read leaves**: the map, minus its own key when that is
expired. -/
theorem lookup_get (s : CacheStore) (now : Instant) (key k : String) :
    (s.get now key).2.data.lookup k
      = if k = key then (s.data.lookup k).filter (·.live now) else s.data.lookup k := by
  by_cases hk : k = key
  · subst hk
    rw [if_pos rfl, get]
    cases hl : s.data.lookup k with
    | none => simp [hl]
    | some entry =>
        cases hexp : entry.expiresAt with
        | none => simp [CacheEntry.live, hexp, hl, Option.filter]
        | some expiresAt =>
            by_cases hle : expiresAt ≤ now
            · simp [CacheEntry.live, hexp, Option.filter, hle, AList.lookup_erase]
            · simp [CacheEntry.live, hexp, Option.filter, hle, hl, Nat.lt_of_not_le hle]
  · rw [if_neg hk, get]
    split
    · rfl
    · split
      · split_ifs
        · exact AList.lookup_erase_ne hk
        · rfl
      · rfl

/-- A live entry stays when the expired ones go. -/
theorem filter_live_cases (entry : Option CacheEntry) (now : Instant) :
    entry.filter (·.live now) = entry
      ∨ ((∃ e, entry = some e ∧ e.live now = false) ∧ entry.filter (·.live now) = none) := by
  cases entry with
  | none => exact .inl rfl
  | some e =>
      cases hlive : e.live now with
      | true => exact .inl (by rw [Option.filter_some, hlive]; rfl)
      | false => exact .inr ⟨⟨e, rfl, hlive⟩, by rw [Option.filter_some, hlive]; rfl⟩

/-! ## Runs of store operations -/

/-- The operations on a store, as the node's entry points issue them. -/
inductive Op where
  | set (key : String) (value : Bytes) (ttl : Option Duration)
  | setFromTransfer (key : String) (value : Bytes) (remainingMs : Option UInt64)
  | get (key : String)
  | delete (key : String)
  | expire (key : String) (ttl : Duration)
  | sweep

/-- The store after one operation at time `now`. -/
def apply (s : CacheStore) (now : Instant) : Op → CacheStore
  | .set key value ttl => s.set now key value ttl
  | .setFromTransfer key value remainingMs => s.setFromTransfer now key value remainingMs
  | .get key => (s.get now key).2
  | .delete key => (s.delete key).2
  | .expire key ttl => (s.expire now key ttl).2
  | .sweep => s.sweep now

/-- The operation can give `k` an entry or a new expiry. -/
def Op.writes (k : String) : Op → Prop
  | .set key _ _ | .setFromTransfer key _ _ | .expire key _ => key = k
  | .get _ | .delete _ | .sweep => False

/-- The operation can put `k` into the store: `expire` cannot. -/
def Op.sets (k : String) : Op → Prop
  | .set key _ _ | .setFromTransfer key _ _ => key = k
  | .get _ | .delete _ | .expire _ _ | .sweep => False

/-- The operation is a delete of `k`. -/
def Op.deletes (k : String) : Op → Prop
  | .delete key => key = k
  | _ => False

/-- The store after a list of timed operations. -/
def run (s : CacheStore) (ops : List (Instant × Op)) : CacheStore :=
  ops.foldl (fun s op => s.apply op.1 op.2) s

/-- One operation that does not write `k` keeps its entry or drops it. -/
theorem lookup_apply_of_unwritten (s : CacheStore) (now : Instant) {op : Op} {k : String}
    (h : ¬ op.writes k) :
    (s.apply now op).data.lookup k = s.data.lookup k
      ∨ (s.apply now op).data.lookup k = none := by
  cases op with
  | set key value ttl =>
      rw [Op.writes] at h
      exact .inl (by simp [apply, Ne.symm h])
  | setFromTransfer key value remainingMs =>
      rw [Op.writes] at h
      exact .inl (lookup_setFromTransfer_ne (Ne.symm h))
  | get key =>
      rw [apply, lookup_get]
      split_ifs
      · exact (filter_live_cases _ now).imp_right And.right
      · exact .inl rfl
  | delete key =>
      rw [apply, lookup_delete]
      split_ifs
      · exact .inr rfl
      · exact .inl rfl
  | expire key ttl =>
      rw [Op.writes] at h
      exact .inl (by simp [apply, Ne.symm h])
  | sweep =>
      rw [apply, lookup_sweep]
      exact (filter_live_cases _ now).imp_right And.right

/-- One operation that neither writes nor deletes `k` keeps an entry
that has no expiry. -/
theorem lookup_apply_of_untouched {s : CacheStore} {now : Instant} {op : Op} {k : String}
    {value : Bytes} (hw : ¬ op.writes k) (hd : ¬ op.deletes k)
    (h : s.data.lookup k = some ⟨value, none⟩) :
    (s.apply now op).data.lookup k = some ⟨value, none⟩ := by
  cases op with
  | set key value' ttl =>
      rw [Op.writes] at hw
      simp [apply, Ne.symm hw, h]
  | setFromTransfer key value' remainingMs =>
      rw [Op.writes] at hw
      rw [apply, lookup_setFromTransfer_ne (Ne.symm hw), h]
  | get key => simp [apply, lookup_get, h, Option.filter, CacheEntry.live]
  | delete key =>
      rw [Op.deletes] at hd
      simp [apply, Ne.symm hd, h]
  | expire key ttl =>
      rw [Op.writes] at hw
      simp [apply, Ne.symm hw, h]
  | sweep => simp [apply, h, Option.filter, CacheEntry.live]

/-- One operation that does not set `k` leaves it absent. -/
theorem lookup_apply_of_unset {s : CacheStore} {now : Instant} {op : Op} {k : String}
    (h : ¬ op.sets k) (hnone : s.data.lookup k = none) :
    (s.apply now op).data.lookup k = none := by
  cases op with
  | set key value ttl =>
      rw [Op.sets] at h
      simp [apply, Ne.symm h, hnone]
  | setFromTransfer key value remainingMs =>
      rw [Op.sets] at h
      rw [apply, lookup_setFromTransfer_ne (Ne.symm h), hnone]
  | get key => simp [apply, lookup_get, hnone]
  | delete key => simp [apply, hnone]
  | expire key ttl => simp [apply, hnone]
  | sweep => simp [apply, hnone]

/-- A run that does not set `k` leaves it absent. -/
theorem lookup_run_of_unset {k : String} {ops : List (Instant × Op)} {s : CacheStore}
    (h : ∀ op ∈ ops, ¬ op.2.sets k) (hnone : s.data.lookup k = none) :
    (s.run ops).data.lookup k = none := by
  induction ops generalizing s with
  | nil => exact hnone
  | cons op ops ih =>
      exact ih (fun o ho => h o (by simp [ho])) (lookup_apply_of_unset (h op (by simp)) hnone)

/-- A run that neither writes nor deletes `k` keeps an entry that has no
expiry. -/
theorem lookup_run_of_untouched {k : String} {value : Bytes} {ops : List (Instant × Op)}
    {s : CacheStore} (hw : ∀ op ∈ ops, ¬ op.2.writes k) (hd : ∀ op ∈ ops, ¬ op.2.deletes k)
    (h : s.data.lookup k = some ⟨value, none⟩) :
    (s.run ops).data.lookup k = some ⟨value, none⟩ := by
  induction ops generalizing s with
  | nil => exact h
  | cons op ops ih =>
      exact ih (fun o ho => hw o (by simp [ho])) (fun o ho => hd o (by simp [ho]))
        (lookup_apply_of_untouched (hw op (by simp)) (hd op (by simp)) h)

end CacheStore

end SelfHealingCache
