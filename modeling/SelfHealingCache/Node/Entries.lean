import SelfHealingCache.Node.Transfer

/-!
# A property of every entry

Three things make an entry of a store or change one: a write that is then
acknowledged, an EXPIRE, and a chunk of a transfer. Everything else a
process does removes entries or leaves them alone. So a property of keys
and entries lasts once it holds of what these three leave
(`NodeMove.every`).
-/

namespace SelfHealingCache

/-- The reply reports a write as done. -/
def Reply.accepts (reply : Reply) : Prop :=
  (∃ resp, reply = .set (.ok resp)) ∨ reply = .resp (encodeSimpleString "OK")

/-! ## The operations of a store -/

namespace CacheStore

variable {R : String → CacheEntry → Prop} {s : CacheStore} {now : Instant}

/-- Every entry has the property, under its key. -/
def Every (R : String → CacheEntry → Prop) (s : CacheStore) : Prop :=
  ∀ k e, s.data.lookup k = some e → R k e

theorem Every.mono {R' : String → CacheEntry → Prop} (h : s.Every R)
    (hR : ∀ k e, R k e → R' k e) : s.Every R' :=
  fun k e he => hR k e (h k e he)

theorem every_new : CacheStore.new.Every R := by
  intro k e he
  simp [CacheStore.new] at he

theorem Every.set (h : s.Every R) {key : String} {value : Bytes} {ttl : Option Duration}
    (hnew : R key ⟨value, ttl.map (now + ·)⟩) : (s.set now key value ttl).Every R := by
  intro k e he
  rw [lookup_set] at he
  split_ifs at he with hk
  · cases he
    rw [hk]
    exact hnew
  · exact h k e he

theorem Every.delete (h : s.Every R) (key : String) : (s.delete key).2.Every R := by
  intro k e he
  rw [lookup_delete] at he
  split_ifs at he
  exact h k e he

theorem Every.sweep (h : s.Every R) : (s.sweep now).Every R := by
  intro k e he
  rw [lookup_sweep] at he
  exact h k e (Option.filter_eq_some_iff.mp he).1

theorem Every.expire (h : s.Every R) {key : String} {ttl : Duration}
    (hnew : ∀ e, R key e → R key { e with expiresAt := some (now + ttl) }) :
    (s.expire now key ttl).2.Every R := by
  intro k e he
  rw [lookup_expire] at he
  split_ifs at he with hk
  · obtain ⟨e', he', rfl⟩ := Option.map_eq_some_iff.mp he
    rw [hk] at he' ⊢
    exact hnew e' (h key e' he')
  · exact h k e he

theorem Every.setFromTransfer (h : s.Every R) {key : String} {value : Bytes}
    {remainingMs : Option UInt64} (hnew : remainingMs ≠ some 0 →
      R key ⟨value, remainingMs.map fun ms => now + fromMillis ms⟩) :
    (s.setFromTransfer now key value remainingMs).Every R := by
  intro k e he
  rw [lookup_setFromTransfer] at he
  split_ifs at he with hk
  · cases he
    rw [hk.1]
    exact hnew hk.2
  · exact h k e he

/-- A chunk is what a live entry says when its store is listed. -/
theorem entry_of_chunk {listing : List (String × CacheEntry)} (hl : s.Lists listing)
    {c : TransferChunk} (hc : c ∈ transferKeys now listing) :
    ∃ e, s.data.lookup c.key = some e ∧ e.live now = true ∧ c.value = e.value
      ∧ c.expiresAtMs = e.expiresAt.map (remainingMs now) := by
  obtain ⟨⟨key, value, remaining⟩, hmem, rfl⟩ := List.mem_map.mp hc
  obtain ⟨e, he, hvalue, hms⟩ := (mem_entriesForTransfer hl).mp hmem
  obtain ⟨hlook, hlive⟩ := Expiring.seen_eq_some.mp he
  exact ⟨e, hlook, hlive, hvalue, hms⟩

/-- The loop body of `entries_for_transfer` at `key`, as the store is
then, with the reading the call began with. -/
def visit (s : CacheStore) (taken : Instant) (key : String) : List TransferChunk :=
  match s.data.lookup key with
  | none => []
  | some entry => transferKeys taken [(key, entry)]

theorem entry_of_visit {key : String} {c : TransferChunk} (hc : c ∈ s.visit now key) :
    ∃ e, s.data.lookup key = some e ∧ c.key = key ∧ c.value = e.value
      ∧ c.expiresAtMs = e.expiresAt.map (remainingMs now) := by
  rw [visit] at hc
  split at hc
  · cases hc
  · rename_i entry hlook
    obtain ⟨sent, hsent, rfl⟩ := List.mem_map.mp hc
    rw [entriesForTransfer_eq] at hsent
    obtain ⟨p, hp, rfl⟩ := List.mem_map.mp hsent
    cases List.mem_singleton.mp (List.mem_filter.mp hp).1
    exact ⟨entry, hlook, rfl, rfl, rfl⟩

/-- A chunk says no more time is left than there is. -/
theorem fromMillis_remainingMs_le (now inst : Instant) :
    fromMillis (remainingMs now inst) ≤ inst - now := by
  rw [fromMillis, toNat_remainingMs]
  exact (Nat.mul_le_mul_right _ (Nat.mod_le _ _)).trans (Nat.div_mul_le_self _ _)

end CacheStore

/-! ## The steps of a process -/

namespace NodeSys

variable {X : Crates} {R : String → CacheEntry → Prop}

/-- What a handler leaves in the store as it ends at `now` has the
property. -/
structure Task.Leaves (R : String → CacheEntry → Prop) (now : Instant) (task : Task) : Prop where
  write : ∀ req reply key value ttl, task = .done req reply →
    req.write = some (key, value, ttl) → reply.accepts → R key ⟨value, ttl.map (now + ·)⟩
  expire : ∀ args reply key ttl e, task = .done (.respExpire args) reply →
    parseExpire args = .ok (key, ttl) → R key e → R key { e with expiresAt := some (now + ttl) }

theorem TaskMove.every {srv srv' : CacheService} {now : Instant} {task task' : Task}
    (h : srv.store.Every R) (hmove : TaskMove srv now task task' srv')
    (hleaves : Task.Leaves R now task') : srv'.store.Every R := by
  cases hmove with
  | refuseSet _ | admitSet _ | refuseDelete _ | admitDelete _ | tombstone | read
    | readExpired _ _ | respDelEnd => exact h
  | delete | removeExpired | respDel => exact h.delete _
  | @set req =>
      exact h.set (hleaves.write (.set req) _ req.key req.value (req.ttlMs.map fromMillis) rfl rfl
        (.inl ⟨_, rfl⟩))
  | @replicate req =>
      exact h.set (hleaves.write (.replicateWrite req) _ req.key req.value
        (req.ttlMs.map fromMillis) rfl rfl (.inl ⟨_, rfl⟩))
  | @respSet args =>
      show (cmdSet args srv.store now).2.Every R
      rw [cmdSet]
      cases hparse : parseSet args with
      | error msg => exact h
      | ok parsed =>
          obtain ⟨key, value, ttl⟩ := parsed
          refine h.set (hleaves.write (.respSet args) _ key value ttl rfl ?_ (.inr ?_))
          · rw [Request.write, hparse]
            rfl
          · rw [cmdSet, hparse]
  | @respExpire args =>
      show (cmdExpire args srv.store now).2.Every R
      rw [cmdExpire]
      cases hparse : parseExpire args with
      | error msg => exact h
      | ok parsed => exact h.expire fun e => hleaves.expire args _ parsed.1 parsed.2 e rfl hparse

/-- **The rule for a process.** -/
theorem NodeMove.every {n n' : NodeSys} {e : NodeEvent} (h : n.store.Every R)
    (hmove : NodeMove X n e n')
    (htask : ∀ i now task, e = .advance i now → n'.tasks i = some task → Task.Leaves R now task)
    (hchunk : ∀ now c, e = .rebalance (.chunk now c) → c.expiresAtMs ≠ some 0 →
      R c.key ⟨c.value, c.expiresAtMs.map fun ms => now + fromMillis ms⟩) :
    n'.store.Every R := by
  cases hmove with
  | gossip hg => exact h
  | purge now => exact h.sweep
  | call req hfree => exact h
  | @advance i now task task' srv _ hmove =>
      have hservice : n.service.store.Every R := h
      exact TaskMove.every hservice hmove (htask i now task' rfl (Function.update_self ..))
  | rebalance hre =>
      cases hre with
      | wait _ | converge _ _ | buildRing _ _ | nextPeer _ | count _ | beginPass _ _ | skipPass _
        | endPass _ _ | markAlive _ => exact h
      | visit _ _ _ => exact h.delete _
      | @chunk ring peer peers now c hphase hpeer =>
          show (acceptChunk X n.table.localId ring n.store now c).Every R
          rw [acceptChunk_eq]
          split_ifs
          · exact h.setFromTransfer (hchunk now c rfl)
          · exact h

end NodeSys

end SelfHealingCache
