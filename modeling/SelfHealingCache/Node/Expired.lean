import SelfHealingCache.Node.Interfaces
import SelfHealingCache.Node.TtlMap

/-!
# What has expired is gone, once somebody has looked

Reads go through the expiry test; `delete` and `expire` do not. They ask
whether the map holds the key, and an expired entry is held until a read
or the sweeper removes it. So the answers about an expired key depend on
whether that has happened: a delete of the leftover counts a key that is
gone, and an `expire` gives it a new life.

`expired_gone_iff` says that this is all. From the moment a key has
expired, and until it is written again, every answer about it is "absent"
exactly when no delete and no `expire` comes upon the leftover.
-/

namespace SelfHealingCache

open Expiring

/-- `EXPIRE key seconds`, the number in decimal. -/
def expireCommand (key : String) (secs : UInt64) : RespValue :=
  .array [.bulkString (bytesOf "EXPIRE"), .bulkString (bytesOf key),
    .bulkString (bytesOf (toString secs.toNat))]

theorem handleCommand_expireCommand (store : CacheStore) (clock : Nat → Instant) (key : String)
    (secs : UInt64) :
    handleCommand (expireCommand key secs) store clock
      = (encodeInteger (if (store.expire (clock 0) key (fromSecs secs)).1 then 1 else 0),
        (store.expire (clock 0) key (fromSecs secs)).2) := by
  have hname : toUppercase "EXPIRE" = "EXPIRE" := by decide
  have hparse : parseExpire [.bulkString (bytesOf "EXPIRE"), .bulkString (bytesOf key),
      .bulkString (bytesOf (toString secs.toNat))] = .ok (key, fromSecs secs) := by
    simp only [parseExpire, extractStr_bytesOf, Option.bind_some, parseU64_toString]
  simp only [handleCommand, expireCommand, extractStr_bytesOf, hname, cmdExpire, hparse]

/-- The two counts are told apart. -/
theorem encodeInteger_flag {b : Bool} :
    encodeInteger (if b then 1 else 0) = encodeInteger 0 ↔ b = false := by
  cases b with
  | false => simp
  | true => simpa using encodeInteger_count_inj (m := 1) (n := 0)

/-! ## Runs with `expire` -/

/-- Any call on the store, or a pass of the sweeper. -/
inductive StoreCall where
  | plain (c : TtlCall)
  | expire (key : String) (ttl : Duration)

/-- The call writes `k`; a transfer without time left does not. -/
def StoreCall.Writes (k : String) : StoreCall → Prop
  | .plain (.set key _ _) => key = k
  | .plain (.setFromTransfer key _ remainingMs) => key = k ∧ remainingMs ≠ some 0
  | _ => False

/-- A store and the last reading of the clock. -/
structure StoreState where
  store : CacheStore
  clock : Instant

namespace StoreState

/-- The store after a call. -/
def perform (s : CacheStore) (now : Instant) : StoreCall → CacheStore
  | .plain c => (s.call now c).2
  | .expire key ttl => (s.expire now key ttl).2

def step (st : StoreState) (e : Instant × StoreCall) : Option StoreState :=
  if st.clock ≤ e.1 then some ⟨perform st.store e.1 e.2, e.1⟩ else none

/-- What is said about `k` is that it is absent: by the reads, by `delete`
and `expire`, and to a RESP client. -/
def ReportsGone (k : String) (st : StoreState) (e : Instant × StoreCall) : Prop :=
  match e.2 with
  | .plain (.get key) => key = k → (st.store.get e.1 key).1 = none
  | .plain (.containsKey key) => key = k → (st.store.containsKey e.1 key).1 = false
  | .plain (.delete key) => key = k → (st.store.delete key).1 = false
      ∧ (handleCommand (delCommand key) st.store fun _ => e.1).1 = encodeInteger 0
  | .expire key ttl => key = k → (st.store.expire e.1 key ttl).1 = false
      ∧ ∀ secs, (handleCommand (expireCommand key secs) st.store fun _ => e.1).1 = encodeInteger 0
  | _ => True

/-- A delete or an `expire` of `k` finds nothing in the map. -/
def Purged (k : String) (st : StoreState) (e : Instant × StoreCall) : Prop :=
  match e.2 with
  | .plain (.delete key) => key = k → st.store.data.lookup k = none
  | .expire key _ => key = k → st.store.data.lookup k = none
  | _ => True

/-- The entry of `k`, if the map holds one, has expired. -/
def Gone (k : String) (st : StoreState) : Prop :=
  ∀ e, st.store.data.lookup k = some e → ∃ inst, e.expiresAt = some inst ∧ inst ≤ st.clock

theorem gone_iff {k : String} {st : StoreState} :
    Gone k st ↔ seen CacheEntry.live st.clock st.store.data.lookup k = none := by
  rw [seen_eq_none, Gone]
  apply forall_congr'
  intro e
  apply imp_congr_right
  intro _
  rw [CacheEntry.live]
  cases e.expiresAt with
  | none => simp
  | some inst => simp

/-- In the abstract map, a call that does not write `k` keeps its entry or
drops it. -/
theorem call_of_not_writes (m : TtlMap) (now : Instant) {c : TtlCall} {k : String}
    (h : ¬ (StoreCall.plain c).Writes k) : m.call now c k = m k ∨ m.call now c k = none := by
  cases c with
  | set key value ttl =>
      left
      rw [TtlMap.call, Function.update_of_ne (Ne.symm h)]
  | setFromTransfer key value remainingMs =>
      left
      rw [TtlMap.call]
      split_ifs with hzero
      · rfl
      · rw [Function.update_of_ne]
        exact fun hk => h ⟨hk.symm, hzero⟩
  | delete key =>
      rw [TtlMap.call]
      by_cases hk : k = key
      · rw [hk, Function.update_self]
        exact .inr rfl
      · rw [Function.update_of_ne hk]
        exact .inl rfl
  | _ => exact .inl rfl

/-- **A call that does not write `k` leaves it gone**, if it comes upon
nothing. -/
theorem gone_step {k : String} {st st' : StoreState} {e : Instant × StoreCall}
    (hgone : Gone k st) (hwrites : ¬ e.2.Writes k) (hpurged : Purged k st e)
    (hstep : st.step e = some st') : Gone k st' := by
  rw [step] at hstep
  split_ifs at hstep with hclock
  cases hstep
  rw [gone_iff] at hgone ⊢
  have hnow := seen_eq_none_of_le lapses_live hclock hgone
  obtain ⟨now, call⟩ := e
  cases call with
  | plain c =>
      -- the store after the call looks like the map of its entries after it
      have hrefines : Refines now st.store st.store.data.lookup := fun _ => rfl
      show seen CacheEntry.live now (st.store.call now c).2.data.lookup k = none
      rw [hrefines.call c k]
      have hcall := call_of_not_writes st.store.data.lookup now hwrites
      rcases hcall with hsame | hnone
      · rw [TtlMap.entryAt, seen_congr (n := st.store.data.lookup) hsame]
        exact hnow
      · rw [TtlMap.entryAt, seen, hnone]
        rfl
  | expire key ttl =>
      -- `expire` does not look at the old time: a leftover it came upon would live again
      show seen CacheEntry.live now (st.store.expire now key ttl).2.data.lookup k = none
      rw [seen, CacheStore.lookup_expire]
      split_ifs with hk
      · rw [hpurged hk.symm]
        rfl
      · exact hnow

theorem reportsGone_iff {k : String} {st st' : StoreState} {e : Instant × StoreCall}
    (hgone : Gone k st) (hstep : st.step e = some st') : ReportsGone k st e ↔ Purged k st e := by
  rw [step] at hstep
  split_ifs at hstep with hclock
  rw [gone_iff] at hgone
  obtain ⟨now, call⟩ := e
  have hnow := seen_eq_none_of_le lapses_live hclock hgone
  have hread : (st.store.get now k).1 = none := by
    rw [CacheStore.get_fst, Option.map_eq_none_iff]
    exact hnow
  cases call with
  -- these two answer by what the map holds, expired or not
  | expire key ttl =>
      apply imp_congr_right
      rintro rfl
      simp only [handleCommand_expireCommand, encodeInteger_flag]
      simp [CacheStore.expire]
  | plain c =>
      cases c with
      | get key =>
          refine iff_of_true ?_ trivial
          rintro rfl
          exact hread
      | containsKey key =>
          refine iff_of_true ?_ trivial
          rintro rfl
          rw [CacheStore.containsKey, hread]
          rfl
      | delete key =>
          apply imp_congr_right
          rintro rfl
          rw [handleCommand_delCommand, encodeInteger_flag]
          simp [CacheStore.delete]
      | _ => exact Iff.rfl

/-- **Expired means gone, exactly until somebody comes upon the
leftover.** -/
theorem expired_gone_iff {k : String} {st : StoreState} (hgone : Gone k st)
    {es : List (Instant × StoreCall)} (hes : ∀ e ∈ es, ¬ e.2.Writes k) :
    Trace.Along step (ReportsGone k) st es ↔ Trace.Along step (Purged k) st es := by
  refine Trace.along_iff_along (I := Gone k) (H := fun _ e => ¬ e.2.Writes k) ?_ ?_ hgone
    (Trace.along_of_forall hes st)
  · intro s e t hs _ hstep
    exact reportsGone_iff hs hstep
  · intro s e t hs hwrites hreports hstep
    exact gone_step hs hwrites ((reportsGone_iff hs hstep).mp hreports) hstep

/-- A key with a TTL of one millisecond, a millisecond later. -/
def leftover : StoreState := ⟨CacheStore.new.set 0 "k" [118] (some 1000000), 1000000⟩

theorem gone_leftover : Gone "k" leftover := by
  intro e he
  cases he
  exact ⟨_, rfl, Nat.le_refl _⟩

/-- After a sweep a delete and an `expire` find nothing. -/
def sweptCalls : List (Instant × StoreCall) :=
  [(1000000, .plain .sweep), (1000000, .plain (.delete "k")), (2000000, .expire "k" 1000000000),
    (2000000, .plain (.get "k"))]

theorem expired_gone_iff_swept : Trace.Along step (ReportsGone "k") leftover sweptCalls := by
  refine (expired_gone_iff gone_leftover ?_).mpr ?_
  · intro e he
    simp only [sweptCalls, List.mem_cons, List.not_mem_nil, or_false] at he
    rcases he with rfl | rfl | rfl | rfl <;> exact id
  · refine Trace.along_of_step rfl trivial (Trace.along_of_step rfl (fun _ => rfl) ?_)
    exact Trace.along_of_step rfl (fun _ => rfl) (Trace.along_of_step rfl trivial trivial)

/-- Without the sweep `delete` counts the key, and an `expire` brings the
value back for a read. -/
theorem not_gone_leftover :
    (leftover.store.delete "k").1 = true
      ∧ ((leftover.store.expire 1000000 "k" 1000000000).2.get 2000000 "k").1 = some [118]
      ∧ ¬ Trace.Along step (ReportsGone "k") leftover [(1000000, .plain (.delete "k"))]
      ∧ ¬ Trace.Along step (ReportsGone "k") leftover
        [(1000000, .expire "k" 1000000000), (2000000, .plain (.get "k"))] := by
  refine ⟨rfl, rfl, fun h => ?_, fun h => ?_⟩
  · have hfalse := ((h _ rfl).1 rfl).1
    cases hfalse
  · have hfalse := ((h _ rfl).1 rfl).1
    cases hfalse

end StoreState

end SelfHealingCache
