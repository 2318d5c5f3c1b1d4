import Mathlib.Data.Set.Card
import Mathlib.Algebra.Group.Nat.Defs
import SelfHealingCache.Lib.Expiring
import SelfHealingCache.Lib.Trace
import SelfHealingCache.Node.RespServer

/-!
# The store as a map with expiry times

The abstract map holds, for each key, what was written last: a value and
an expiry. An entry whose expiry has come does not exist. Nobody removes
it; there is no sweeper and no lazy expiry.

The store removes expired entries at moments of its own choosing, and
five places compare an expiry with the clock. They all agree that the
expiry instant itself is too late (`CacheEntry.live`), so the store looks
like the map at every reading of the clock from its last call on
(`Refines`). One answer is still different: `entries_for_transfer` casts
the remaining milliseconds to 64 bits, and a time that does not fit comes
out shorter.
-/

namespace SelfHealingCache

open Expiring

namespace CacheStore

/-! ## The calls that look at the whole map -/

/-- `len`: the entries whose expiry is ahead. -/
def len (s : CacheStore) (now : Instant) : Nat :=
  (s.data.entries.filter fun e => match e.2.expiresAt with
    | some expiresAt => now < expiresAt
    | none => true).length

def isEmpty (s : CacheStore) (now : Instant) : Bool := s.len now = 0

/-- `listing` lists the entries, in some order, at one moment. The source
iterates a `DashMap` shard by shard and other tasks may come in between;
`Cluster/DataPlane` has the iteration cut at each key. -/
def Lists (s : CacheStore) (listing : List (String × CacheEntry)) : Prop :=
  listing.Perm (s.data.entries.map fun e => (e.1, e.2))

instance (s : CacheStore) (listing : List (String × CacheEntry)) : Decidable (s.Lists listing) :=
  inferInstanceAs (Decidable (listing.Perm _))

/-- `inst.saturating_duration_since(now).as_millis() as u64`. -/
def remainingMs (now inst : Instant) : UInt64 := UInt64.ofNat ((inst - now) / 1000000)

/-- The loop of `entries_for_transfer`, over the map as it lists itself,
with nobody writing meanwhile. -/
def entriesForTransfer (now : Instant) :
    List (String × CacheEntry) → List (String × Bytes × Option UInt64)
  | [] => []
  | (key, entry) :: rest =>
      match entry.expiresAt with
      | some expiresAt =>
          if expiresAt ≤ now then entriesForTransfer now rest
          else (key, entry.value, some (remainingMs now expiresAt)) :: entriesForTransfer now rest
      | none => (key, entry.value, none) :: entriesForTransfer now rest

/-! ## Calls and results -/

end CacheStore

/-- The calls on a store and the passes of the sweeper, `expire` and `ttl`
apart. -/
inductive TtlCall where
  | set (key : String) (value : Bytes) (ttl : Option Duration)
  | setFromTransfer (key : String) (value : Bytes) (remainingMs : Option UInt64)
  | get (key : String)
  | containsKey (key : String)
  | len
  | isEmpty
  | entriesForTransfer (listing : List (String × CacheEntry))
  | delete (key : String)
  | sweep

inductive TtlResult where
  | done
  | value (v : Option Bytes)
  | flag (b : Bool)
  | count (n : Nat)
  | entries (l : List (String × Bytes × Option UInt64))

/-- What a call returns, and the store after it. -/
def CacheStore.call (s : CacheStore) (now : Instant) : TtlCall → TtlResult × CacheStore
  | .set key value ttl => (.done, s.set now key value ttl)
  | .setFromTransfer key value remainingMs => (.done, s.setFromTransfer now key value remainingMs)
  | .get key => (.value (s.get now key).1, (s.get now key).2)
  | .containsKey key => (.flag (s.containsKey now key).1, (s.containsKey now key).2)
  | .len => (.count (s.len now), s)
  | .isEmpty => (.flag (s.isEmpty now), s)
  | .entriesForTransfer listing => (.entries (CacheStore.entriesForTransfer now listing), s)
  | .delete key => (.flag (s.delete key).1, (s.delete key).2)
  | .sweep => (.done, s.sweep now)

/-! ## The abstract map -/

/-- What was written last under each key. -/
abbrev TtlMap := String → Option CacheEntry

namespace TtlMap

/-- The entry of a key, if it exists at `now`. -/
abbrev entryAt (m : TtlMap) (now : Instant) (key : String) : Option CacheEntry :=
  seen CacheEntry.live now m key

/-- The map after a call; a transfer that has no time left writes
nothing. -/
def call (m : TtlMap) (now : Instant) : TtlCall → TtlMap
  | .set key value ttl => Function.update m key (some ⟨value, ttl.map (now + ·)⟩)
  | .setFromTransfer key value remainingMs =>
      if remainingMs = some 0 then m
      else Function.update m key (some ⟨value, (remainingMs.map fromMillis).map (now + ·)⟩)
  | .delete key => Function.update m key none
  | _ => m

end TtlMap

/-! ## The store looks like the map -/

theorem lapses_live : Lapses CacheEntry.live := by
  intro e s t h hlive
  exact CacheEntry.live_of_le h hlive

/-- The store and the map show the same entries at `now`. -/
def Refines (now : Instant) (s : CacheStore) (m : TtlMap) : Prop :=
  ∀ key, seen CacheEntry.live now s.data.lookup key = m.entryAt now key

section Refinement

variable {s : CacheStore} {m : TtlMap} {now later : Instant}

theorem Refines.mono (h : Refines now s m) (hle : now ≤ later) : Refines later s m :=
  fun key => seen_congr_of_le lapses_live hle (h key)

theorem Refines.update (h : Refines now s m) {s' : CacheStore} {key : String}
    {entry : Option CacheEntry}
    (hs : ∀ k, s'.data.lookup k = if k = key then entry else s.data.lookup k) :
    Refines now s' (Function.update m key entry) := by
  intro k
  by_cases hk : k = key
  · subst hk
    apply seen_congr
    rw [hs, if_pos rfl, Function.update_self]
  · rw [seen_congr (n := s.data.lookup) (by rw [hs, if_neg hk]), h k]
    apply seen_congr
    rw [Function.update_of_ne hk]

/-- Removing what is not seen is invisible. -/
theorem Refines.purge (h : Refines now s m) {s' : CacheStore}
    (hs : ∀ k, s'.data.lookup k = s.data.lookup k
      ∨ s'.data.lookup k = seen CacheEntry.live now s.data.lookup k) : Refines now s' m := by
  intro k
  rw [← h k]
  rcases hs k with hsame | hseen
  · exact seen_congr hsame
  · rw [seen_congr (n := seen CacheEntry.live now s.data.lookup) hseen, seen_seen]

theorem get_purges (s : CacheStore) (now : Instant) (key k : String) :
    (s.get now key).2.data.lookup k = s.data.lookup k
      ∨ (s.get now key).2.data.lookup k = seen CacheEntry.live now s.data.lookup k := by
  rw [CacheStore.lookup_get]
  split_ifs
  · exact .inr rfl
  · exact .inl rfl

/-- **Every call keeps the store and the map alike.** -/
theorem Refines.call (h : Refines now s m) (c : TtlCall) :
    Refines now (s.call now c).2 (m.call now c) := by
  cases c with
  | set key value ttl => exact h.update (CacheStore.lookup_set s now key value ttl)
  | setFromTransfer key value remainingMs =>
      rw [CacheStore.call, TtlMap.call]
      cases remainingMs with
      | none => exact h.update (CacheStore.lookup_set s now key value none)
      | some ms =>
          -- `set_from_transfer` returns early when no time remains
          by_cases hzero : ms = 0
          · simpa [CacheStore.setFromTransfer, hzero] using h
          · simp only [CacheStore.setFromTransfer, hzero, if_false, Option.some.injEq]
            exact h.update (CacheStore.lookup_set s now key value (some (fromMillis ms)))
  | get key => exact h.purge (get_purges s now key)
  | containsKey key => exact h.purge (get_purges s now key)
  | len => exact h
  | isEmpty => exact h
  | entriesForTransfer listing => exact h
  | delete key => exact h.update (CacheStore.lookup_delete s key)
  | sweep => exact h.purge fun k => .inr (CacheStore.lookup_sweep s now k)

/-! ## The answers -/

/-- An entry that can be seen is listed. -/
theorem mem_entries_iff {key : String} {e : CacheEntry} :
    (⟨key, e⟩ ∈ s.data.entries ∧ e.live now = true)
      ↔ seen CacheEntry.live now s.data.lookup key = some e := by
  rw [seen_eq_some, ← Option.mem_def, AList.mem_lookup_iff]

theorem len_eq (s : CacheStore) (now : Instant) :
    s.len now = (s.data.entries.filter fun e => e.2.live now).length := rfl

theorem isEmpty_iff (s : CacheStore) (now : Instant) :
    s.isEmpty now = true ↔ ∀ key, seen CacheEntry.live now s.data.lookup key = none := by
  rw [CacheStore.isEmpty, decide_eq_true_eq, len_eq, List.length_eq_zero_iff,
    List.filter_eq_nil_iff]
  constructor
  · intro h key
    rw [Option.eq_none_iff_forall_ne_some]
    intro e he
    obtain ⟨hmem, hlive⟩ := mem_entries_iff.mpr he
    exact h ⟨key, e⟩ hmem hlive
  · rintro h ⟨key, e⟩ hmem hlive
    have hseen := mem_entries_iff.mp ⟨hmem, hlive⟩
    rw [h key] at hseen
    cases hseen

/-- The transfer loop filters and converts. -/
theorem entriesForTransfer_eq (now : Instant) (listing : List (String × CacheEntry)) :
    CacheStore.entriesForTransfer now listing
      = (listing.filter fun p => p.2.live now).map fun p =>
          (p.1, p.2.value, p.2.expiresAt.map (CacheStore.remainingMs now)) := by
  induction listing with
  | nil => rfl
  | cons p rest ih =>
      obtain ⟨key, entry⟩ := p
      rw [CacheStore.entriesForTransfer, ih]
      cases hexp : entry.expiresAt with
      | none =>
          rw [List.filter_cons_of_pos (by simp [CacheEntry.live, hexp]), List.map_cons, hexp]
          rfl
      | some inst =>
          by_cases hle : inst ≤ now
          · rw [List.filter_cons_of_neg (by simpa [CacheEntry.live, hexp] using hle)]
            exact if_pos hle
          · rw [List.filter_cons_of_pos (by simpa [CacheEntry.live, hexp] using hle),
              List.map_cons, hexp]
            exact if_neg hle

theorem mem_entriesForTransfer {listing : List (String × CacheEntry)} (h : s.Lists listing)
    {key : String} {value : Bytes} {remaining : Option UInt64} :
    (key, value, remaining) ∈ CacheStore.entriesForTransfer now listing
      ↔ ∃ e, seen CacheEntry.live now s.data.lookup key = some e ∧ value = e.value
        ∧ remaining = e.expiresAt.map (CacheStore.remainingMs now) := by
  have hlisted : ∀ e, (key, e) ∈ listing ↔ Sigma.mk key e ∈ s.data.entries := by
    intro e
    rw [h.mem_iff, List.mem_map]
    constructor
    · rintro ⟨⟨k, e'⟩, hmem, heq⟩
      cases heq
      exact hmem
    · intro hmem
      exact ⟨⟨key, e⟩, hmem, rfl⟩
  rw [entriesForTransfer_eq, List.mem_map]
  constructor
  · rintro ⟨⟨k, e⟩, hmem, heq⟩
    cases heq
    obtain ⟨hin, hlive⟩ := List.mem_filter.mp hmem
    exact ⟨e, mem_entries_iff.mp ⟨(hlisted e).mp hin, hlive⟩, rfl, rfl⟩
  · rintro ⟨e, he, rfl, rfl⟩
    obtain ⟨hin, hlive⟩ := mem_entries_iff.mpr he
    exact ⟨(key, e), List.mem_filter.mpr ⟨(hlisted e).mpr hin, hlive⟩, rfl⟩

theorem nodup_entriesForTransfer {listing : List (String × CacheEntry)} (h : s.Lists listing) :
    ((CacheStore.entriesForTransfer now listing).map (·.1)).Nodup := by
  have hkeys : (listing.map (·.1)).Nodup := by
    rw [(h.map _).nodup_iff, List.map_map]
    exact s.data.nodupKeys
  rw [entriesForTransfer_eq, List.map_map]
  exact hkeys.sublist (List.filter_sublist.map _)

/-- The times a transfer would report fit in 64 bits. -/
def Fits (s : CacheStore) (now : Instant) : TtlCall → Prop
  | .entriesForTransfer _ =>
      ∀ key e inst, s.data.lookup key = some e → e.expiresAt = some inst → now < inst →
        (inst - now) / 1000000 < 2 ^ 64
  | _ => True

theorem toNat_remainingMs (now inst : Instant) :
    (CacheStore.remainingMs now inst).toNat = (inst - now) / 1000000 % 2 ^ 64 := by
  rw [CacheStore.remainingMs, UInt64.toNat_ofNat']

end Refinement

/-! ## Runs -/

/-- The store and the map, side by side, and the last reading of the
clock. -/
structure TtlState where
  store : CacheStore
  map : TtlMap
  clock : Instant

namespace TtlState

/-- An empty store and an empty map. -/
def start : TtlState := ⟨.new, fun _ => none, 0⟩

/-- A transfer walks the store in an order of the store's entries. -/
def Walks (s : CacheStore) : TtlCall → Bool
  | .entriesForTransfer listing => s.Lists listing
  | _ => true

/-- One call on both, at a reading of the clock that is not before the
last. -/
def step (st : TtlState) (e : Instant × TtlCall) : Option TtlState :=
  if st.clock ≤ e.1 ∧ Walks st.store e.2
  then some ⟨(st.store.call e.1 e.2).2, st.map.call e.1 e.2, e.1⟩ else none

theorem step_eq_some {st st' : TtlState} {e : Instant × TtlCall} (h : st.step e = some st') :
    st.clock ≤ e.1 ∧ (∀ listing, e.2 = .entriesForTransfer listing → st.store.Lists listing)
      ∧ st' = ⟨(st.store.call e.1 e.2).2, st.map.call e.1 e.2, e.1⟩ := by
  rw [step] at h
  split_ifs at h with hcond
  cases h
  refine ⟨hcond.1, fun listing hc => ?_, rfl⟩
  have hlists := hcond.2
  rw [hc, Walks, decide_eq_true_eq] at hlists
  exact hlists

end TtlState

end SelfHealingCache
