import SelfHealingCache.Lib.Trace
import SelfHealingCache.Node.Store

/-!
# A read that removes too late

`CacheStore::get` is two steps on the shared map. The first looks the key
up and tests its expiry while it holds the entry; the second, for an
expired entry only, removes the key, after the entry has been let go. A
write that takes effect between the two is removed in place of the entry
that had expired.

The system here interleaves any number of reads, cut in two, with writes.
`last_set_kept_iff` says when the last write survives: exactly when no
read of its key stands between its two steps at that moment, unless the
value has expired in the meantime anyway.
-/

namespace SelfHealingCache

namespace CacheStore

/-- The first step of `get`: the answer, or `none` when the entry has
expired and is to be removed. -/
def getLookup (s : CacheStore) (now : Instant) (key : String) : Option (Option Bytes) :=
  match s.data.lookup key with
  | none => some none
  | some entry =>
      match entry.expiresAt with
      | some expiresAt => if expiresAt ≤ now then none else some (some entry.value)
      | none => some (some entry.value)

/-- The second step. -/
def getRemove (s : CacheStore) (key : String) : CacheStore := ⟨s.data.erase key⟩

/-- `get` is its two steps. -/
theorem get_eq_steps (s : CacheStore) (now : Instant) (key : String) :
    s.get now key = match s.getLookup now key with
      | some answer => (answer, s)
      | none => (none, s.getRemove key) := by
  rw [get, getLookup]
  cases s.data.lookup key with
  | none => rfl
  | some entry =>
      obtain ⟨value, expiresAt⟩ := entry
      cases expiresAt with
      | none => rfl
      | some expiresAt =>
          dsimp only
          split_ifs <;> rfl

/-- A read goes on to remove only what has expired. -/
theorem getLookup_eq_none {s : CacheStore} {now : Instant} {key : String}
    (h : s.getLookup now key = none) :
    ∃ entry, s.data.lookup key = some entry ∧ entry.live now = false := by
  rw [getLookup] at h
  cases hlook : s.data.lookup key with
  | none =>
      rw [hlook] at h
      cases h
  | some entry =>
      obtain ⟨value, expiresAt⟩ := entry
      rw [hlook] at h
      refine ⟨_, rfl, ?_⟩
      cases expiresAt with
      | none => cases h
      | some expiresAt =>
          dsimp only at h
          split_ifs at h with hle
          simpa [CacheEntry.live] using hle

end CacheStore

/-! ## The system -/

/-- The map, the reads between their two steps (by call, with their key),
and the last reading of the clock. -/
structure SharedStore where
  store : CacheStore
  removing : Assoc Nat String
  clock : Instant

inductive AccessEvent where
  | set (key : String) (value : Bytes) (ttl : Option Duration)
  /-- The first step of the read `call`. -/
  | lookup (call : Nat) (key : String)
  /-- The second step, of a read that found its key expired. -/
  | remove (call : Nat)

namespace SharedStore

def start (s : CacheStore) : SharedStore := ⟨s, ∅, 0⟩

/-- One step at time `e.1`. -/
def step (st : SharedStore) (e : Instant × AccessEvent) : Option SharedStore :=
  if e.1 < st.clock then none
  else match e.2 with
    | .set key value ttl => some ⟨st.store.set e.1 key value ttl, st.removing, e.1⟩
    | .lookup call key =>
        if (st.removing.lookup call).isSome then none
        else match st.store.getLookup e.1 key with
          | some _ => some { st with clock := e.1 }
          -- the reference is dropped here, and the removal still to come
          | none => some { st with removing := st.removing.insert call key, clock := e.1 }
    | .remove call =>
        match st.removing.lookup call with
        | some key => some ⟨st.store.getRemove key, st.removing.erase call, e.1⟩
        | none => none

/-- **Everything a step can do.** -/
theorem step_cases {st st' : SharedStore} {e : Instant × AccessEvent} (h : st.step e = some st') :
    st.clock ≤ e.1 ∧ st'.clock = e.1
      ∧ ((∃ key value ttl, e.2 = .set key value ttl ∧ st'.removing = st.removing
          ∧ st'.store = st.store.set e.1 key value ttl)
        ∨ (∃ call key, e.2 = .lookup call key ∧ st'.store = st.store
          ∧ (st'.removing = st.removing
            ∨ (st.store.getLookup e.1 key = none ∧ st.removing.lookup call = none
              ∧ st'.removing = st.removing.insert call key)))
        ∨ (∃ call key, e.2 = .remove call ∧ st.removing.lookup call = some key
          ∧ st'.store = st.store.getRemove key ∧ st'.removing = st.removing.erase call)) := by
  obtain ⟨now, event⟩ := e
  rw [step] at h
  split_ifs at h with hlt
  refine ⟨Nat.le_of_not_lt hlt, ?_⟩
  cases event with
  | set key value ttl =>
      cases h
      exact ⟨rfl, .inl ⟨key, value, ttl, rfl, rfl, rfl⟩⟩
  | lookup call key =>
      dsimp only at h
      split_ifs at h with hbusy
      cases hlook : st.store.getLookup now key with
      | some answer =>
          rw [hlook] at h
          cases h
          exact ⟨rfl, .inr (.inl ⟨call, key, rfl, rfl, .inl rfl⟩)⟩
      | none =>
          rw [hlook] at h
          cases h
          exact ⟨rfl, .inr (.inl ⟨call, key, rfl, rfl, .inr ⟨hlook, by simpa using hbusy, rfl⟩⟩)⟩
  | remove call =>
      dsimp only at h
      cases hcall : st.removing.lookup call with
      | none =>
          rw [hcall] at h
          cases h
      | some key =>
          rw [hcall] at h
          cases h
          exact ⟨rfl, .inr (.inr ⟨call, key, rfl, hcall, rfl, rfl⟩)⟩

/-- The clock of a run does not go back, and ends at or after every
event. -/
theorem clock_exec {st final : SharedStore} {es : List (Instant × AccessEvent)}
    (h : Trace.exec step st es = some final) :
    st.clock ≤ final.clock ∧ ∀ e ∈ es, e.1 ≤ final.clock := by
  induction es generalizing st with
  | nil =>
      cases h
      exact ⟨Nat.le_refl _, by simp⟩
  | cons e es ih =>
      obtain ⟨mid, hstep, hrest⟩ := Trace.exec_cons.mp h
      obtain ⟨hle, hclock, -⟩ := step_cases hstep
      obtain ⟨hmid, hes⟩ := ih hrest
      rw [hclock] at hmid
      refine ⟨Nat.le_trans hle hmid, ?_⟩
      intro e' he'
      rcases List.mem_cons.mp he' with rfl | he'
      · exact hmid
      · exact hes e' he'

/-! ## After the last write -/

section LastWrite

variable {k : String} {entry : CacheEntry} {now : Instant}

/-- No read of `k` stands between its two steps. -/
def NoneRemoving (k : String) (st : SharedStore) : Prop :=
  ∀ call, st.removing.lookup call ≠ some k

/-- The event is no write of `k`. -/
def Leaves (k : String) (e : Instant × AccessEvent) : Prop :=
  ∀ value ttl, e.2 ≠ .set k value ttl

theorem lookup_set_of_leaves {st : SharedStore} {e : Instant × AccessEvent} {key : String}
    {value : Bytes} {ttl : Option Duration} (h : Leaves k e) (he : e.2 = .set key value ttl) :
    (st.store.set e.1 key value ttl).data.lookup k = st.store.data.lookup k := by
  have hk : k ≠ key := by
    rintro rfl
    exact h value ttl he
  rw [CacheStore.lookup_set, if_neg hk]

/-- A live entry that no read is about to remove stays, and no read comes
to remove it. -/
theorem kept_step {st st' : SharedStore} {e : Instant × AccessEvent}
    (hlook : st.store.data.lookup k = some entry) (hnone : NoneRemoving k st)
    (hleaves : Leaves k e) (hlive : entry.live e.1 = true) (hstep : st.step e = some st') :
    st'.store.data.lookup k = some entry ∧ NoneRemoving k st' := by
  obtain ⟨-, -, ⟨key, value, ttl, he, hrem, hstore⟩ | ⟨call, key, he, hstore, hrem⟩
    | ⟨call, key, he, hcall, hstore, hrem⟩⟩ := step_cases hstep
  · rw [NoneRemoving, hstore, hrem, lookup_set_of_leaves hleaves he]
    exact ⟨hlook, hnone⟩
  · rw [NoneRemoving, hstore]
    refine ⟨hlook, ?_⟩
    rcases hrem with hsame | ⟨hexpired, -, hinsert⟩
    · rw [hsame]
      exact hnone
    · -- the read found an expired entry, so it is not of `k`
      have hk : key ≠ k := by
        rintro rfl
        obtain ⟨found, hfound, hdead⟩ := CacheStore.getLookup_eq_none hexpired
        rw [hlook] at hfound
        cases hfound
        rw [hlive] at hdead
        cases hdead
      intro c
      rw [hinsert, Assoc.lookup_insert_eq]
      split_ifs
      · simpa using hk
      · exact hnone c
  · -- a removal is of the key its read has looked up
    have hk : k ≠ key := by
      rintro rfl
      exact hnone call hcall
    rw [NoneRemoving, hstore, hrem]
    refine ⟨?_, fun c => ?_⟩
    · rw [CacheStore.getRemove, Assoc.lookup_erase_eq, if_neg hk]
      exact hlook
    · rw [Assoc.lookup_erase_eq]
      split_ifs
      · simp
      · exact hnone c

/-- A read that is to remove `k` is still to do it, or the key is gone. -/
theorem lost_step {st st' : SharedStore} {e : Instant × AccessEvent} {call : Nat}
    (h : st.removing.lookup call = some k ∨ st.store.data.lookup k = none)
    (hleaves : Leaves k e) (hstep : st.step e = some st') :
    st'.removing.lookup call = some k ∨ st'.store.data.lookup k = none := by
  obtain ⟨-, -, ⟨key, value, ttl, he, hrem, hstore⟩ | ⟨call', key, he, hstore, hrem⟩
    | ⟨call', key, he, hcall, hstore, hrem⟩⟩ := step_cases hstep
  · rw [hrem, hstore, lookup_set_of_leaves hleaves he]
    exact h
  · rw [hstore]
    refine h.imp_left fun hpending => ?_
    rcases hrem with hsame | ⟨-, hidle, hinsert⟩
    · rw [hsame]
      exact hpending
    · have hne : call ≠ call' := by
        rintro rfl
        rw [hpending] at hidle
        cases hidle
      rw [hinsert, Assoc.lookup_insert_eq, if_neg hne]
      exact hpending
  · rw [hstore, hrem, CacheStore.getRemove, Assoc.lookup_erase_eq, Assoc.lookup_erase_eq]
    -- another call may be the one that removes `k`
    by_cases hk : k = key
    · rw [if_pos hk]
      exact .inr rfl
    · rw [if_neg hk]
      refine h.imp_left fun hpending => ?_
      have hne : call ≠ call' := by
        rintro rfl
        rw [hpending] at hcall
        exact hk (Option.some.inj hcall)
      rw [if_neg hne]
      exact hpending

/-- From a write on: with no read about to remove the key, the value is
there as long as it lives. -/
theorem kept_exec {st final : SharedStore} {es : List (Instant × AccessEvent)}
    (hlook : st.store.data.lookup k = some entry) (hnone : NoneRemoving k st)
    (hleaves : ∀ e ∈ es, Leaves k e) (hlive : entry.live final.clock = true)
    (h : Trace.exec step st es = some final) : final.store.data.lookup k = some entry := by
  have htimes := (clock_exec h).2
  refine (Trace.exec_invariant
    (I := fun st => st.store.data.lookup k = some entry ∧ NoneRemoving k st)
    (C := fun _ e => Leaves k e ∧ entry.live e.1 = true) ?_ ⟨hlook, hnone⟩
    (Trace.along_of_forall (fun e he => ?_) st) h).1
  · rintro s e t ⟨hs, hs'⟩ ⟨he, he'⟩ hstep
    exact kept_step hs hs' he he' hstep
  · exact ⟨hleaves e he, CacheEntry.live_of_le (htimes e he) hlive⟩

/-- With a read about to remove the key, it is gone once that read is
done. -/
theorem lost_exec {st final : SharedStore} {es : List (Instant × AccessEvent)} {call : Nat}
    (hpending : st.removing.lookup call = some k) (hleaves : ∀ e ∈ es, Leaves k e)
    (hdone : final.removing = ∅) (h : Trace.exec step st es = some final) :
    final.store.data.lookup k = none := by
  have hend := Trace.exec_invariant
    (I := fun st => st.removing.lookup call = some k ∨ st.store.data.lookup k = none)
    (C := fun _ e => Leaves k e) (fun s e t hs he hstep => lost_step hs he hstep)
    (.inl hpending) (Trace.along_of_forall hleaves st) h
  rw [hdone] at hend
  exact hend.resolve_left (by simp)

end LastWrite

/-- **When the last write survives.** Whatever state `mid` the calls so
far have led to: in any interleaving of reads and writes that has run to
its end, the store holds the value of the last write of `k`, if that has
not expired, exactly when no read of `k` stood between its two steps when
the write took effect (or the value has expired). -/
theorem last_set_kept_iff {mid final : SharedStore} {k : String} {now : Instant}
    {value : Bytes} {ttl : Option Duration} {post : List (Instant × AccessEvent)}
    (hrun : Trace.exec step mid ((now, .set k value ttl) :: post) = some final)
    (hlast : ∀ e ∈ post, Leaves k e) (hdone : final.removing = ∅) :
    let entry : CacheEntry := ⟨value, ttl.map (now + ·)⟩
    (entry.live final.clock = true → final.store.data.lookup k = some entry)
      ↔ NoneRemoving k mid ∨ entry.live final.clock = false := by
  intro entry
  obtain ⟨written, hstep, hpost⟩ := Trace.exec_cons.mp hrun
  have hwritten : written = ⟨mid.store.set now k value ttl, mid.removing, now⟩ := by
    rw [step] at hstep
    split_ifs at hstep
    cases hstep
    rfl
  have hlook : written.store.data.lookup k = some entry := by
    rw [hwritten]
    simp [entry]
  have hremoving : written.removing = mid.removing := by rw [hwritten]
  constructor
  · -- a read caught between its steps removes whatever it finds later
    intro hkept
    by_contra hcon
    rw [not_or, Bool.not_eq_false] at hcon
    obtain ⟨hsome, hlive⟩ := hcon
    rw [NoneRemoving] at hsome
    push Not at hsome
    obtain ⟨call, hcall⟩ := hsome
    have hgone := lost_exec (by rw [hremoving]; exact hcall) hlast hdone hpost
    rw [hkept hlive] at hgone
    cases hgone
  · rintro (hnone | hdead) hlive
    · refine kept_exec hlook ?_ hlast hlive hpost
      rw [NoneRemoving, hremoving]
      exact hnone
    · rw [hlive] at hdead
      cases hdead

/-- A value that expires at once, and a read that finds it so. -/
def expiredRead : List (Instant × AccessEvent) :=
  [(0, .set "k" [97] (some 1)), (2, .lookup 0 "k")]

/-- The read removes the key before the next write, and another read
follows it. -/
theorem last_set_kept_iff_inTime :
    ∃ mid final,
      Trace.exec step (start .new) (expiredRead ++ [(2, .remove 0)]) = some mid
      ∧ Trace.exec step mid [(3, .set "k" [98] none), (4, .lookup 1 "k")] = some final
      ∧ final.store.data.lookup "k" = some ⟨[98], none⟩ := by
  obtain ⟨mid, final, hmid, hrun, hnone, hdone⟩ :
      ∃ mid final,
        Trace.exec step (start .new) (expiredRead ++ [(2, .remove 0)]) = some mid
        ∧ Trace.exec step mid [(3, .set "k" [98] none), (4, .lookup 1 "k")] = some final
        ∧ mid.removing = ∅ ∧ final.removing = ∅ :=
    ⟨_, _, rfl, rfl, rfl, rfl⟩
  refine ⟨mid, final, hmid, hrun, ?_⟩
  refine (last_set_kept_iff hrun (fun e he value ttl hset => ?_) hdone).mpr (.inl ?_) rfl
  · rw [List.mem_singleton.mp he] at hset
    cases hset
  · rw [NoneRemoving, hnone]
    simp

/-- The read removes what was written in between. -/
theorem last_set_lost :
    ∃ final, Trace.exec step (start .new)
        (expiredRead ++ [(3, .set "k" [98] none), (4, .remove 0)]) = some final
      ∧ final.removing = ∅
      ∧ (⟨[98], none⟩ : CacheEntry).live final.clock = true
      ∧ final.store.data.lookup "k" = none :=
  ⟨_, rfl, rfl, rfl, rfl⟩

end SharedStore

end SelfHealingCache
