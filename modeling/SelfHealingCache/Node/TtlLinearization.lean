import SelfHealingCache.Lib.Trace
import SelfHealingCache.Node.CommandPanics

/-!
# `TTL` between its two reads

`cmd_ttl` asks the store twice: `exists`, and then `ttl`, whose `None`
means that there is no expiry or that there is no key. Other clients, the
sweeper and the clock go on in between. The clock moves a nanosecond at a
time here, so the states a run passes through are all the instants there
are, and an operation happens at the clock it finds.

The answer is right for some instant of the command (`Right`) unless one
of two things happens in between: the key is taken out of the map, which
makes the answer -1, or is given an expiry that is due at once, which
makes it 0 (`ttl_linearizable_iff`).
-/

namespace SelfHealingCache

/-! ## The store and the clock -/

namespace CacheStore

/-- The expiry an operation forms; `expire` forms one only for a key that
is in the map, a transfer only when there is time left. -/
def Op.expiry (s : CacheStore) (now : Instant) : Op → Option Instant
  | .set _ _ ttl => ttl.map (now + ·)
  | .setFromTransfer _ _ remainingMs => (remainingMs.filter (· ≠ 0)).map (now + fromMillis ·)
  | .expire key ttl => if (s.data.lookup key).isSome then some (now + ttl) else none
  | .get _ | .delete _ | .sweep => none

/-- An operation panics before it writes when the clock cannot represent
the expiry. -/
def attempt (s : CacheStore) (now : Instant) (op : Op) : CacheStore :=
  if (op.expiry s now).all (· < instantEnd) then s.apply now op else s

end CacheStore

structure ClockedStore where
  store : CacheStore
  clock : Instant

inductive ClockEvent where
  | tick
  | op (o : CacheStore.Op)

namespace ClockedStore

def start : ClockedStore := ⟨.new, 0⟩

def step (st : ClockedStore) : ClockEvent → Option ClockedStore
  | .tick => if st.clock + 1 < instantEnd then some { st with clock := st.clock + 1 } else none
  | .op o => some { st with store := st.store.attempt st.clock o }

/-! ## The two steps of the command -/

/-- The first step: `exists`. The command answers -2 and ends if it says
no. -/
def existsStep (st : ClockedStore) (key : String) : Bool × ClockedStore :=
  ((st.store.containsKey st.clock key).1,
    { st with store := (st.store.containsKey st.clock key).2 })

/-- The second step: the answer to what `ttl` says. -/
def ttlStep (st : ClockedStore) (key : String) : Int :=
  match st.store.ttl st.clock key with
  | some dur => (asSecs dur).toInt
  | none => -1

/-- `cmd_ttl` is its two steps. -/
theorem cmdTtl_eq_steps {args : List RespValue} {key : String} (h : parseKey "ttl" args = .ok key)
    (store : CacheStore) (now later : Instant) :
    cmdTtl args store now later
      = (encodeInteger (if (existsStep ⟨store, now⟩ key).1
            then ttlStep { (existsStep ⟨store, now⟩ key).2 with clock := later } key else -2),
          (existsStep ⟨store, now⟩ key).2.store) := by
  rw [cmdTtl, h]
  by_cases hfound : (store.containsKey now key).1 = true
  · rw [if_pos (show (existsStep ⟨store, now⟩ key).1 = true from hfound)]
    dsimp only
    rw [if_neg (not_not_intro hfound), ttlStep]
    show _ = (encodeInteger (match (store.containsKey now key).2.ttl later key with
      | some dur => (asSecs dur).toInt
      | none => -1), (store.containsKey now key).2)
    cases (store.containsKey now key).2.ttl later key with
    | none => rfl
    | some dur => rfl
  · rw [if_neg (show ¬ (existsStep ⟨store, now⟩ key).1 = true from hfound)]
    exact if_pos hfound

/-- The right answer at one instant: -2 for an absent key, -1 for one
without an expiry, else the whole seconds it has left. -/
def ttlAt (st : ClockedStore) (key : String) : Int :=
  match (st.store.data.lookup key).filter (·.live st.clock) with
  | none => -2
  | some entry =>
      match entry.expiresAt with
      | none => -1
      | some expiresAt => ((expiresAt - st.clock) / 1000000000 : Nat)

/-- The key is there without an expiry. -/
def Persists (st : ClockedStore) (key : String) : Prop :=
  ∃ value, st.store.data.lookup key = some ⟨value, none⟩

/-- The key is there and has less than a second left. -/
def LastSecond (st : ClockedStore) (key : String) : Prop :=
  ∃ value expiresAt, st.store.data.lookup key = some ⟨value, some expiresAt⟩
    ∧ st.clock < expiresAt ∧ expiresAt < st.clock + 1000000000

theorem ttlAt_of_absent {st : ClockedStore} {key : String}
    (h : (st.store.data.lookup key).filter (·.live st.clock) = none) : st.ttlAt key = -2 := by
  rw [ttlAt, h]

theorem ttlAt_of_persists {st : ClockedStore} {key : String} {value : Bytes}
    (h : st.store.data.lookup key = some ⟨value, none⟩) : st.ttlAt key = -1 := by
  rw [ttlAt, h]
  rfl

theorem ttlAt_of_lt {st : ClockedStore} {key : String} {value : Bytes} {expiresAt : Instant}
    (h : st.store.data.lookup key = some ⟨value, some expiresAt⟩) (hlt : st.clock < expiresAt) :
    st.ttlAt key = ((expiresAt - st.clock) / 1000000000 : Nat) := by
  have hlive : (CacheEntry.mk value (some expiresAt)).live st.clock = true := by
    simpa [CacheEntry.live] using hlt
  rw [ttlAt, h, Option.filter_some, hlive]
  rfl

theorem ttlAt_of_le {st : ClockedStore} {key : String} {value : Bytes} {expiresAt : Instant}
    (h : st.store.data.lookup key = some ⟨value, some expiresAt⟩) (hle : expiresAt ≤ st.clock) :
    st.ttlAt key = -2 := by
  apply ttlAt_of_absent
  have hdead : (CacheEntry.mk value (some expiresAt)).live st.clock = false := by
    simpa [CacheEntry.live] using hle
  rw [h, Option.filter_some, hdead]
  rfl

/-- The three answers. -/
theorem ttlAt_cases (st : ClockedStore) (key : String) :
    st.ttlAt key = -2
    ∨ (st.Persists key ∧ st.ttlAt key = -1)
    ∨ ∃ value expiresAt, st.store.data.lookup key = some ⟨value, some expiresAt⟩
      ∧ st.clock < expiresAt
      ∧ st.ttlAt key = ((expiresAt - st.clock) / 1000000000 : Nat) := by
  cases hlook : st.store.data.lookup key with
  | none => exact .inl (ttlAt_of_absent (by rw [hlook]; rfl))
  | some entry =>
      obtain ⟨value, expiresAt⟩ := entry
      cases expiresAt with
      | none => exact .inr (.inl ⟨⟨value, hlook⟩, ttlAt_of_persists hlook⟩)
      | some expiresAt =>
          rcases Nat.lt_or_ge st.clock expiresAt with hlt | hle
          · exact .inr (.inr ⟨value, expiresAt, rfl, hlt, ttlAt_of_lt hlook hlt⟩)
          · exact .inl (ttlAt_of_le hlook hle)

/-- **When -1 is right.** -/
theorem ttlAt_eq_neg_one_iff {st : ClockedStore} {key : String} :
    st.ttlAt key = -1 ↔ st.Persists key := by
  constructor
  · intro h
    obtain hanswer | ⟨hpersists, _⟩ | ⟨value, expiresAt, _, _, hanswer⟩ := st.ttlAt_cases key
    · omega
    · exact hpersists
    · omega
  · rintro ⟨value, hlook⟩
    exact ttlAt_of_persists hlook

/-- **When 0 is right.** -/
theorem ttlAt_eq_zero_iff {st : ClockedStore} {key : String} :
    st.ttlAt key = 0 ↔ st.LastSecond key := by
  constructor
  · intro h
    obtain hanswer | ⟨_, hanswer⟩ | ⟨value, expiresAt, hlook, hlt, hanswer⟩ := st.ttlAt_cases key
    · omega
    · omega
    · refine ⟨value, expiresAt, hlook, hlt, ?_⟩
      unfold Instant at *
      omega
  · rintro ⟨value, expiresAt, hlook, hlt, hsecond⟩
    rw [ttlAt_of_lt hlook hlt]
    unfold Instant at *
    omega

/-! ## What the code's clock can represent -/

/-- No reading past the last one, on the clock or in the store. -/
structure Sound (st : ClockedStore) : Prop where
  clock : st.clock < instantEnd
  expiry : ∀ key value expiresAt, st.store.data.lookup key = some ⟨value, some expiresAt⟩ →
    expiresAt < instantEnd

theorem sound_start : start.Sound :=
  ⟨by decide, fun key value expiresAt h => by simp [start, CacheStore.new] at h⟩

/-- The seconds fit in an `i64`. -/
theorem toInt_asSecs {dur : Duration} (h : dur < instantEnd) :
    (asSecs dur).toInt = (dur / 1000000000 : Nat) := by
  have hsecs : dur / 1000000000 < 2 ^ 63 := Nat.div_lt_of_lt_mul (by
    rw [Nat.mul_comm]
    exact h)
  rw [asSecs, UInt64.toInt64_ofNat', Int64.toInt_ofNat_of_lt hsecs]

section TtlStep

variable {st : ClockedStore} {key : String} {value : Bytes} {expiresAt : Instant}

theorem ttlStep_of_none (h : st.store.data.lookup key = none) : st.ttlStep key = -1 := by
  rw [ttlStep, CacheStore.ttl, h]

theorem ttlStep_of_persists (h : st.store.data.lookup key = some ⟨value, none⟩) :
    st.ttlStep key = -1 := by
  rw [ttlStep, CacheStore.ttl, h]

theorem ttlStep_of_lt (hsound : st.Sound)
    (h : st.store.data.lookup key = some ⟨value, some expiresAt⟩) (hlt : st.clock < expiresAt) :
    st.ttlStep key = ((expiresAt - st.clock) / 1000000000 : Nat) := by
  have hfits : expiresAt - st.clock < instantEnd :=
    Nat.lt_of_le_of_lt (Nat.sub_le _ _) (hsound.expiry key value expiresAt h)
  rw [ttlStep, CacheStore.ttl, h]
  dsimp only
  rw [if_pos hlt, toInt_asSecs hfits]

/-- An expired entry that is still in the map reads as zero. -/
theorem ttlStep_of_le (h : st.store.data.lookup key = some ⟨value, some expiresAt⟩)
    (hle : expiresAt ≤ st.clock) : st.ttlStep key = 0 := by
  rw [ttlStep, CacheStore.ttl, h]
  dsimp only
  rw [if_neg (Nat.not_lt.mpr hle)]
  rfl

end TtlStep

end ClockedStore

namespace CacheStore.Op

/-- The operation takes `key` out of the map. -/
def Removes (s : CacheStore) (now : Instant) (key : String) : Op → Prop
  | .delete k => k = key ∧ (s.data.lookup key).isSome
  | .get k => k = key ∧ ∃ entry, s.data.lookup key = some entry ∧ entry.live now = false
  | .sweep => ∃ entry, s.data.lookup key = some entry ∧ entry.live now = false
  | .set _ _ _ | .setFromTransfer _ _ _ | .expire _ _ => False

/-- The operation gives `key` no time at all. -/
def Dooms (s : CacheStore) (key : String) : Op → Prop
  | .set k _ ttl => k = key ∧ ttl = some 0
  | .expire k ttl => k = key ∧ ttl = 0 ∧ (s.data.lookup key).isSome
  | .setFromTransfer _ _ _ | .delete _ | .get _ | .sweep => False

end CacheStore.Op

namespace CacheStore

variable {s : CacheStore} {now : Instant} {op : Op} {key : String}

theorem attempt_of_fits (h : ∀ expiresAt, op.expiry s now = some expiresAt →
    expiresAt < instantEnd) : s.attempt now op = s.apply now op := by
  rw [attempt]
  cases hexpiry : op.expiry s now with
  | none => rfl
  | some expiresAt =>
      rw [if_pos]
      simpa using h expiresAt hexpiry

theorem attempt_cases_fits (s : CacheStore) (now : Instant) (op : Op) :
    s.attempt now op = s ∨ (s.attempt now op = s.apply now op
      ∧ ∀ expiresAt, op.expiry s now = some expiresAt → expiresAt < instantEnd) := by
  by_cases h : ∀ expiresAt, op.expiry s now = some expiresAt → expiresAt < instantEnd
  · exact .inr ⟨attempt_of_fits h, h⟩
  · left
    push Not at h
    obtain ⟨expiresAt, hexpiry, hover⟩ := h
    rw [attempt, hexpiry, if_neg]
    simpa using hover

theorem attempt_eq_setChecked (s : CacheStore) (now : Instant) (key : String) (value : Bytes)
    (ttl : Option Duration) :
    s.attempt now (.set key value ttl) = match s.setChecked now key value ttl with
      | .ok s' => s'
      | .error _ => s := by
  cases ttl with
  | none => rfl
  | some d =>
      by_cases hfits : now + d < instantEnd
      · rw [attempt_of_fits (by simpa [Op.expiry] using hfits),
          setChecked_eq_ok (by simpa using hfits)]
        rfl
      · rw [setChecked, addDuration_eq_error hfits, attempt,
          if_neg (by simpa [Op.expiry] using hfits)]
        rfl

theorem attempt_eq_expireChecked (s : CacheStore) (now : Instant) (key : String)
    (ttl : Duration) :
    s.attempt now (.expire key ttl) = match s.expireChecked now key ttl with
      | .ok out => out.2
      | .error _ => s := by
  by_cases hfits : (s.data.lookup key).isSome → now + ttl < instantEnd
  · rw [attempt_of_fits (by simpa [Op.expiry] using hfits), expireChecked_eq_ok hfits]
    rfl
  · obtain ⟨hin, hover⟩ := Classical.not_imp.mp hfits
    obtain ⟨entry, hlook⟩ := Option.isSome_iff_exists.mp hin
    rw [attempt, if_neg (by simpa [Op.expiry, hin] using hover), expireChecked, hlook]
    dsimp only
    rw [addDuration_eq_error hover]
    rfl

/-- **Everything an operation can do to a key.** -/
theorem attempt_cases (s : CacheStore) (now : Instant) (op : Op) (key : String) :
    (s.attempt now op).data.lookup key = s.data.lookup key
    ∨ (op.Removes s now key ∧ (s.attempt now op).data.lookup key = none)
    ∨ (∃ value, (s.attempt now op).data.lookup key = some ⟨value, none⟩)
    ∨ ∃ value expiresAt, (s.attempt now op).data.lookup key = some ⟨value, some expiresAt⟩
      ∧ expiresAt < instantEnd ∧ (now < expiresAt ∨ op.Dooms s key) := by
  rcases attempt_cases_fits s now op with hsame | ⟨hdone, hfits⟩
  · exact .inl (by rw [hsame])
  rw [hdone]
  cases op with
  | set k value ttl =>
      rw [apply, lookup_set]
      by_cases hk : key = k
      · rw [if_pos hk]
        cases ttl with
        | none => exact .inr (.inr (.inl ⟨value, rfl⟩))
        | some d =>
            refine .inr (.inr (.inr ⟨value, now + d, rfl, hfits _ rfl, ?_⟩))
            rcases Nat.eq_zero_or_pos d with hzero | hpos
            · exact .inr ⟨hk.symm, by rw [hzero]⟩
            · exact .inl (Nat.lt_add_of_pos_right hpos)
      · exact .inl (if_neg hk)
  | setFromTransfer k value remainingMs =>
      rw [apply, lookup_setFromTransfer]
      by_cases hk : key = k ∧ remainingMs ≠ some 0
      · rw [if_pos hk]
        cases remainingMs with
        | none => exact .inr (.inr (.inl ⟨value, rfl⟩))
        | some ms =>
            have hms : ms ≠ 0 := fun hzero => hk.2 (by rw [hzero])
            have hsum : now + fromMillis ms < instantEnd := hfits _ (by simp [Op.expiry, hms])
            refine .inr (.inr (.inr ⟨value, _, rfl, hsum, .inl (Nat.lt_add_of_pos_right ?_)⟩))
            exact Nat.mul_pos (Nat.pos_of_ne_zero (by simpa [← UInt64.toNat_inj] using hms))
              (by decide)
      · exact .inl (if_neg hk)
  | get k =>
      rw [apply, lookup_get]
      by_cases hk : key = k
      · rw [if_pos hk]
        rcases filter_live_cases (s.data.lookup key) now with hlive | ⟨hdead, hnone⟩
        · exact .inl hlive
        · exact .inr (.inl ⟨⟨hk.symm, hdead⟩, hnone⟩)
      · exact .inl (if_neg hk)
  | delete k =>
      rw [apply, lookup_delete]
      by_cases hk : key = k
      · rw [if_pos hk]
        cases hlook : s.data.lookup key with
        | none => exact .inl rfl
        | some entry => exact .inr (.inl ⟨⟨hk.symm, by rw [hlook]; rfl⟩, rfl⟩)
      · exact .inl (if_neg hk)
  | expire k ttl =>
      rw [apply, lookup_expire]
      by_cases hk : key = k
      · rw [if_pos hk]
        cases hlook : s.data.lookup key with
        | none => exact .inl rfl
        | some entry =>
            have hsum : now + ttl < instantEnd := hfits _ (by
              rw [Op.expiry, ← hk, hlook]
              rfl)
            refine .inr (.inr (.inr ⟨entry.value, now + ttl, rfl, hsum, ?_⟩))
            rcases Nat.eq_zero_or_pos ttl with hzero | hpos
            · exact .inr ⟨hk.symm, hzero, by rw [hlook]; rfl⟩
            · exact .inl (Nat.lt_add_of_pos_right hpos)
      · exact .inl (if_neg hk)
  | sweep =>
      rw [apply, lookup_sweep]
      rcases filter_live_cases (s.data.lookup key) now with hlive | ⟨hdead, hnone⟩
      · exact .inl hlive
      · exact .inr (.inl ⟨hdead, hnone⟩)

theorem lookup_attempt_of_removes (h : op.Removes s now key) :
    (s.attempt now op).data.lookup key = none := by
  cases op with
  | get k =>
      obtain ⟨rfl, entry, hlook, hdead⟩ := h
      rw [attempt_of_fits (by simp [Op.expiry]), apply, lookup_get, if_pos rfl, hlook,
        Option.filter_some, hdead]
      rfl
  | delete k =>
      obtain ⟨rfl, -⟩ := h
      rw [attempt_of_fits (by simp [Op.expiry]), apply, lookup_delete, if_pos rfl]
  | sweep =>
      obtain ⟨entry, hlook, hdead⟩ := h
      rw [attempt_of_fits (by simp [Op.expiry]), apply, lookup_sweep, hlook, Option.filter_some,
        hdead]
      rfl
  | set k value ttl => exact h.elim
  | setFromTransfer k value remainingMs => exact h.elim
  | expire k ttl => exact h.elim

theorem lookup_attempt_of_dooms (h : op.Dooms s key) (hclock : now < instantEnd) :
    ∃ value, (s.attempt now op).data.lookup key = some ⟨value, some now⟩ := by
  cases op with
  | set k value ttl =>
      obtain ⟨rfl, rfl⟩ := h
      refine ⟨value, ?_⟩
      rw [attempt_of_fits (by simpa [Op.expiry] using hclock), apply, lookup_set, if_pos rfl]
      rfl
  | expire k ttl =>
      obtain ⟨rfl, rfl, hin⟩ := h
      obtain ⟨entry, hlook⟩ := Option.isSome_iff_exists.mp hin
      refine ⟨entry.value, ?_⟩
      rw [attempt_of_fits (by simpa [Op.expiry, hlook] using hclock), apply, lookup_expire,
        if_pos rfl, hlook]
      rfl
  | setFromTransfer k value remainingMs => exact h.elim
  | delete k => exact h.elim
  | get k => exact h.elim
  | sweep => exact h.elim

end CacheStore

namespace ClockedStore

theorem Sound.attempt {st : ClockedStore} (h : st.Sound) (o : CacheStore.Op) :
    Sound ⟨st.store.attempt st.clock o, st.clock⟩ := by
  refine ⟨h.clock, fun key value expiresAt hlook => ?_⟩
  rcases CacheStore.attempt_cases st.store st.clock o key with hsame | ⟨-, hnone⟩
    | ⟨v, hnew⟩ | ⟨v, inst, hnew, hlt, -⟩
  · exact h.expiry key value expiresAt (hsame.symm.trans hlook)
  · cases hnone.symm.trans hlook
  · cases hnew.symm.trans hlook
  · cases hnew.symm.trans hlook
    exact hlt

theorem Sound.tick {st : ClockedStore} (h : st.Sound) (hend : st.clock + 1 < instantEnd) :
    Sound { st with clock := st.clock + 1 } :=
  ⟨hend, h.expiry⟩

theorem step_cases {st st' : ClockedStore} {e : ClockEvent} (h : st.step e = some st') :
    (e = .tick ∧ st.clock + 1 < instantEnd ∧ st' = { st with clock := st.clock + 1 })
    ∨ ∃ o, e = .op o ∧ st' = ⟨st.store.attempt st.clock o, st.clock⟩ := by
  cases e with
  | tick =>
      rw [step] at h
      split_ifs at h with hend
      cases h
      exact .inl ⟨rfl, hend, rfl⟩
  | op o =>
      cases h
      exact .inr ⟨o, rfl, rfl⟩

/-- Every store the code can have built is sound. -/
theorem sound_exec {es : List ClockEvent} {st : ClockedStore}
    (h : Trace.exec step start es = some st) : st.Sound := by
  refine Trace.exec_invariant (C := fun _ _ => True) (fun s e t hs _ hstep => ?_) sound_start
    (Trace.along_of_forall (fun _ _ => trivial) start) h
  obtain ⟨rfl, hend, rfl⟩ | ⟨o, rfl, rfl⟩ := step_cases hstep
  · exact hs.tick hend
  · exact hs.attempt o

/-- `exists` finds a key that is live, and then leaves the store alone. -/
theorem existsStep_of_true {st : ClockedStore} {key : String}
    (h : (st.existsStep key).1 = true) :
    (st.existsStep key).2 = st
      ∧ ∃ entry, st.store.data.lookup key = some entry ∧ entry.live st.clock = true := by
  have hread : ((st.store.get st.clock key).1).isSome = true := h
  rw [CacheStore.get_fst, Option.isSome_map] at hread
  obtain ⟨entry, hentry⟩ := Option.isSome_iff_exists.mp hread
  obtain ⟨hlook, hlive⟩ := Option.filter_eq_some_iff.mp hentry
  refine ⟨?_, entry, hlook, hlive⟩
  have hsame : (st.store.get st.clock key).2 = st.store := by
    rw [CacheStore.get, hlook]
    cases hexp : entry.expiresAt with
    | none => simp [hexp]
    | some expiresAt =>
        have hahead : ¬ expiresAt ≤ st.clock := by simpa [CacheEntry.live, hexp] using hlive
        simp [hexp, hahead]
  rw [existsStep, CacheStore.containsKey, hsame]

/-- `exists` misses only a key that is absent. -/
theorem ttlAt_of_existsStep {st : ClockedStore} {key : String}
    (h : (st.existsStep key).1 = false) : st.ttlAt key = -2 := by
  have hread : ((st.store.get st.clock key).1).isSome = false := h
  rw [CacheStore.get_fst, Option.isSome_map] at hread
  exact ttlAt_of_absent (Option.not_isSome_iff_eq_none.mp (by rw [hread]; exact Bool.false_ne_true))

end ClockedStore

/-! ## A command in progress -/

/-- The command on one key after its first step. -/
structure TtlCommand where
  now : ClockedStore
  /-- Ghost: the instants since the first step, the present one included. -/
  past : List ClockedStore

namespace TtlCommand

def begin (st : ClockedStore) : TtlCommand := ⟨st, [st]⟩

/-- One step of somebody else, or of the clock. -/
def step (c : TtlCommand) (e : ClockEvent) : Option TtlCommand :=
  match c.now.step e with
  | some st => some ⟨st, st :: c.past⟩
  | none => none

/-- If the second step came now, its answer would be right for some
instant of the command. -/
def Right (key : String) (c : TtlCommand) : Prop :=
  ∃ st ∈ c.past, c.now.ttlStep key = st.ttlAt key

/-- A step that takes the key out of the map comes after an instant at
which the key had no expiry; one that gives it no time at all, after an
instant at which it had less than a second left. -/
def Harmless (key : String) (c : TtlCommand) : ClockEvent → Prop
  | .tick => True
  | .op o =>
      (o.Removes c.now.store c.now.clock key → ∃ st ∈ c.past, st.Persists key)
      ∧ (o.Dooms c.now.store key → ∃ st ∈ c.past, st.LastSecond key)

theorem step_eq_some {c c' : TtlCommand} {e : ClockEvent} (h : c.step e = some c') :
    ∃ st, c.now.step e = some st ∧ c' = ⟨st, st :: c.past⟩ := by
  rw [step] at h
  split at h
  · rename_i st hst
    cases h
    exact ⟨st, hst, rfl⟩
  · cases h

/-- What harmless steps maintain: a key that is gone has been there
without an expiry, and one that is due has had less than a second left. -/
structure Honest (key : String) (c : TtlCommand) : Prop where
  sound : c.now.Sound
  present : c.now ∈ c.past
  gone : c.now.store.data.lookup key = none → ∃ st ∈ c.past, st.Persists key
  due : ∀ value expiresAt, c.now.store.data.lookup key = some ⟨value, some expiresAt⟩ →
    expiresAt ≤ c.now.clock → ∃ st ∈ c.past, st.LastSecond key

theorem Honest.right {key : String} {c : TtlCommand} (h : c.Honest key) : c.Right key := by
  cases hlook : c.now.store.data.lookup key with
  | none =>
      obtain ⟨st, hst, hpersists⟩ := h.gone hlook
      exact ⟨st, hst, by
        rw [ClockedStore.ttlStep_of_none hlook, ClockedStore.ttlAt_eq_neg_one_iff.mpr hpersists]⟩
  | some entry =>
      obtain ⟨value, expiresAt⟩ := entry
      cases expiresAt with
      | none =>
          exact ⟨c.now, h.present, by
            rw [ClockedStore.ttlStep_of_persists hlook, ClockedStore.ttlAt_of_persists hlook]⟩
      | some expiresAt =>
          rcases Nat.lt_or_ge c.now.clock expiresAt with hlt | hle
          · exact ⟨c.now, h.present, by
              rw [ClockedStore.ttlStep_of_lt h.sound hlook hlt,
                ClockedStore.ttlAt_of_lt hlook hlt]⟩
          · obtain ⟨st, hst, hlast⟩ := h.due value expiresAt hlook hle
            exact ⟨st, hst, by
              rw [ClockedStore.ttlStep_of_le hlook hle, ClockedStore.ttlAt_eq_zero_iff.mpr hlast]⟩

theorem Honest.tick {key : String} {c : TtlCommand} (h : c.Honest key)
    (hend : c.now.clock + 1 < instantEnd) :
    let st : ClockedStore := { c.now with clock := c.now.clock + 1 }
    Honest key ⟨st, st :: c.past⟩ := by
  intro st
  refine ⟨h.sound.tick hend, List.mem_cons_self, fun hlook => ?_,
    fun value expiresAt hlook hle => ?_⟩
  · obtain ⟨old, hold, hpersists⟩ := h.gone hlook
    exact ⟨old, List.mem_cons_of_mem _ hold, hpersists⟩
  · rcases Nat.lt_or_ge c.now.clock expiresAt with hlt | hpast
    · -- its last nanosecond has just passed
      refine ⟨c.now, List.mem_cons_of_mem _ h.present, value, expiresAt, hlook, hlt, ?_⟩
      exact Nat.lt_of_le_of_lt hle (Nat.add_lt_add_left (by decide) _)
    · obtain ⟨old, hold, hlast⟩ := h.due value expiresAt hlook hpast
      exact ⟨old, List.mem_cons_of_mem _ hold, hlast⟩

theorem Honest.op {key : String} {c : TtlCommand} {o : CacheStore.Op} (h : c.Honest key)
    (hharmless : Harmless key c (.op o)) :
    let st : ClockedStore := ⟨c.now.store.attempt c.now.clock o, c.now.clock⟩
    Honest key ⟨st, st :: c.past⟩ := by
  intro st
  have hkeep : ∀ {P : ClockedStore → Prop}, (∃ old ∈ c.past, P old) →
      ∃ old ∈ st :: c.past, P old := by
    rintro P ⟨old, hold, hP⟩
    exact ⟨old, List.mem_cons_of_mem _ hold, hP⟩
  refine ⟨h.sound.attempt o, List.mem_cons_self, fun hlook => hkeep ?_,
    fun value expiresAt hlook hle => hkeep ?_⟩
  · rcases CacheStore.attempt_cases c.now.store c.now.clock o key with hsame | ⟨hremoves, -⟩
      | ⟨v, hnew⟩ | ⟨v, inst, hnew, -⟩
    · exact h.gone (hsame.symm.trans hlook)
    · exact hharmless.1 hremoves
    · cases hnew.symm.trans hlook
    · cases hnew.symm.trans hlook
  · rcases CacheStore.attempt_cases c.now.store c.now.clock o key with hsame | ⟨-, hnone⟩
      | ⟨v, hnew⟩ | ⟨v, inst, hnew, -, hlt | hdooms⟩
    · exact h.due value expiresAt (hsame.symm.trans hlook) hle
    · cases hnone.symm.trans hlook
    · cases hnew.symm.trans hlook
    · cases hnew.symm.trans hlook
      exact absurd hle (Nat.not_le.mpr hlt)
    · exact hharmless.2 hdooms

/-- A harmful step makes the answer wrong at once. -/
theorem Honest.not_right {key : String} {c : TtlCommand} {o : CacheStore.Op} (h : c.Honest key)
    (hharm : ¬ Harmless key c (.op o)) :
    let st : ClockedStore := ⟨c.now.store.attempt c.now.clock o, c.now.clock⟩
    ¬ Right key ⟨st, st :: c.past⟩ := by
  rintro st ⟨old, hold, hanswer⟩
  rw [Harmless, not_and_or, Classical.not_imp, Classical.not_imp] at hharm
  rcases hharm with ⟨hremoves, hnever⟩ | ⟨hdooms, hnever⟩
  · have hnone := CacheStore.lookup_attempt_of_removes hremoves
    rw [ClockedStore.ttlStep_of_none hnone] at hanswer
    obtain ⟨value, hpersists⟩ := ClockedStore.ttlAt_eq_neg_one_iff.mp hanswer.symm
    rcases List.mem_cons.mp hold with rfl | hold
    · cases hnone.symm.trans hpersists
    · exact hnever ⟨old, hold, value, hpersists⟩
  · obtain ⟨value, hdue⟩ := CacheStore.lookup_attempt_of_dooms hdooms h.sound.clock
    rw [ClockedStore.ttlStep_of_le hdue (Nat.le_refl _)] at hanswer
    have hlast := ClockedStore.ttlAt_eq_zero_iff.mp hanswer.symm
    rcases List.mem_cons.mp hold with rfl | hold
    · obtain ⟨v, inst, hlook, hlt, -⟩ := hlast
      cases hdue.symm.trans hlook
      exact absurd hlt (Nat.lt_irrefl _)
    · exact hnever ⟨old, hold, hlast⟩

/-- Right after the first step the key is there, and live. -/
theorem honest_begin {st : ClockedStore} (hsound : st.Sound) {key : String}
    (h : (st.existsStep key).1 = true) : Honest key (begin (st.existsStep key).2) := by
  obtain ⟨hsame, entry, hlook, hlive⟩ := ClockedStore.existsStep_of_true h
  rw [hsame]
  refine ⟨hsound, List.mem_cons_self, fun hnone => ?_, fun value expiresAt hentry hle => ?_⟩
  · cases hlook.symm.trans hnone
  · cases hlook.symm.trans hentry
    have hahead : st.clock < expiresAt := by simpa [CacheEntry.live] using hlive
    exact absurd hle (Nat.not_le.mpr hahead)

/-- **When `TTL` is linearizable.** In every reachable state, an answer of
-2 is right. If the first step finds the key, then whatever happens until
the second, and whenever it comes, its answer is right for some instant
of the command exactly when every step in between is harmless. -/
theorem ttl_linearizable_iff {before : List ClockEvent} {st : ClockedStore}
    (hrun : Trace.exec ClockedStore.step .start before = some st) (key : String)
    (window : List ClockEvent) :
    ((st.existsStep key).1 = false → st.ttlAt key = -2)
    ∧ ((st.existsStep key).1 = true →
        (Trace.Throughout step (Right key) (begin (st.existsStep key).2) window
          ↔ Trace.Along step (Harmless key) (begin (st.existsStep key).2) window)) := by
  refine ⟨ClockedStore.ttlAt_of_existsStep, fun hfound => ?_⟩
  apply Trace.throughout_iff_along (I := Honest key)
  · intro c h
    exact h.right
  · intro c e c' h hharmless hstep
    obtain ⟨st', hst', rfl⟩ := step_eq_some hstep
    obtain ⟨rfl, hend, rfl⟩ | ⟨o, rfl, rfl⟩ := ClockedStore.step_cases hst'
    · exact h.tick hend
    · exact h.op hharmless
  · intro c e c' h hharm hstep
    obtain ⟨st', hst', rfl⟩ := step_eq_some hstep
    obtain ⟨rfl, hend, rfl⟩ | ⟨o, rfl, rfl⟩ := ClockedStore.step_cases hst'
    · exact absurd trivial hharm
    · exact h.not_right hharm
  · exact honest_begin (ClockedStore.sound_exec hrun) hfound

/-- `SET k v EX 60`. -/
def setMinute : List ClockEvent := [.op (.set "k" [118] (some (fromSecs 60)))]

/-- The key is set without an expiry and then deleted: -1 was right in
between. -/
theorem ttl_linearizable_reset :
    ∃ st, Trace.exec ClockedStore.step .start setMinute = some st
      ∧ (st.existsStep "k").1 = true
      ∧ Trace.Throughout step (Right "k") (begin (st.existsStep "k").2)
          [.op (.set "k" [119] none), .op (.delete "k")] := by
  obtain ⟨st, hst, hfound⟩ : ∃ st, Trace.exec ClockedStore.step .start setMinute = some st
      ∧ (st.existsStep "k").1 = true := ⟨_, rfl, by decide⟩
  refine ⟨st, hst, hfound, ?_⟩
  rw [(ttl_linearizable_iff hst "k" _).2 hfound]
  refine Trace.along_of_step rfl ?_ (Trace.along_of_step rfl ?_ trivial)
  · exact ⟨fun h => h.elim, fun h => by cases h.2⟩
  · refine ⟨fun _ => ?_, fun h => h.elim⟩
    exact ⟨_, List.mem_cons_self, [119], CacheStore.lookup_set ..⟩

/-- A key with a minute to live is deleted between the two steps, or told
to expire at once. The answers are -1 and 0, and at no instant was the key
without an expiry or in its last second. -/
theorem ttl_not_linearizable :
    ∃ st, Trace.exec ClockedStore.step .start setMinute = some st
      ∧ (st.existsStep "k").1 = true
      ∧ (∃ c, Trace.exec step (begin (st.existsStep "k").2) [.op (.delete "k")] = some c
        ∧ c.now.ttlStep "k" = -1 ∧ c.past.map (·.ttlAt "k") = [-2, 60])
      ∧ (∃ c, Trace.exec step (begin (st.existsStep "k").2) [.op (.expire "k" (fromSecs 0))]
          = some c
        ∧ c.now.ttlStep "k" = 0 ∧ c.past.map (·.ttlAt "k") = [-2, 60])
      ∧ ¬ Trace.Throughout step (Right "k") (begin (st.existsStep "k").2)
          [.op (.delete "k")] := by
  refine ⟨_, rfl, by decide, ⟨_, rfl, by decide, by decide⟩, ⟨_, rfl, by decide, by decide⟩, ?_⟩
  intro h
  obtain ⟨st, hst, hanswer⟩ := h.2 _ rfl
  rcases List.mem_cons.mp hst with rfl | hst
  · exact absurd hanswer (by decide)
  · rw [List.mem_singleton.mp hst] at hanswer
    exact absurd hanswer (by decide)

end TtlCommand

end SelfHealingCache
