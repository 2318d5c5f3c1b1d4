import SelfHealingCache.Lib.Tokens
import SelfHealingCache.Node.Process
import SelfHealingCache.Node.RespRoundTrip

/-!
# A removal is confirmed once

Deletes reach a store from two servers, several handlers at a time, and
a key also goes when it expires or when its tombstone is applied. Every
removal is one atomic `remove`, so all the handlers together can claim
no more removals of a key than there were writes of it
(`removals_le_writes`).

A `DEL` of several keys answers how many of them it removed. When that is
all of them it has claimed each; a smaller number does not say which.

The count is kept by tokens: a write that is on its way holds one, the
store holds one for a key that is in it, and a claimed removal keeps the
token it took out.
-/

namespace SelfHealingCache

/-- How many removals of `k` the reply tells the client of. -/
def confirmed (k : String) : Request → Reply → Nat
  | .delete key, .delete (.ok resp) => if key = k ∧ resp.deleted then 1 else 0
  | .respDel args, .resp bytes =>
      match parseDel args with
      | .ok keys => if bytes = encodeInteger keys.length then keys.count k else 0
      | .error _ => 0
  | _, _ => 0

/-! ## Tokens -/

/-- The store's token for `k`. -/
def CacheStore.tokens (s : CacheStore) (k : String) : Nat :=
  if (s.data.lookup k).isSome then 1 else 0

/-- The tokens of a `DEL` for `k`, when the keys `past` are behind it. -/
def delTokens (k : String) (past : List String) (deleted : Nat) : Nat :=
  if deleted = past.length then past.count k else 0

/-- The tokens for `k` of a handler. -/
def Task.tokens (k : String) : Task → Nat
  | .setCheck req | .setStore req | .replicate req => if req.key = k then 1 else 0
  | .respSet args => if (parseSet args).toOption.map (·.1) = some k then 1 else 0
  | .respDel args keys deleted =>
      match parseDel args with
      | .ok all => delTokens k (all.take (all.length - keys.length)) deleted
      | .error _ => 0
  | .done req reply => confirmed k req reply
  | _ => 0

/-- The event brings a token in: a request to write `k`, or a chunk. -/
def NodeEvent.brings (k : String) : NodeEvent → Bool
  | .call _ req => req.write.map (·.1) = some k
  | .rebalance (.chunk _ c) => c.key = k
  | _ => false

section Store

variable (s : CacheStore) (k : String)

namespace CacheStore

theorem tokens_set (now : Instant) (key : String) (value : Bytes) (ttl : Option Duration) :
    (s.set now key value ttl).tokens k ≤ s.tokens k + if key = k then 1 else 0 := by
  rw [tokens, tokens, lookup_set]
  by_cases hk : k = key
  · simp [hk]
  · simp [hk, Ne.symm hk]

theorem tokens_delete (key : String) :
    (s.delete key).2.tokens k + (if key = k ∧ (s.delete key).1 then 1 else 0) = s.tokens k := by
  rw [tokens, tokens, lookup_delete, delete]
  by_cases hk : k = key
  · subst hk
    simp
  · simp [hk, Ne.symm hk]

theorem tokens_expire (now : Instant) (key : String) (ttl : Duration) :
    (s.expire now key ttl).2.tokens k = s.tokens k := by
  rw [tokens, tokens, lookup_expire]
  split_ifs <;> simp_all

theorem tokens_sweep (now : Instant) : (s.sweep now).tokens k ≤ s.tokens k := by
  rw [tokens, tokens, lookup_sweep]
  cases s.data.lookup k with
  | none => simp
  | some e => cases hlive : e.live now <;> simp [Option.filter, hlive]

theorem tokens_setFromTransfer (now : Instant) (key : String) (value : Bytes)
    (remainingMs : Option UInt64) :
    (s.setFromTransfer now key value remainingMs).tokens k
      ≤ s.tokens k + if key = k then 1 else 0 := by
  rw [tokens, tokens, lookup_setFromTransfer]
  by_cases hk : k = key
  · subst hk
    rw [if_pos rfl]
    split_ifs <;> omega
  · simp [hk]

end CacheStore

end Store

/-! ## Handlers -/

namespace Task

variable {k : String}

/-- A `DEL` has some of the keys it parsed behind it, and has removed at
most these. -/
def Parsed : Task → Prop
  | .respDel args keys deleted =>
      ∃ past, parseDel args = .ok (past ++ keys) ∧ deleted ≤ past.length
  | _ => True

theorem tokens_respDel {args : List RespValue} {past keys : List String}
    (h : parseDel args = .ok (past ++ keys)) (deleted : Nat) :
    (respDel args keys deleted).tokens k = delTokens k past deleted := by
  simp [tokens, h]

theorem tokens_start (req : Request) :
    (start req).tokens k = if req.write.map (·.1) = some k then 1 else 0 := by
  cases req with
  | respDel args =>
      rw [start]
      cases hparse : parseDel args with
      | error msg => simp [tokens, confirmed, Request.write, hparse]
      | ok keys =>
          have hnone : (respDel args keys 0).tokens k = delTokens k [] 0 :=
            tokens_respDel hparse 0
          simpa [Request.write, delTokens] using hnone
  | respSet args => rfl
  | _ => simp [start, tokens, Request.write]

theorem parsed_start (req : Request) : (start req).Parsed := by
  cases req with
  | respDel args =>
      rw [start]
      cases hparse : parseDel args with
      | error msg => trivial
      | ok keys => exact ⟨[], hparse, Nat.le_refl 0⟩
  | _ => trivial

/-- A `DEL` that is through claims what it has tokens for. -/
theorem tokens_delDone {args : List RespValue} {past : List String}
    (h : parseDel args = .ok past) (deleted : Nat) :
    (done (.respDel args) (.resp (encodeInteger deleted))).tokens k
      = delTokens k past deleted := by
  simp only [tokens, confirmed, h, encodeInteger_count_inj, delTokens]

/-- One key on: if it was removed, its token changes hands. -/
theorem delTokens_next {past : List String} {deleted : Nat} (hle : deleted ≤ past.length)
    (key : String) (removed : Bool) :
    delTokens k (past ++ [key]) (if removed then deleted + 1 else deleted)
      ≤ delTokens k past deleted + if key = k ∧ removed then 1 else 0 := by
  rw [delTokens, delTokens, List.length_append, List.length_singleton, List.count_append]
  cases removed with
  | false =>
      -- a key that was not there leaves the DEL short for good
      have hshort : deleted ≠ past.length + 1 := by omega
      simp [hshort]
  | true =>
      by_cases hkey : key = k <;> by_cases hall : deleted = past.length <;> simp [hkey, hall]

/-- **No step makes a token.** -/
theorem tokens_step {srv srv' : CacheService} {now : Instant} {task task' : Task}
    (h : task.step srv now = some (task', srv')) (hparsed : task.Parsed) :
    task'.Parsed ∧ task'.tokens k + srv'.store.tokens k ≤ task.tokens k + srv.store.tokens k := by
  cases task with
  | setCheck req =>
      simp only [step] at h
      split_ifs at h
      · cases h
        exact ⟨trivial, by simp [tokens, confirmed]⟩
      · cases h
        exact ⟨trivial, Nat.le_refl _⟩
  | setStore req =>
      cases h
      have hset := srv.store.tokens_set k now req.key req.value (req.ttlMs.map fromMillis)
      refine ⟨trivial, ?_⟩
      simp only [tokens, confirmed]
      omega
  -- a delete has no token before it removes something, joining or not
  | deleteCheck key =>
      simp only [step] at h
      split_ifs at h
      · cases h
        exact ⟨trivial, Nat.le_refl _⟩
      · cases h
        exact ⟨trivial, Nat.le_refl _⟩
  | deleteTombstone key =>
      cases h
      exact ⟨trivial, Nat.le_refl _⟩
  | deleteStore key joining =>
      cases h
      have hdelete := srv.store.tokens_delete k key
      refine ⟨trivial, ?_⟩
      -- while joining the answer is an error, whatever was removed
      cases joining with
      | true =>
          simp only [tokens, confirmed, if_true]
          omega
      | false =>
          simp only [tokens, confirmed, Bool.false_eq_true, if_false]
          omega
  | replicate req =>
      cases h
      have hset := srv.store.tokens_set k now req.key req.value (req.ttlMs.map fromMillis)
      refine ⟨trivial, ?_⟩
      simp only [tokens, confirmed]
      omega
  | getLookup key =>
      simp only [step] at h
      split at h
      · cases h
        exact ⟨trivial, by simp [tokens, confirmed]⟩
      · split_ifs at h
        · cases h
          exact ⟨trivial, by simp [tokens, confirmed]⟩
        · cases h
          exact ⟨trivial, Nat.le_refl _⟩
  | getRemove key =>
      cases h
      have hdelete := srv.store.tokens_delete k key
      refine ⟨trivial, ?_⟩
      simp only [tokens, confirmed]
      omega
  | respSet args =>
      cases h
      refine ⟨trivial, ?_⟩
      simp only [tokens, confirmed, cmdSet]
      -- a SET that does not parse stores nothing
      cases hparse : parseSet args with
      | error msg => simp
      | ok parsed =>
          obtain ⟨key, value, ttl⟩ := parsed
          have hset := srv.store.tokens_set k now key value ttl
          simp only [Except.toOption, Option.map_some, Option.some.injEq]
          omega
  | respDel args keys deleted =>
      obtain ⟨past, hpast, hle⟩ := hparsed
      cases keys with
      | nil =>
          cases h
          rw [tokens_respDel hpast]
          rw [List.append_nil] at hpast
          rw [tokens_delDone hpast]
          exact ⟨trivial, Nat.le_refl _⟩
      | cons key keys =>
          cases h
          have hnext : parseDel args = .ok ((past ++ [key]) ++ keys) := by simpa using hpast
          have hdelete := srv.store.tokens_delete k key
          have htokens := delTokens_next (k := k) hle key (srv.store.delete key).1
          rw [tokens_respDel hpast, tokens_respDel hnext]
          refine ⟨⟨past ++ [key], hnext, ?_⟩, by simp only; omega⟩
          rw [List.length_append, List.length_singleton]
          split_ifs <;> omega
  | respExpire args =>
      cases h
      refine ⟨trivial, ?_⟩
      simp only [tokens, confirmed, cmdExpire]
      cases parseExpire args with
      | error msg => simp
      | ok parsed => simp [CacheStore.tokens_expire]
  | done req reply => cases h

end Task

/-! ## The process -/

/-- The handler an event starts. -/
def NodeEvent.called : NodeEvent → Option Nat
  | .call i _ => some i
  | _ => none

namespace NodeSys

variable {X : Crates} {S : Finset Nat} {k : String} {s t : NodeSys}

/-- All handlers are in `S`. -/
def HandledBy (S : Finset Nat) (s : NodeSys) : Prop :=
  ∀ i task, s.tasks i = some task → i ∈ S ∧ task.Parsed

/-- The tokens of a handler that may not be there. -/
def tokensAt (k : String) (task : Option Task) : Nat := (task.map (Task.tokens k)).getD 0

@[simp] theorem tokensAt_none (k : String) : tokensAt k none = 0 := rfl

@[simp] theorem tokensAt_some (k : String) (task : Task) :
    tokensAt k (some task) = task.tokens k := rfl

/-- All tokens of the process. -/
def tokens (S : Finset Nat) (k : String) (s : NodeSys) : Nat :=
  Tokens.total S (tokensAt k) s.tasks + s.store.tokens k

theorem HandledBy.update {tasks : Nat → Option Task} {i : Nat} {task : Task}
    (h : ∀ j task, tasks j = some task → j ∈ S ∧ task.Parsed) (hi : i ∈ S)
    (hparsed : task.Parsed) :
    ∀ j task', Function.update tasks i (some task) j = some task' → j ∈ S ∧ task'.Parsed := by
  intro j task' hj
  by_cases hji : j = i
  · rw [hji, Function.update_self] at hj
    cases hj
    exact ⟨hji ▸ hi, hparsed⟩
  · rw [Function.update_of_ne hji] at hj
    exact h j task' hj

/-- A step of the process gains at most the token its event brings. -/
theorem tokens_move {e : NodeEvent} (hcalled : ∀ i, e.called = some i → i ∈ S)
    (h : s.HandledBy S) (hstep : s.step X e = some t) :
    t.HandledBy S ∧ t.tokens S k ≤ s.tokens S k + if e.brings k then 1 else 0 := by
  cases e with
  | gossip e =>
      obtain ⟨g, _, rfl⟩ := Option.map_eq_some_iff.mp hstep
      exact ⟨h, Nat.le_refl _⟩
  | purge now =>
      cases hstep
      exact ⟨h, Nat.add_le_add_left (s.store.tokens_sweep k now) _⟩
  | call i req =>
      simp only [step] at hstep
      split at hstep
      · rename_i hfree
        cases hstep
        have hi := hcalled i rfl
        have htotal := Tokens.total_update hi (tokensAt k) s.tasks (some (Task.start req))
        refine ⟨HandledBy.update h hi (Task.parsed_start req), ?_⟩
        -- a free slot had no token; a fresh handler has what its event brings
        rw [hfree, tokensAt_none, tokensAt_some, Task.tokens_start] at htotal
        simp only [tokens, NodeEvent.brings, decide_eq_true_eq]
        omega
      · cases hstep
  | advance i now =>
      simp only [step] at hstep
      split at hstep
      · cases hstep
      · rename_i task htask
        obtain ⟨⟨task', srv⟩, htaskStep, rfl⟩ := Option.map_eq_some_iff.mp hstep
        obtain ⟨hi, hparsed⟩ := h i task htask
        obtain ⟨hparsed', hless⟩ := Task.tokens_step htaskStep hparsed (k := k)
        have htotal := Tokens.total_update hi (tokensAt k) s.tasks (some task')
        refine ⟨HandledBy.update h hi hparsed', ?_⟩
        rw [htask, tokensAt_some, tokensAt_some] at htotal
        have hstore : s.service.store = s.store := rfl
        rw [hstore] at hless
        simp only [tokens]
        omega
  | rebalance e =>
      cases rebalanceMove_of_step hstep with
      | @chunk ring peer peers now c _ _ =>
          refine ⟨h, ?_⟩
          have hchunk := s.store.tokens_setFromTransfer k now c.key c.value c.expiresAtMs
          simp only [tokens, NodeEvent.brings, decide_eq_true_eq, acceptChunk]
          split
          · split_ifs at hchunk ⊢ <;> omega
          · omega
      | @visit snapshot visited key _ _ _ =>
          refine ⟨h, ?_⟩
          have hdelete := s.store.tokens_delete k key
          simp only [tokens]
          omega
      | _ => exact ⟨h, Nat.le_add_right _ _⟩

theorem tokens_start (S : Finset Nat) (k : String) (now : Instant) (localId : NodeId)
    (seeds : List NodeInfo) : (start now localId seeds).tokens S k = 0 := by
  simp [tokens, Tokens.total, tokensAt, start, CacheStore.tokens, CacheStore.new]

/-- **Removals are confirmed once.** In any interleaving of the handlers
of both servers, the sweeper, gossip and the rebalancer: all the answers
together tell of no more removals of `k` than there were requests to write
`k` and chunks with `k`. -/
theorem removals_le_writes (X : Crates) (now : Instant) (localId : NodeId)
    (seeds : List NodeInfo) {es : List NodeEvent} {t : NodeSys}
    (hrun : Trace.exec (step X) (start now localId seeds) es = some t) (k : String)
    (D : Finset Nat) (answer : Nat → Request × Reply)
    (hD : ∀ i ∈ D, t.tasks i = some (.done (answer i).1 (answer i).2)) :
    ∑ i ∈ D, confirmed k (answer i).1 (answer i).2 ≤ es.countP (NodeEvent.brings k) := by
  let S : Finset Nat := (es.filterMap NodeEvent.called).toFinset
  have hstart : (start now localId seeds).HandledBy S := fun i task hi => by cases hi
  have hgain : ∀ s e t, e ∈ es → s.HandledBy S → step X s e = some t → t.HandledBy S
      ∧ t.tokens S k + (if false then 1 else 0)
        ≤ s.tokens S k + if NodeEvent.brings k e then 1 else 0 := by
    intro s e t he hs hstep
    refine tokens_move (fun i hi => ?_) hs hstep
    exact List.mem_toFinset.mpr (List.mem_filterMap.mpr ⟨e, he, hi⟩)
  obtain ⟨hhandled, hbalance⟩ := Trace.exec_balance (c := fun _ => false) hgain hstart hrun
  have hsub : D ⊆ S := fun i hi => (hhandled i _ (hD i hi)).1
  rw [tokens_start] at hbalance
  calc ∑ i ∈ D, confirmed k (answer i).1 (answer i).2
      = ∑ i ∈ D, tokensAt k (t.tasks i) := by
        apply Finset.sum_congr rfl
        intro i hi
        rw [hD i hi]
        rfl
    _ ≤ Tokens.total S (tokensAt k) t.tasks := Tokens.sum_le_total hsub _ _
    _ ≤ t.tokens S k := Nat.le_add_right _ _
    _ ≤ es.countP (NodeEvent.brings k) := by omega

/-- One write, a DEL of two keys and a Delete of one of them at once: the
DEL removes both, and the Delete is told that it removed nothing. -/
theorem removals_le_writes_race :
    let del := [.simpleString "DEL", .simpleString "k", .simpleString "l"]
    let answer := fun i => if i = 2 then (Request.respDel del, Reply.resp (encodeInteger 2))
      else (.delete "k", .delete (.ok ⟨false⟩))
    ∃ t, Trace.exec (step (.hyphenated fun _ => 0)) (start 0 ⟨1⟩ [])
        [.call 0 (.set ⟨"k", [7], none⟩), .advance 0 1, .advance 0 2,
          .call 1 (.set ⟨"l", [8], none⟩), .advance 1 3, .advance 1 4, .call 2 (.respDel del),
          .call 3 (.delete "k"), .advance 3 5, .advance 2 6, .advance 3 7, .advance 2 8,
          .advance 2 9] = some t
      ∧ confirmed "k" (answer 2).1 (answer 2).2 = 1
      ∧ ∑ i ∈ {2, 3}, confirmed "k" (answer i).1 (answer i).2 ≤ 1 := by
  intro del answer
  have hanswers : ((Trace.exec (step (.hyphenated fun _ => 0)) (start 0 ⟨1⟩ [])
        [.call 0 (.set ⟨"k", [7], none⟩), .advance 0 1, .advance 0 2,
          .call 1 (.set ⟨"l", [8], none⟩), .advance 1 3, .advance 1 4, .call 2 (.respDel del),
          .call 3 (.delete "k"), .advance 3 5, .advance 2 6, .advance 3 7, .advance 2 8,
          .advance 2 9]).map fun t => (t.tasks 2, t.tasks 3))
      = some (some (.done (answer 2).1 (answer 2).2), some (.done (answer 3).1 (answer 3).2)) :=
    by rfl
  obtain ⟨t, ht, hdone⟩ := Option.map_eq_some_iff.mp hanswers
  obtain ⟨htwo, hthree⟩ := Prod.mk.inj hdone
  refine ⟨t, ht, by decide +kernel, removals_le_writes _ 0 ⟨1⟩ [] ht "k" {2, 3} answer ?_⟩
  intro i hi
  rcases Finset.mem_insert.mp hi with rfl | hi
  · exact htwo
  · obtain rfl := Finset.mem_singleton.mp hi
    exact hthree

end NodeSys

end SelfHealingCache
