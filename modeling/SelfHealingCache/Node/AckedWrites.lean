import SelfHealingCache.Node.Joining

/-!
# Acknowledged writes and the rebalance

While a node rebalances, transferred chunks overwrite what is stored and
the tombstone pass removes keys deleted long before. gRPC `set` refuses
writes meanwhile. The two other ways in do not: `replicate_write` and
RESP `SET` store and acknowledge, and the rebalance then takes the value
away (`acked_write_lost_to_tombstone_pass`).

`acked_write_kept` is what remains: a write that takes effect when the
rebalance is over stays until the client changes the key again. For gRPC
`set` that is no condition as long as the joining flag is kept, which is
what an accusation breaks (`Node.Joining`).
-/

namespace SelfHealingCache

/-! ## Handlers and one key -/

/-- The handler may still change the entry of `k`. A read may, once it
has found an expired entry and is about to remove it. -/
def Task.mayChange (k : String) : Task → Prop
  | .setCheck req | .setStore req | .replicate req => req.key = k
  | .deleteCheck key | .deleteTombstone key | .deleteStore key _ | .getRemove key => key = k
  | .respSet args => ∃ value ttl, parseSet args = .ok (k, value, ttl)
  | .respDel _ keys _ => k ∈ keys
  | .respExpire args => ∃ ttl, parseExpire args = .ok (k, ttl)
  | .getLookup _ | .done _ _ => False

/-- The next step of the handler stores `v` for `k`, without TTL. -/
def Task.commits (k : String) (v : Bytes) : Task → Prop
  | .setStore req | .replicate req => req = ⟨k, v, none⟩
  | .respSet args => parseSet args = .ok (k, v, none)
  | _ => False

/-- The reply of a successful write. -/
def Reply.acknowledges (reply : Reply) : Prop :=
  reply = .set (.ok ⟨true⟩) ∨ reply = .resp (encodeSimpleString "OK")

namespace NodeSys

/-- The step that stores the value also acknowledges it. -/
theorem TaskMove.commit {srv srv' : CacheService} {now : Instant} {task task' : Task}
    {k : String} {v : Bytes} (hmove : TaskMove srv now task task' srv')
    (hcommit : task.commits k v) :
    srv'.store.data.lookup k = some ⟨v, none⟩
      ∧ ∃ req reply, task' = .done req reply ∧ reply.acknowledges := by
  cases hmove with
  | set =>
      cases hcommit
      exact ⟨by simp, _, _, rfl, .inl rfl⟩
  | replicate =>
      cases hcommit
      exact ⟨by simp, _, _, rfl, .inl rfl⟩
  | respSet =>
      have hparse : parseSet _ = .ok (k, v, none) := hcommit
      refine ⟨?_, _, _, rfl, .inr ?_⟩
      · simp [cmdSet, hparse]
      · simp [cmdSet, hparse]
  | _ => exact hcommit.elim

/-- A handler that may not change `k` leaves an entry without expiry
alone, and does not become one that may. -/
theorem TaskMove.keeps {srv srv' : CacheService} {now : Instant} {task task' : Task}
    {k : String} {v : Bytes} (hmove : TaskMove srv now task task' srv')
    (hother : ¬ task.mayChange k) (hentry : srv.store.data.lookup k = some ⟨v, none⟩) :
    srv'.store.data.lookup k = some ⟨v, none⟩ ∧ ¬ task'.mayChange k := by
  cases hmove with
  | refuseSet _ => exact ⟨hentry, fun h => h⟩
  | admitSet _ => exact ⟨hentry, hother⟩
  | set | replicate =>
      have hne : k ≠ _ := Ne.symm hother
      exact ⟨by simp [hne, hentry], fun h => h⟩
  | refuseDelete _ => exact ⟨hentry, hother⟩
  | admitDelete _ => exact ⟨hentry, hother⟩
  | tombstone => exact ⟨hentry, hother⟩
  | delete | removeExpired =>
      have hne : k ≠ _ := Ne.symm hother
      exact ⟨by simp [hne, hentry], fun h => h⟩
  | read => exact ⟨hentry, fun h => h⟩
  | readExpired hfound hdead =>
      -- the entry of `k` never expires, so the one found is another key's
      refine ⟨hentry, fun heq => ?_⟩
      subst heq
      rw [hentry] at hfound
      cases hfound
      cases hdead
  | @respSet args =>
      refine ⟨?_, fun h => h⟩
      dsimp only
      rw [cmdSet]
      split
      · exact hentry
      · rename_i key value ttl hparse
        have hne : k ≠ key := by
          intro heq
          subst heq
          exact hother ⟨value, ttl, hparse⟩
        simp [hne, hentry]
  | respDelEnd => exact ⟨hentry, fun h => h⟩
  | @respDel args key keys deleted more =>
      have hnot : k ∉ key :: keys := hother
      rw [List.mem_cons, not_or] at hnot
      exact ⟨by simp [hnot.1, hentry], hnot.2⟩
  | @respExpire args reply =>
      refine ⟨?_, fun h => h⟩
      dsimp only
      rw [cmdExpire]
      split
      · exact hentry
      · rename_i key ttl hparse
        have hne : k ≠ key := by
          intro heq
          subst heq
          exact hother ⟨ttl, hparse⟩
        simp [hne, hentry]

/-! ## After the write -/

/-- The value is stored, the rebalance is over, and nobody is about to
change the key. -/
structure WriteKept (k : String) (v : Bytes) (s : NodeSys) : Prop where
  entry : s.store.data.lookup k = some ⟨v, none⟩
  phase : s.phase = .done
  tasks : ∀ i task, s.tasks i = some task → ¬ task.mayChange k

theorem WriteKept.move {X : Crates} {k : String} {v : Bytes} {s t : NodeSys} {e : NodeEvent}
    (h : s.WriteKept k v) (hcall : ∀ i req, e = .call i req → ¬ (Task.start req).mayChange k)
    (hmove : NodeMove X s e t) : t.WriteKept k v := by
  cases hmove with
  | gossip hg => exact ⟨h.entry, h.phase, h.tasks⟩
  | purge now =>
      refine ⟨?_, h.phase, h.tasks⟩
      simp [h.entry, Option.filter, CacheEntry.live]
  | @call i req hfree =>
      exact ⟨h.entry, h.phase, forall_tasks_update h.tasks i (hcall i req rfl)⟩
  | @advance i now task task' srv htask hmove =>
      obtain ⟨hentry, hother⟩ := hmove.keeps (h.tasks i task htask) h.entry
      exact ⟨hentry, h.phase, forall_tasks_update h.tasks i hother⟩
  | rebalance hre =>
      -- a finished rebalancer makes no move
      have hphase := h.phase
      cases hre <;> simp_all

/-- The write itself: handler `i` commits while no other handler may
change the key. -/
theorem WriteKept.of_commit {k : String} {v : Bytes} {s : NodeSys} {i : Nat} {now : Instant}
    {task task' : Task} {srv : CacheService} (hmove : TaskMove s.service now task task' srv)
    (hcommit : task.commits k v) (hphase : s.phase = .done)
    (halone : ∀ j other, j ≠ i → s.tasks j = some other → ¬ other.mayChange k) :
    WriteKept k v { s with
      store := srv.store
      tombstones := srv.tombstones
      tasks := Function.update s.tasks i (some task') } := by
  obtain ⟨hentry, req, reply, rfl, _⟩ := hmove.commit hcommit
  refine ⟨hentry, hphase, fun j other hj => ?_⟩
  dsimp only at hj
  by_cases hji : j = i
  · rw [hji, Function.update_self] at hj
    cases hj
    exact fun h => h
  · rw [Function.update_of_ne hji] at hj
    exact halone j other hji hj

/-- **An acknowledged write is kept.** In a run of a joiner without an
accusation before the rebalance is over, handler `i` commits `(k, v)`
without TTL: through gRPC Set, or through the two unguarded ways in after
the rebalance. No other handler may change `k` at that moment, and no
request that may change it arrives later. Then the write is acknowledged,
and every later read returns `v`. -/
theorem acked_write_kept (X : Crates) {now time : Instant} {localId : NodeId} {seed : NodeInfo}
    {seeds : List NodeInfo} {before after : List NodeEvent} {s₁ s : NodeSys} {i : Nat}
    {task : Task} {k : String} {v : Bytes}
    (hbefore : Trace.exec (step X) (start now localId (seed :: seeds)) before = some s₁)
    (hacc : Trace.Along (step X) (fun s e => s.phase ≠ .done → ¬ s.Accused X e)
      (start now localId (seed :: seeds)) before)
    (htask : s₁.tasks i = some task) (hcommit : task.commits k v)
    (hguard : (∀ req, task ≠ .setStore req) → s₁.phase = .done)
    (halone : ∀ j other, j ≠ i → s₁.tasks j = some other → ¬ other.mayChange k)
    (hcalls : ∀ j req, NodeEvent.call j req ∈ after → ¬ (Task.start req).mayChange k)
    (hafter : Trace.exec (step X) s₁ (.advance i time :: after) = some s) :
    (∃ s₂ req reply, s₁.step X (.advance i time) = some s₂
      ∧ s₂.tasks i = some (.done req reply) ∧ reply.acknowledges)
    ∧ ∀ t, (s.store.get t k).1 = some v := by
  have hheld : s₁.JoiningHeld := Trace.exec_invariant
    (fun _ _ _ h hC hstep => h.move hC (move_of_step hstep))
    (joiningHeld_start now localId seed seeds) hacc hbefore
  -- a gRPC Set past its test has seen the flag down
  have hphase : s₁.phase = .done := by
    by_contra hne
    exact hne (hguard (hheld.tasks hne i task htask).1)
  obtain ⟨s₂, hstep, hrest⟩ := Trace.exec_cons.mp hafter
  have hmove := move_of_step hstep
  cases hmove with
  | @advance _ _ task₁ task' srv htask₁ hmove =>
      rw [htask] at htask₁
      cases htask₁
      obtain ⟨_, req, reply, hdone, hack⟩ := hmove.commit hcommit
      refine ⟨⟨_, req, reply, hstep, by simp [hdone], hack⟩, fun t => ?_⟩
      have hquiet : ∀ u, Trace.Along (step X)
          (fun _ e => ∀ j req, e = .call j req → ¬ (Task.start req).mayChange k) u after := by
        apply Trace.along_of_forall
        intro e he j req heq
        rw [heq] at he
        exact hcalls j req he
      have hkept : s.WriteKept k v := Trace.exec_invariant
        (fun _ _ _ h hC hstep => h.move hC (move_of_step hstep))
        (WriteKept.of_commit hmove hcommit hphase halone) (hquiet _) hrest
      rw [CacheStore.get_fst, hkept.entry]
      rfl

/-- A joiner with one seed runs its rebalance to the end and is then given
a Set, up to the test of the flag. -/
def joinThenSet : List NodeEvent :=
  [.rebalance .poll, .rebalance (.buildRing [⟨⟨⟨2⟩, "10.0.0.2:5001"⟩, .alive, 0, 0⟩]),
    .rebalance .nextPeer, .rebalance .count, .rebalance .beginPass, .rebalance .markAlive,
    .call 0 (.set ⟨"k", [7], none⟩), .advance 0 0]

theorem acked_write_kept_after_join :
    ∃ s, Trace.exec (step (.hyphenated fun _ => 0)) (start 0 ⟨1⟩ [⟨⟨2⟩, "10.0.0.2:5001"⟩])
        (joinThenSet ++ [.advance 0 0, .purge 9, .call 1 (.delete "other"), .advance 1 0])
          = some s
      ∧ (s.store.get 10 "k").1 = some [7] := by
  obtain ⟨s₁, hbefore⟩ : ∃ s₁, Trace.exec (step (.hyphenated fun _ => 0))
      (start 0 ⟨1⟩ [⟨⟨2⟩, "10.0.0.2:5001"⟩]) joinThenSet = some s₁ := ⟨_, rfl⟩
  obtain ⟨s, hafter⟩ : ∃ s, Trace.exec (step (.hyphenated fun _ => 0)) s₁
      [.advance 0 0, .purge 9, .call 1 (.delete "other"), .advance 1 0] = some s := by
    cases hbefore
    exact ⟨_, rfl⟩
  refine ⟨s, Trace.exec_append.mpr ⟨s₁, hbefore, hafter⟩, ?_⟩
  have htask : s₁.tasks 0 = some (.setStore ⟨"k", [7], none⟩) := by
    cases hbefore
    rfl
  have halone : ∀ j other, j ≠ 0 → s₁.tasks j = some other → ¬ other.mayChange "k" := by
    intro j other hj hother
    cases hbefore
    simp [start, Function.update, hj] at hother
  exact (acked_write_kept _ hbefore
    (along_unaccused_of_no_receive (by simp [joinThenSet]) _) htask rfl
    (fun hne => absurd rfl (hne _)) halone (by simp [Task.start, Task.mayChange]) hafter).2 10

/-- Delete `k` on the joining node; while it pulls keys, write `k` through
`replicate_write`. -/
def deleteThenReplicate : List NodeEvent :=
  [.call 0 (.delete "k"), .advance 0 0, .advance 0 0, .advance 0 0, .rebalance .poll,
    .rebalance (.buildRing [⟨⟨⟨2⟩, "10.0.0.2:5001"⟩, .alive, 0, 0⟩]),
    .call 1 (.replicateWrite ⟨"k", [7], none⟩), .advance 1 0]

/-- The write is acknowledged, no request arrives after it, and the end of
the rebalance takes it away. -/
theorem acked_write_lost_to_tombstone_pass :
    ∃ s₁ s, Trace.exec (step (.hyphenated fun _ => 0))
        (start 0 ⟨1⟩ [⟨⟨2⟩, "10.0.0.2:5001"⟩]) deleteThenReplicate = some s₁
      ∧ s₁.tasks 1 = some (.done (.replicateWrite ⟨"k", [7], none⟩) (.set (.ok ⟨true⟩)))
      ∧ (s₁.store.get 0 "k").1 = some [7]
      ∧ Trace.exec (step (.hyphenated fun _ => 0)) s₁
        [.rebalance .nextPeer, .rebalance .count, .rebalance .beginPass, .rebalance (.visit "k"),
          .rebalance .endPass, .rebalance .markAlive] = some s
      ∧ (s.store.get 0 "k").1 = none :=
  ⟨_, _, rfl, rfl, rfl, rfl, rfl⟩

end NodeSys

end SelfHealingCache
