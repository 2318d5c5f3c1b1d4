import SelfHealingCache.Node.Joining

/-!
# Deleted keys stay deleted through a rebalance

A delete on a joining node must survive the key transfer: a peer may
still send the key after the local removal. The handler records a
tombstone BEFORE it removes the key, and the rebalancer applies the
tombstones after the last chunk. Neither holds a lock the other takes,
so a delete may straddle the end of the transfer, the length check, the
pass itself, or the switch to Alive.

The invariant (`DeletedKept`) has one clause a phase: once a Delete of
`k` has finished, `k` is absent, or the pass still to come will visit it
(`Phase.willVisit`). A delete admitted without a tombstone saw the
joining flag down, hence the rebalance done.
-/

namespace SelfHealingCache

/-- The pass to come visits a tombstone `k` that is already recorded. -/
def Phase.willVisit (k : String) : Phase → Prop
  | .polling | .building | .pulling _ _ => True
  | .counted tombstoneCount => 0 < tombstoneCount
  | .applying snapshot visited => k ∈ snapshot ∧ k ∉ visited
  | .marking | .done => False

/-! ## Handlers and one key -/

/-- The handler may still store an entry for `k`. -/
def Task.writes (k : String) : Task → Prop
  | .setCheck req | .setStore req | .replicate req => req.key = k
  | .respSet args => ∃ value ttl, parseSet args = .ok (k, value, ttl)
  | _ => False

theorem cmdSet_lookup_none {args : List RespValue} {store : CacheStore} {now : Instant}
    {k : String} (hquiet : ¬ (Task.respSet args).writes k) (h : store.data.lookup k = none) :
    (cmdSet args store now).2.data.lookup k = none := by
  rw [cmdSet]
  split
  · exact h
  · rename_i key value ttl hparse
    have hne : k ≠ key := by
      intro heq
      subst heq
      exact hquiet ⟨value, ttl, hparse⟩
    simp [hne, h]

theorem cmdExpire_lookup_none {args : List RespValue} {store : CacheStore} {now : Instant}
    {k : String} (h : store.data.lookup k = none) :
    (cmdExpire args store now).2.data.lookup k = none := by
  rw [cmdExpire]
  split
  · exact h
  · simp [h]

theorem Task.start_ne_deleted (req : Request) (k : String) :
    (∀ joining, Task.start req ≠ .deleteStore k joining)
      ∧ ∀ reply, Task.start req ≠ .done (.delete k) reply := by
  cases req with
  | respDel args =>
      simp only [Task.start]
      cases parseDel args <;> simp
  | _ => simp [Task.start]

namespace NodeSys

/-- A handler that does not write `k` leaves it absent, and does not
become one that writes it. -/
theorem TaskMove.quiet {srv srv' : CacheService} {now : Instant} {task task' : Task} {k : String}
    (hmove : TaskMove srv now task task' srv') (hquiet : ¬ task.writes k) :
    ¬ task'.writes k
      ∧ (srv.store.data.lookup k = none → srv'.store.data.lookup k = none) := by
  cases hmove with
  | refuseSet _ => exact ⟨fun h => h, fun h => h⟩
  | admitSet _ => exact ⟨hquiet, fun h => h⟩
  | set =>
      have hne : k ≠ _ := Ne.symm hquiet
      exact ⟨fun h => h, fun h => by simp [hne, h]⟩
  | replicate =>
      have hne : k ≠ _ := Ne.symm hquiet
      exact ⟨fun h => h, fun h => by simp [hne, h]⟩
  | respSet => exact ⟨fun h => h, fun h => cmdSet_lookup_none hquiet h⟩
  | respExpire => exact ⟨fun h => h, fun h => cmdExpire_lookup_none h⟩
  | delete => exact ⟨fun h => h, fun h => by simp [h]⟩
  | removeExpired => exact ⟨fun h => h, fun h => by simp [h]⟩
  | respDel => exact ⟨fun h => h, fun h => by simp [h]⟩
  | _ => exact ⟨fun h => h, fun h => h⟩

theorem TaskMove.tombstones_subset {srv srv' : CacheService} {now : Instant} {task task' : Task}
    (hmove : TaskMove srv now task task' srv') : srv.tombstones ⊆ srv'.tombstones := by
  cases hmove with
  | tombstone => exact Finset.subset_insert _ _
  | _ => exact Finset.Subset.refl _

/-! ## The invariant -/

/-- A Delete of `k` has finished. -/
def Deleted (k : String) (s : NodeSys) : Prop :=
  ∃ i reply, s.tasks i = some (.done (.delete k) reply)

/-- A Delete handler of `k` about to remove the key has recorded its
tombstone, or runs after the rebalance. -/
def Recorded (k : String) (tombstones : Finset String) (phase : Phase) (task : Task) : Prop :=
  ∀ joining, task = .deleteStore k joining → k ∈ tombstones ∨ phase = .done

structure DeletedKept (k : String) (s : NodeSys) : Prop where
  quiet : ∀ i task, s.tasks i = some task → ¬ task.writes k
  pending : ∀ i task, s.tasks i = some task → Recorded k s.tombstones s.phase task
  recorded : s.Deleted k → k ∈ s.tombstones ∨ s.phase = .done
  absent : s.Deleted k → s.store.data.lookup k = none
    ∨ (k ∈ s.tombstones ∧ s.phase.willVisit k)

theorem deletedKept_start (k : String) (now : Instant) (localId : NodeId)
    (seeds : List NodeInfo) : (start now localId seeds).DeletedKept k where
  quiet i task h := by cases h
  pending i task h := by cases h
  recorded h := by
    obtain ⟨i, reply, hi⟩ := h
    cases hi
  absent h := by
    obtain ⟨i, reply, hi⟩ := h
    cases hi

/-- The task that moved is the only one that can have finished just now. -/
theorem deleted_of_update {k : String} {s t : NodeSys} {i : Nat} {moved : Task}
    (htasks : t.tasks = Function.update s.tasks i (some moved)) (h : t.Deleted k) :
    s.Deleted k ∨ ∃ reply, moved = .done (.delete k) reply := by
  obtain ⟨j, reply, hj⟩ := h
  rw [htasks] at hj
  by_cases hji : j = i
  · rw [hji, Function.update_self] at hj
    exact .inr ⟨reply, Option.some.inj hj⟩
  · rw [Function.update_of_ne hji] at hj
    exact .inl ⟨j, reply, hj⟩

theorem DeletedKept.call {k : String} {s : NodeSys} (h : s.DeletedKept k) (i : Nat)
    {req : Request} (hquiet : ¬ (Task.start req).writes k) :
    DeletedKept k { s with tasks := Function.update s.tasks i (some (.start req)) } := by
  obtain ⟨hstore, hdone⟩ := Task.start_ne_deleted req k
  have hold : Deleted k { s with tasks := Function.update s.tasks i (some (.start req)) } →
      s.Deleted k := by
    intro hdel
    rcases deleted_of_update rfl hdel with hold | ⟨reply, heq⟩
    · exact hold
    · exact absurd heq (hdone reply)
  exact {
    quiet := forall_tasks_update h.quiet i hquiet
    pending := forall_tasks_update h.pending i fun joining heq => absurd heq (hstore joining)
    recorded := fun hdel => h.recorded (hold hdel)
    absent := fun hdel => h.absent (hold hdel) }

theorem DeletedKept.advance {k : String} {s : NodeSys} (h : s.DeletedKept k)
    (hjoining : s.phase ≠ .done → s.table.isSelfJoining = true) {i : Nat} {now : Instant}
    {task task' : Task} {srv : CacheService} (htask : s.tasks i = some task)
    (hmove : TaskMove s.service now task task' srv) :
    DeletedKept k { s with
      store := srv.store
      tombstones := srv.tombstones
      tasks := Function.update s.tasks i (some task') } := by
  have hsub : s.tombstones ⊆ srv.tombstones := hmove.tombstones_subset
  obtain ⟨hquiet, hstays⟩ := hmove.quiet (h.quiet i task htask)
  have hgrow : k ∈ s.tombstones ∨ s.phase = .done → k ∈ srv.tombstones ∨ s.phase = .done :=
    fun hor => hor.imp_left fun hk => hsub hk
  -- the one place where the joining flag matters: a delete admitted without
  -- a tombstone runs after the rebalance
  have hpending : Recorded k srv.tombstones s.phase task' := by
    intro joining heq
    cases hmove with
    | admitDelete hfalse =>
        right
        by_contra hphase
        have htrue : s.service.table.isSelfJoining = true := hjoining hphase
        rw [htrue] at hfalse
        cases hfalse
    | tombstone =>
        cases heq
        exact .inl (Finset.mem_insert_self _ _)
    | _ => cases heq
  -- a delete that finishes now has just removed the key
  have hnew : ∀ reply, task' = .done (.delete k) reply →
      (k ∈ srv.tombstones ∨ s.phase = .done) ∧ srv.store.data.lookup k = none := by
    intro reply heq
    have hrec := h.pending i task htask
    cases hmove with
    | delete =>
        cases heq
        exact ⟨hrec _ rfl, by simp⟩
    | _ => cases heq
  refine ⟨forall_tasks_update h.quiet i hquiet, forall_tasks_update ?_ i hpending, ?_, ?_⟩
  · intro j other hj joining heq
    exact hgrow (h.pending j other hj joining heq)
  · intro hdel
    rcases deleted_of_update rfl hdel with hold | ⟨reply, heq⟩
    · exact hgrow (h.recorded hold)
    · exact (hnew reply heq).1
  · intro hdel
    rcases deleted_of_update rfl hdel with hold | ⟨reply, heq⟩
    · rcases h.absent hold with hnone | ⟨hk, hvisit⟩
      · exact .inl (hstays hnone)
      · exact .inr ⟨hsub hk, hvisit⟩
    · exact .inl (hnew reply heq).2

/-- A move of the rebalancer, by what it does to `k` and the phase. -/
theorem DeletedKept.rebalance {X : Crates} {k : String} {s t : NodeSys} {e : RebalanceEvent}
    (h : s.DeletedKept k) (hmove : RebalanceMove X s e t) : t.DeletedKept k := by
  have hrec : s.phase ≠ .done → s.Deleted k → k ∈ s.tombstones :=
    fun hphase hdel => (h.recorded hdel).resolve_right hphase
  have hpend : s.phase ≠ .done → ∀ phase i task, s.tasks i = some task →
      Recorded k s.tombstones phase task :=
    fun hphase _ i task hi joining heq =>
      .inl ((h.pending i task hi joining heq).resolve_right hphase)
  cases hmove with
  | wait hphase => exact h
  | converge hphase _ | buildRing hphase _ | nextPeer hphase =>
      have hne : s.phase ≠ .done := by simp [hphase]
      exact ⟨h.quiet, hpend hne _, fun hdel => .inl (hrec hne hdel),
        fun hdel => .inr ⟨hrec hne hdel, trivial⟩⟩
  | chunk hphase _ =>
      have hne : s.phase ≠ .done := by simp [hphase]
      refine ⟨h.quiet, h.pending, h.recorded, fun hdel => .inr ⟨hrec hne hdel, ?_⟩⟩
      simp [hphase, Phase.willVisit]
  | count hphase =>
      have hne : s.phase ≠ .done := by simp [hphase]
      exact ⟨h.quiet, hpend hne _, fun hdel => .inl (hrec hne hdel),
        fun hdel => .inr ⟨hrec hne hdel, Finset.card_pos.mpr ⟨k, hrec hne hdel⟩⟩⟩
  | beginPass hphase hn =>
      have hne : s.phase ≠ .done := by simp [hphase]
      exact ⟨h.quiet, hpend hne _, fun hdel => .inl (hrec hne hdel),
        fun hdel => .inr ⟨hrec hne hdel, hrec hne hdel, Finset.notMem_empty k⟩⟩
  | skipPass hphase =>
      -- no tombstone was counted, so none of a finished delete existed then
      have hne : s.phase ≠ .done := by simp [hphase]
      refine ⟨h.quiet, hpend hne _, fun hdel => .inl (hrec hne hdel), fun hdel => .inl ?_⟩
      rcases h.absent hdel with hnone | ⟨_, hvisit⟩
      · exact hnone
      · simp [hphase, Phase.willVisit] at hvisit
  | @visit snapshot visited key hphase _ _ =>
      have hne : s.phase ≠ .done := by simp [hphase]
      refine ⟨h.quiet, hpend hne _, fun hdel => .inl (hrec hne hdel), fun hdel => ?_⟩
      by_cases hkey : k = key
      · left
        simp [hkey]
      · rcases h.absent hdel with hnone | ⟨hk, hvisit⟩
        · left
          simp [hnone]
        · right
          rw [hphase] at hvisit
          refine ⟨hk, hvisit.1, ?_⟩
          rw [Finset.mem_insert]
          exact fun hor => hor.elim hkey hvisit.2
  | endPass hphase hall =>
      have hne : s.phase ≠ .done := by simp [hphase]
      refine ⟨h.quiet, hpend hne _, fun hdel => .inl (hrec hne hdel), fun hdel => .inl ?_⟩
      rcases h.absent hdel with hnone | ⟨_, hvisit⟩
      · exact hnone
      · rw [hphase] at hvisit
        exact absurd (hall hvisit.1) hvisit.2
  | markAlive hphase =>
      have hne : s.phase ≠ .done := by simp [hphase]
      refine ⟨h.quiet, hpend hne _, fun _ => .inr rfl, fun hdel => .inl ?_⟩
      rcases h.absent hdel with hnone | ⟨_, hvisit⟩
      · exact hnone
      · simp [hphase, Phase.willVisit] at hvisit

theorem DeletedKept.move {X : Crates} {k : String} {s t : NodeSys} {e : NodeEvent}
    (h : s.DeletedKept k) (hjoining : s.phase ≠ .done → s.table.isSelfJoining = true)
    (hquiet : ∀ i req, e = .call i req → ¬ (Task.start req).writes k)
    (hmove : NodeMove X s e t) : t.DeletedKept k := by
  cases hmove with
  | gossip hg => exact ⟨h.quiet, h.pending, h.recorded, h.absent⟩
  | purge now =>
      refine ⟨h.quiet, h.pending, h.recorded, fun hdel => ?_⟩
      rcases h.absent hdel with hnone | hvisit
      · left
        simp [hnone]
      · exact .inr hvisit
  | @call i req hfree => exact h.call i (hquiet i req rfl)
  | advance htask hmove => exact h.advance hjoining htask hmove
  | rebalance hre => exact h.rebalance hre

/-- **No resurrection by key transfer.** In every run in which the node
leaves Joining only through `mark_self_alive` and no client write of `k`
reaches it, once a Delete of `k` and the rebalance have both finished,
`k` is absent, however their steps interleaved. -/
theorem deleted_key_absent_after_rebalance (X : Crates) {now : Instant} {localId : NodeId}
    {seeds : List NodeInfo} {es : List NodeEvent} {s : NodeSys} {k : String}
    (hrun : Trace.exec (step X) (start now localId seeds) es = some s)
    (hjoining : Trace.Throughout (step X)
      (fun s => s.phase ≠ .done → s.table.isSelfJoining = true) (start now localId seeds) es)
    (hquiet : ∀ i req, NodeEvent.call i req ∈ es → ¬ (Task.start req).writes k)
    (hdone : s.phase = .done)
    (hdeleted : ∃ i reply, s.tasks i = some (.done (.delete k) reply)) :
    s.store.data.lookup k = none := by
  have hcalls : Trace.Along (step X)
      (fun _ e => ∀ i req, e = .call i req → ¬ (Task.start req).writes k)
      (start now localId seeds) es := by
    apply Trace.along_of_forall
    intro e he i req heq
    rw [heq] at he
    exact hquiet i req he
  have hkept : s.DeletedKept k := Trace.exec_invariant
    (fun _ _ _ h hC hstep => h.move hC.1 hC.2 (move_of_step hstep))
    (deletedKept_start k now localId seeds) ((Trace.along_of_throughout hjoining).and hcalls) hrun
  rcases hkept.absent hdeleted with hnone | ⟨_, hvisit⟩
  · exact hnone
  · rw [hdone] at hvisit
    exact hvisit.elim

/-- Puts the virtual nodes of node 2 before everything else. -/
def secondFirst (bytes : ByteArray) : UInt64 :=
  if bytes.data.toList[35]? = some 50 then 0 else 1

/-- The node is told to delete `k` while it polls, pulls `k` from its one
seed, applies the tombstone and turns Alive. -/
def oneSeedRun : List NodeEvent :=
  [.call 0 (.delete "k"), .advance 0 0, .rebalance .poll, .advance 0 0,
    .rebalance (.buildRing [⟨⟨⟨2⟩, "10.0.0.2:5001"⟩, .alive, 0, 0⟩]), .advance 0 0,
    .rebalance (.chunk 0 ⟨"k", [7], none⟩), .rebalance .nextPeer, .rebalance .count,
    .rebalance .beginPass, .rebalance (.visit "k"), .rebalance .endPass, .rebalance .markAlive]

/-- After the chunk the key is back for a while. -/
theorem deleted_key_absent_after_one_seed_run :
    ((Trace.exec (step (.hyphenated secondFirst)) (start 0 ⟨1⟩ [⟨⟨2⟩, "10.0.0.2:5001"⟩])
        (oneSeedRun.take 7)).bind fun s => s.store.data.lookup "k") = some ⟨[7], none⟩
    ∧ ∃ s, Trace.exec (step (.hyphenated secondFirst)) (start 0 ⟨1⟩ [⟨⟨2⟩, "10.0.0.2:5001"⟩])
        oneSeedRun = some s ∧ s.store.data.lookup "k" = none := by
  obtain ⟨s, hrun⟩ : ∃ s, Trace.exec (step (.hyphenated secondFirst))
      (start 0 ⟨1⟩ [⟨⟨2⟩, "10.0.0.2:5001"⟩]) oneSeedRun = some s := ⟨_, rfl⟩
  refine ⟨by decide +kernel, s, hrun, deleted_key_absent_after_rebalance _ hrun ?_ ?_ ?_ ?_⟩
  · refine Trace.Throughout.mono (fun _ h hphase => (JoiningHeld.isolated h hphase).1)
      (throughout_joiningHeld (along_unaccused_of_no_receive ?_ _))
    simp [oneSeedRun]
  · intro i req hcall
    simp [oneSeedRun] at hcall
    simp [hcall, Task.start, Task.writes]
  · cases hrun
    rfl
  · cases hrun
    exact ⟨0, _, rfl⟩

end NodeSys

end SelfHealingCache
