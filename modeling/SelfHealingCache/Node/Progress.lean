import SelfHealingCache.Node.CommandPanics
import SelfHealingCache.Node.Forward
import SelfHealingCache.Node.Resurrection

/-!
# Who waits for whom

The tasks of a node share the table, the tombstones and the store. None
of the handlers waits for another task:

* A handler is done after a number of its own steps that its request
  alone decides, whatever runs in between, unless it panics because the
  expiry it was asked for is past the end of the clock
  (`handlers_wait_free`).

The rebalancer waits at two places, and at both without a time limit: in
its polling loop for a routable peer, and for each peer it pulls from
until that peer's stream ends, breaks off or never opens
(`rebalancer_finishes_iff`).
-/

namespace SelfHealingCache

/-! ## Handlers -/

/-- Steps the handler of a request takes at most. -/
def Request.steps : Request → Nat
  | .set _ => 2
  | .delete _ => 3
  | .replicateWrite _ => 1
  | .get _ => 2
  | .respSet _ => 1
  | .respDel args =>
      match parseDel args with
      | .error _ => 0
      | .ok keys => keys.length + 1
  | .respExpire _ => 1

namespace Task

/-- Steps a handler may still take. -/
def left : Task → Nat
  | .setCheck _ => 2
  | .setStore _ => 1
  | .deleteCheck _ => 3
  | .deleteTombstone _ => 2
  | .deleteStore _ _ => 1
  | .replicate _ => 1
  | .getLookup _ => 2
  | .getRemove _ => 1
  | .respSet _ => 1
  | .respDel _ keys _ => keys.length + 1
  | .respExpire _ => 1
  | .done _ _ => 0

/-- The request a handler serves. -/
def request : Task → Request
  | .setCheck req => .set req
  | .setStore req => .set req
  | .deleteCheck key => .delete key
  | .deleteTombstone key => .delete key
  | .deleteStore key _ => .delete key
  | .replicate req => .replicateWrite req
  | .getLookup key => .get key
  | .getRemove key => .get key
  | .respSet args => .respSet args
  | .respDel args _ _ => .respDel args
  | .respExpire args => .respExpire args
  | .done req _ => req

theorem left_start (req : Request) : (start req).left = req.steps := by
  cases req with
  | respDel args =>
      simp only [start, Request.steps]
      cases parseDel args with
      | error msg => rfl
      | ok keys => rfl
  | _ => rfl

theorem request_start (req : Request) : (start req).request = req := by
  cases req with
  | respDel args =>
      simp only [start]
      cases parseDel args with
      | error msg => rfl
      | ok keys => rfl
  | _ => rfl

theorem left_eq_zero {task : Task} (h : task.left = 0) :
    ∃ reply, task = .done task.request reply := by
  cases task with
  | done req reply => exact ⟨reply, rfl⟩
  | _ => cases h

/-- A handler that is not done can take a step. -/
theorem step_isSome {task : Task} (h : task.left ≠ 0) (srv : CacheService) (now : Instant) :
    ∃ p, task.step srv now = some p := by
  cases task with
  | setCheck req =>
      rw [step]
      split_ifs
      · exact ⟨_, rfl⟩
      · exact ⟨_, rfl⟩
  | deleteCheck key =>
      rw [step]
      split_ifs
      · exact ⟨_, rfl⟩
      · exact ⟨_, rfl⟩
  | getLookup key =>
      rw [step]
      cases srv.store.data.lookup key with
      | none => exact ⟨_, rfl⟩
      | some entry =>
          dsimp only
          split_ifs
          · exact ⟨_, rfl⟩
          · exact ⟨_, rfl⟩
  | respDel args keys deleted =>
      cases keys with
      | nil => exact ⟨_, rfl⟩
      | cons key keys => exact ⟨_, rfl⟩
  | done req reply => exact absurd rfl h
  | _ => exact ⟨_, rfl⟩

end Task

/-! ## Handlers that panic -/

theorem setChecked_cases (store : CacheStore) (now : Instant) (key : String) (value : Bytes)
    (ttl : Option Duration) :
    store.setChecked now key value ttl = .ok (store.set now key value ttl)
    ∨ (store.setChecked now key value ttl = .error .overflow
      ∧ ∃ d, ttl = some d ∧ ¬ now + d < instantEnd) := by
  by_cases hfits : ∀ d, ttl = some d → now + d < instantEnd
  · exact .inl (setChecked_eq_ok hfits)
  · obtain ⟨d, rfl, hover⟩ : ∃ d, ttl = some d ∧ ¬ now + d < instantEnd := by
      simpa only [not_forall, exists_prop] using hfits
    refine .inr ⟨?_, d, rfl, hover⟩
    rw [CacheStore.setChecked, addDuration_eq_error hover]
    rfl

theorem expireChecked_cases (store : CacheStore) (now : Instant) (key : String)
    (ttl : Duration) :
    store.expireChecked now key ttl = .ok (store.expire now key ttl)
    ∨ (store.expireChecked now key ttl = .error .overflow ∧ ¬ now + ttl < instantEnd) := by
  by_cases hfits : (store.data.lookup key).isSome → now + ttl < instantEnd
  · exact .inl (expireChecked_eq_ok hfits)
  · obtain ⟨hin, hover⟩ := Classical.not_imp.mp hfits
    obtain ⟨entry, hentry⟩ := Option.isSome_iff_exists.mp hin
    refine .inr ⟨?_, hover⟩
    rw [CacheStore.expireChecked, hentry]
    dsimp only
    rw [addDuration_eq_error hover]
    rfl

/-- The request asks for a key to expire `d` from now. -/
def Request.Asks (d : Duration) (req : Request) : Prop :=
  (∃ key value, req.write = some (key, value, some d))
  ∨ ∃ args key, req = .respExpire args ∧ parseExpire args = .ok (key, d)

namespace Task

/-- One atomic step, or its panic. -/
def stepChecked (srv : CacheService) (now : Instant) :
    Task → Except Panic (Option (Task × CacheService))
  | .setStore req =>
      (srv.store.setChecked now req.key req.value (req.ttlMs.map fromMillis)).map fun store =>
        some (.done (.set req) (.set (.ok ⟨true⟩)), { srv with store := store })
  | .replicate req =>
      (srv.store.setChecked now req.key req.value (req.ttlMs.map fromMillis)).map fun store =>
        some (.done (.replicateWrite req) (.set (.ok ⟨true⟩)), { srv with store := store })
  | .respSet args =>
      (cmdSetChecked args srv.store now).map fun out =>
        some (.done (.respSet args) (.resp out.1), { srv with store := out.2 })
  | .respExpire args =>
      (cmdExpireChecked args srv.store now).map fun out =>
        some (.done (.respExpire args) (.resp out.1), { srv with store := out.2 })
  | task => .ok (task.step srv now)

/-- **A handler panics for one reason**: the expiry its request asks for
is past the end of the clock. -/
theorem stepChecked_cases (srv : CacheService) (now : Instant) (task : Task) :
    task.stepChecked srv now = .ok (task.step srv now)
    ∨ (task.stepChecked srv now = .error .overflow
      ∧ ∃ d, task.request.Asks d ∧ ¬ now + d < instantEnd) := by
  cases task with
  | setStore req =>
      rcases setChecked_cases srv.store now req.key req.value (req.ttlMs.map fromMillis) with
        hok | ⟨hpanic, d, hd, hover⟩
      · exact .inl (by rw [stepChecked, hok]; rfl)
      · refine .inr ⟨by rw [stepChecked, hpanic]; rfl, d, .inl ⟨req.key, req.value, ?_⟩, hover⟩
        rw [request, Request.write, hd]
  | replicate req =>
      rcases setChecked_cases srv.store now req.key req.value (req.ttlMs.map fromMillis) with
        hok | ⟨hpanic, d, hd, hover⟩
      · exact .inl (by rw [stepChecked, hok]; rfl)
      · refine .inr ⟨by rw [stepChecked, hpanic]; rfl, d, .inl ⟨req.key, req.value, ?_⟩, hover⟩
        rw [request, Request.write, hd]
  | respSet args =>
      rw [stepChecked, cmdSetChecked_eq, step, cmdSet]
      cases hparse : parseSet args with
      | error msg => exact .inl rfl
      | ok parsed =>
          obtain ⟨key, value, ttl⟩ := parsed
          rcases setChecked_cases srv.store now key value ttl with hok | ⟨hpanic, d, rfl, hover⟩
          · exact .inl (by simp only [hok]; rfl)
          · refine .inr ⟨by simp only [hpanic]; rfl, d, .inl ⟨key, value, ?_⟩, hover⟩
            rw [request, Request.write, hparse]
            rfl
  | respExpire args =>
      rw [stepChecked, cmdExpireChecked_eq, step, cmdExpire]
      cases hparse : parseExpire args with
      | error msg => exact .inl rfl
      | ok parsed =>
          obtain ⟨key, ttl⟩ := parsed
          rcases expireChecked_cases srv.store now key ttl with hok | ⟨hpanic, hover⟩
          · exact .inl (by simp only [hok]; rfl)
          · exact .inr ⟨by simp only [hpanic]; rfl, ttl, .inr ⟨args, key, rfl, hparse⟩, hover⟩
  | _ => exact .inl rfl

end Task

namespace NodeSys

/-- One step of the process. A step that panics is not enabled: the
handler is gone then without a reply, and has changed nothing. -/
def stepChecked (X : Crates) (s : NodeSys) : NodeEvent → Option NodeSys
  | .advance i now =>
      match s.tasks i with
      | none => none
      | some task =>
          match task.stepChecked s.service now with
          | .ok _ => s.step X (.advance i now)
          | .error _ => none
  | e => s.step X e

theorem step_of_stepChecked {X : Crates} {s t : NodeSys} {e : NodeEvent}
    (h : s.stepChecked X e = some t) : s.step X e = some t := by
  cases e with
  | advance i now =>
      simp only [stepChecked] at h
      split at h
      · cases h
      · split at h
        · exact h
        · cases h
  | _ => exact h

/-- A step of a handler is one less to take. -/
theorem TaskMove.left {srv srv' : CacheService} {now : Instant} {task task' : Task}
    (h : TaskMove srv now task task' srv') :
    task'.left + 1 ≤ task.left ∧ task'.request = task.request := by
  cases h with
  | respDel => exact ⟨Nat.le_refl _, rfl⟩
  | _ => exact ⟨by simp [Task.left], rfl⟩

/-- The event is a step of handler `i`. -/
def turn (i : Nat) : NodeEvent → Bool
  | .advance j _ => j = i
  | _ => false

/-- How often handler `i` takes a step. -/
def turns (i : Nat) (es : List NodeEvent) : Nat := es.countP (turn i)

/-- Handler `i` serves `req`. -/
def Serves (i : Nat) (req : Request) (s : NodeSys) : Prop :=
  ∃ task, s.tasks i = some task ∧ task.request = req

/-- Steps handler `i` may still take. -/
def leftAt (i : Nat) (s : NodeSys) : Nat := ((s.tasks i).map Task.left).getD 0

theorem Serves.move {X : Crates} {i : Nat} {req : Request} {s t : NodeSys} {e : NodeEvent}
    (h : s.Serves i req) (hmove : NodeMove X s e t) :
    t.Serves i req ∧ t.leftAt i + (if turn i e then 1 else 0) ≤ s.leftAt i := by
  obtain ⟨task, htask, hreq⟩ := h
  have hleft : s.leftAt i = task.left := by simp [leftAt, htask]
  cases hmove with
  | gossip hg => exact ⟨⟨task, htask, hreq⟩, le_of_eq rfl⟩
  | purge now => exact ⟨⟨task, htask, hreq⟩, le_of_eq rfl⟩
  | @call j req' hfree =>
      -- the slot is taken, so the new call is another
      have hij : i ≠ j := by
        rintro rfl
        rw [htask] at hfree
        cases hfree
      have hkept := Function.update_of_ne hij (some (Task.start req')) s.tasks
      refine ⟨⟨task, hkept.trans htask, hreq⟩, ?_⟩
      show ((Function.update s.tasks j _ i).map Task.left).getD 0 + 0 ≤ _
      rw [hkept]
      exact Nat.le_refl _
  | @advance j now task' moved srv htask' hmove =>
      rw [turn, hleft]
      by_cases hji : j = i
      · subst hji
        obtain rfl : task = task' := Option.some.inj (htask.symm.trans htask')
        obtain ⟨hless, hsame⟩ := hmove.left
        refine ⟨⟨moved, Function.update_self .., hsame.trans hreq⟩, ?_⟩
        show ((Function.update s.tasks j (some moved) j).map Task.left).getD 0 + _ ≤ _
        rw [Function.update_self, if_pos (by simp)]
        exact hless
      · have hkept := Function.update_of_ne (Ne.symm hji) (some moved) s.tasks
        refine ⟨⟨task, hkept.trans htask, hreq⟩, ?_⟩
        show ((Function.update s.tasks j (some moved) i).map Task.left).getD 0 + _ ≤ _
        rw [hkept, htask, if_neg (by simpa using hji)]
        exact Nat.le_refl _
  | rebalance hre =>
      have htasks : t.tasks = s.tasks := by cases hre <;> rfl
      refine ⟨⟨task, by rw [htasks]; exact htask, hreq⟩, ?_⟩
      rw [leftAt, htasks]
      exact Nat.le_refl _

theorem Serves.exec {X : Crates} {i : Nat} {req : Request} {s t : NodeSys} {es : List NodeEvent}
    (h : s.Serves i req) (hrun : Trace.exec (step X) s es = some t) :
    t.Serves i req ∧ t.leftAt i + turns i es ≤ s.leftAt i := by
  have hbalance := Trace.exec_balance (I := Serves i req) (μ := leftAt i) (c := turn i)
    (g := fun _ => false) (fun _ _ _ _ hs hstep => Serves.move hs (move_of_step hstep)) h hrun
  rw [List.countP_false] at hbalance
  exact hbalance

/-- **Handlers are wait-free.** Among any other handlers, gossip, sweeps
and steps of the rebalancer, a handler takes no more steps than its
request asks for; once it has taken so many it has replied; and until it
has replied it can always take its next step, except where that step
panics, because the expiry the request asks for is past the end of the
clock. -/
theorem handlers_wait_free (X : Crates) {s t : NodeSys} {i : Nat} {req : Request}
    {es : List NodeEvent} (hrun : Trace.exec (stepChecked X) s (.call i req :: es) = some t) :
    turns i es ≤ req.steps
    ∧ (turns i es = req.steps → ∃ reply, t.tasks i = some (.done req reply))
    ∧ ((∃ reply, t.tasks i = some (.done req reply))
      ∨ ∀ now, (∃ u, t.stepChecked X (.advance i now) = some u)
        ∨ ∃ d, req.Asks d ∧ ¬ now + d < instantEnd) := by
  obtain ⟨u, hcall, hrest⟩ :=
    Trace.exec_cons.mp (Trace.exec_mono (fun _ _ _ => step_of_stepChecked) hrun)
  have htask : u.tasks i = some (.start req) := by
    cases move_of_step hcall with
    | call _ hfree => exact Function.update_self ..
  have hserves : u.Serves i req := ⟨_, htask, Task.request_start req⟩
  obtain ⟨⟨task, ht, hreq⟩, hpaid⟩ := hserves.exec hrest
  have hu : u.leftAt i = req.steps := by simp [leftAt, htask, Task.left_start]
  have hleft : t.leftAt i = task.left := by simp [leftAt, ht]
  rw [hu, hleft] at hpaid
  have hdone : task.left = 0 → ∃ reply, t.tasks i = some (.done req reply) := by
    intro hzero
    obtain ⟨reply, hreply⟩ := Task.left_eq_zero hzero
    rw [hreq] at hreply
    exact ⟨reply, by rw [ht, hreply]⟩
  refine ⟨by omega, fun hall => hdone (by omega), ?_⟩
  by_cases hzero : task.left = 0
  · exact .inl (hdone hzero)
  · right
    intro now
    rcases Task.stepChecked_cases t.service now task with hok | ⟨_, hover⟩
    · left
      obtain ⟨p, hp⟩ := Task.step_isSome hzero t.service now
      have hstep : t.stepChecked X (.advance i now) = some { t with
          store := p.2.store
          tombstones := p.2.tombstones
          tasks := Function.update t.tasks i (some p.1) } := by
        simp only [stepChecked, ht, hok, step, hp, Option.map_some]
      exact ⟨_, hstep⟩
    · right
      rwa [hreq] at hover

/-- A Delete of a Joining node, with another Delete of the key and a
sweep in between, is done after its third step. -/
theorem handlers_wait_free_delete :
    ∃ t, Trace.exec (stepChecked (.hyphenated fun _ => 0)) (start 0 ⟨2⟩ [⟨⟨1⟩, "a"⟩])
        [.call 0 (.delete "k"), .call 1 (.delete "k"), .advance 0 5, .advance 1 5, .purge 6,
          .advance 0 7, .advance 0 8] = some t
      ∧ ∃ reply, t.tasks 0 = some (.done (.delete "k") reply) := by
  obtain ⟨t, ht⟩ : ∃ t,
      Trace.exec (stepChecked (.hyphenated fun _ => 0)) (start 0 ⟨2⟩ [⟨⟨1⟩, "a"⟩])
      [.call 0 (.delete "k"), .call 1 (.delete "k"), .advance 0 5, .advance 1 5, .purge 6,
        .advance 0 7, .advance 0 8] = some t := ⟨_, rfl⟩
  exact ⟨t, ht, (handlers_wait_free _ ht).2.1 rfl⟩

/-! ## The rebalancer -/

theorem isSelfJoining_markSelfAlive (t : MembershipTable) :
    t.markSelfAlive.isSelfJoining = false := by
  rw [← Bool.not_eq_true, MembershipTable.isSelfJoining_iff,
    MembershipTable.localEntry_markSelfAlive]
  simp

/-- The rebalancer is asking a peer: everything until that peer's stream
has ended, broken off or failed to open is awaited, without a timeout.
The node itself, should it be listed, is skipped. -/
def Asking (s : NodeSys) : Prop :=
  ∃ ring peer peers, s.phase = .pulling ring (peer :: peers) ∧ peer.id ≠ s.table.localId

/-- The step is up to the peer asked. -/
def Answer (s : NodeSys) (e : RebalanceEvent) : Prop :=
  s.Asking ∧ (e = .nextPeer ∨ ∃ now c, e = .chunk now c)

/-- By its own steps, and by the answers of its peers if they are
`answered`, the rebalancer can finish, and then the node is not Joining. -/
def Finishes (X : Crates) (answered : Prop) (s : NodeSys) : Prop :=
  ∃ (own : List RebalanceEvent) (t : NodeSys),
    Trace.exec (rebalanceStep X) s own = some t
      ∧ Trace.Along (rebalanceStep X) (fun u e => u.Answer e → answered) s own
      ∧ t.phase = .done ∧ t.table.isSelfJoining = false

/-- There is no end without a peer's answer: one is still to be asked, or
none has been found yet. -/
def NeedsPeer (s : NodeSys) : Prop :=
  match s.phase with
  | .polling => True
  | .building => s.table.routablePeers ≠ []
  | .pulling _ peers => ∃ peer ∈ peers, peer.id ≠ s.table.localId
  | _ => False

section Finishes

variable {X : Crates} {answered : Prop} {s t : NodeSys}

theorem Finishes.of_step {e : RebalanceEvent} (h : t.Finishes X answered)
    (hstep : s.rebalanceStep X e = some t) (hanswer : s.Answer e → answered) :
    s.Finishes X answered := by
  obtain ⟨own, u, hrun, halong, hdone⟩ := h
  exact ⟨e :: own, u, Trace.exec_cons.mpr ⟨t, hstep, hrun⟩,
    Trace.along_of_step hstep hanswer halong, hdone⟩

theorem Finishes.of_own_step {e : RebalanceEvent} (h : t.Finishes X answered)
    (hstep : s.rebalanceStep X e = some t) (hnext : e ≠ .nextPeer)
    (hchunk : ∀ now c, e ≠ .chunk now c) : s.Finishes X answered := by
  refine h.of_step hstep ?_
  rintro ⟨_, he | ⟨now, c, he⟩⟩
  · exact absurd he hnext
  · exact absurd he (hchunk now c)

theorem finishes_done (h : s.phase = .done) (hadmits : s.table.isSelfJoining = false) :
    s.Finishes X answered :=
  ⟨[], s, rfl, trivial, h, hadmits⟩

theorem finishes_marking (h : s.phase = .marking) : s.Finishes X answered := by
  refine Finishes.of_own_step (e := .markAlive) (finishes_done (s := { s with
    gossip := { s.gossip with table := s.gossip.table.markSelfAlive }
    phase := .done }) rfl (isSelfJoining_markSelfAlive s.gossip.table)) ?_ (by simp) (by simp)
  simp only [rebalanceStep, h]

/-- Every key of the snapshot is visited in turn. -/
theorem finishes_applying {snapshot visited : Finset String}
    (h : s.phase = .applying snapshot visited) (hsub : snapshot ⊆ s.tombstones) :
    s.Finishes X answered := by
  induction hn : (snapshot \ visited).card generalizing s visited with
  | zero =>
      have hall : snapshot ⊆ visited :=
        Finset.sdiff_eq_empty_iff_subset.mp (Finset.card_eq_zero.mp hn)
      refine Finishes.of_own_step (e := .endPass)
        (finishes_marking (s := { s with phase := .marking }) rfl) ?_ (by simp) (by simp)
      simp only [rebalanceStep, h, if_pos hall]
  | succ n ih =>
      obtain ⟨key, hkey⟩ : ∃ key, key ∈ snapshot \ visited := by
        apply Finset.Nonempty.exists_mem
        rw [← Finset.card_pos]
        omega
      obtain ⟨hin, hnew⟩ := Finset.mem_sdiff.mp hkey
      have hless : (snapshot \ insert key visited).card = n := by
        rw [Finset.sdiff_insert, Finset.card_erase_of_mem hkey, hn]
        rfl
      refine Finishes.of_own_step (e := .visit key) (t := { s with
        store := (s.store.delete key).2
        phase := .applying snapshot (insert key visited) }) (ih rfl hsub hless) ?_ (by simp)
        (by simp)
      simp only [rebalanceStep, h, if_pos (⟨hsub hin, hnew⟩ : key ∈ s.tombstones ∧ key ∉ visited)]

theorem finishes_counted {n : Nat} (h : s.phase = .counted n) : s.Finishes X answered := by
  by_cases hn : 0 < n
  · refine Finishes.of_own_step (e := .beginPass) (finishes_applying
      (s := { s with phase := .applying s.tombstones ∅ }) rfl (Finset.Subset.refl _)) ?_ (by simp)
      (by simp)
    simp only [rebalanceStep, h, if_pos hn]
  · refine Finishes.of_own_step (e := .beginPass) (finishes_marking
      (s := { s with phase := .marking }) rfl) ?_ (by simp) (by simp)
    simp only [rebalanceStep, h, if_neg hn]

/-- Every peer still to be asked answers, or there is none but the node
itself. -/
theorem finishes_pulling {ring : HashRing} {peers : List NodeInfo}
    (h : s.phase = .pulling ring peers)
    (hanswers : ∀ peer ∈ peers, peer.id ≠ s.table.localId → answered) :
    s.Finishes X answered := by
  induction peers generalizing s with
  | nil =>
      refine Finishes.of_own_step (e := .count) (finishes_counted
        (s := { s with phase := .counted s.tombstones.card }) rfl) ?_ (by simp) (by simp)
      simp only [rebalanceStep, h]
  | cons peer peers ih =>
      refine Finishes.of_step (e := .nextPeer) (ih
        (s := { s with phase := .pulling ring peers }) rfl
        fun p hp => hanswers p (List.mem_cons_of_mem _ hp)) ?_ ?_
      · simp only [rebalanceStep, h]
      · rintro ⟨⟨_, _, _, hphase, hpeer⟩, _⟩
        rw [h] at hphase
        cases hphase
        exact hanswers peer List.mem_cons_self hpeer

theorem finishes_building (h : s.phase = .building)
    (hanswers : s.table.routablePeers ≠ [] → answered) : s.Finishes X answered := by
  let ring := SelfHealingCache.buildRing X s.table s.table.routablePeers
  refine Finishes.of_own_step (e := .buildRing s.table.routablePeers) (finishes_pulling (s := { s
    with phase := .pulling ring (s.table.routablePeers.map (·.info)) }) rfl ?_) ?_ (by simp)
    (by simp)
  · intro peer hpeer _
    obtain ⟨e, he, _⟩ := List.mem_map.mp hpeer
    exact hanswers (List.ne_nil_of_mem he)
  · simp only [rebalanceStep, h, if_pos (List.Perm.refl s.table.routablePeers), ring]

theorem finishes_polling (h : s.phase = .polling) (hpeers : s.table.routablePeers ≠ [])
    (hanswered : answered) : s.Finishes X answered := by
  refine Finishes.of_own_step (e := .poll) (finishes_building
    (s := { s with phase := .building }) rfl fun _ => hanswered) ?_ (by simp) (by simp)
  simp only [rebalanceStep, h, List.isEmpty_iff, if_neg hpeers]

/-- Without a routable peer the polling loop goes round. -/
theorem exec_waiting (h : s.phase = .polling) (hpeers : s.table.routablePeers = [])
    {own : List RebalanceEvent} (hrun : Trace.exec (rebalanceStep X) s own = some t) :
    t = s := by
  induction own with
  | nil =>
      cases hrun
      rfl
  | cons e own ih =>
      obtain ⟨u, hu, hrest⟩ := Trace.exec_cons.mp hrun
      obtain rfl : u = s := by
        cases rebalanceMove_of_step hu with
        | wait _ => rfl
        | converge _ hsome => exact absurd hpeers hsome
        | buildRing hphase _ | chunk hphase _ | nextPeer hphase | count hphase
          | beginPass hphase _ | skipPass hphase | visit hphase _ _ | endPass hphase _
          | markAlive hphase =>
            rw [h] at hphase
            cases hphase
      exact ih hrest

/-- Nothing but an answer ends the need for one. -/
theorem NeedsPeer.step {e : RebalanceEvent} (h : s.NeedsPeer)
    (hstep : s.rebalanceStep X e = some t) (hown : ¬ s.Answer e) : t.NeedsPeer := by
  cases rebalanceMove_of_step hstep with
  | wait _ => exact h
  | converge hphase hpeers => exact hpeers
  | @buildRing peers hphase hperm =>
      rw [NeedsPeer, hphase] at h
      obtain ⟨e, he⟩ := List.exists_mem_of_ne_nil _ h
      refine ⟨e.info, List.mem_map_of_mem (hperm.mem_iff.mpr he), ?_⟩
      exact (MembershipTable.mem_routablePeers.mp he).2.1
  | chunk hphase hpeer => exact absurd ⟨⟨_, _, _, hphase, hpeer⟩, .inr ⟨_, _, rfl⟩⟩ hown
  | nextPeer hphase =>
      rw [NeedsPeer, hphase] at h
      obtain ⟨peer, hmem, hpeer⟩ := h
      rcases List.mem_cons.mp hmem with rfl | hlater
      · exact absurd ⟨⟨_, _, _, hphase, hpeer⟩, .inl rfl⟩ hown
      · exact ⟨peer, hlater, hpeer⟩
  | count hphase =>
      rw [NeedsPeer, hphase] at h
      obtain ⟨_, hmem, _⟩ := h
      cases hmem
  | beginPass hphase _ | skipPass hphase | visit hphase _ _ | endPass hphase _
    | markAlive hphase =>
      rw [NeedsPeer, hphase] at h
      cases h

theorem not_finishes_of_needsPeer (h : s.NeedsPeer) : ¬ s.Finishes X False := by
  rintro ⟨own, t, hrun, halong, hdone, _⟩
  have hneeds : t.NeedsPeer :=
    Trace.exec_invariant (fun _ _ _ hs hown hstep => NeedsPeer.step hs hstep hown) h halong hrun
  rw [NeedsPeer, hdone] at hneeds
  exact hneeds

/-- **A silent peer holds the rebalancer up** whatever happens in the
process meanwhile. -/
theorem phase_of_silent_peer {ring : HashRing} {peer : NodeInfo} {peers : List NodeInfo}
    (hphase : s.phase = .pulling ring (peer :: peers)) {es : List NodeEvent}
    (hsilent : .rebalance .nextPeer ∉ es) (hrun : Trace.exec (step X) s es = some t) :
    t.phase = .pulling ring (peer :: peers) := by
  refine Trace.exec_invariant (I := fun u : NodeSys => u.phase = .pulling ring (peer :: peers))
    (C := fun _ e => e ≠ .rebalance .nextPeer) ?_ hphase
    (Trace.along_of_forall (by rintro e he rfl; exact hsilent he) s) hrun
  intro u e v hu hne hstep
  cases move_of_step hstep with
  | rebalance hre =>
      cases hre with
      | chunk _ _ => exact hu
      | nextPeer _ => exact absurd rfl hne
      | wait hother | converge hother _ | buildRing hother _ | count hother | beginPass hother _
        | skipPass hother | visit hother _ _ | endPass hother _ | markAlive hother =>
          rw [hu] at hother
          cases hother
  | _ => exact hu

end Finishes

/-- The tombstone pass goes over recorded tombstones, and with the
rebalance done the node is not Joining. -/
structure Settling (s : NodeSys) : Prop where
  snapshot : ∀ snapshot visited, s.phase = .applying snapshot visited → snapshot ⊆ s.tombstones
  admits : s.phase = .done → s.table.isSelfJoining = false

theorem settling_start (now : Instant) (localId : NodeId) (seeds : List NodeInfo) :
    (start now localId seeds).Settling where
  snapshot snapshot visited h := by
    simp only [start] at h
    split_ifs at h
  admits h := by
    have hempty : seeds.isEmpty = true := by
      by_contra hne
      simp [start, hne] at h
    rw [← Bool.not_eq_true, MembershipTable.isSelfJoining_iff]
    show (MembershipTable.new now localId seeds).localEntry.status ≠ _
    rw [(MembershipTable.localEntry_new now localId seeds).2, if_pos hempty]
    decide

theorem Settling.move {X : Crates} {s t : NodeSys} {e : NodeEvent} (h : s.Settling)
    (hmove : NodeMove X s e t) : t.Settling := by
  cases hmove with
  | @gossip e g hg =>
      refine ⟨h.snapshot, fun hphase => ?_⟩
      have hbefore := h.admits hphase
      rw [← Bool.not_eq_true, MembershipTable.isSelfJoining_iff] at hbefore ⊢
      -- gossip makes the node's own entry Alive or leaves its status
      rcases (advances_step (c := .gossip e) hg).status with halive | hsame
      · show g.table.localEntry.status ≠ _
        rw [halive]
        decide
      · show g.table.localEntry.status ≠ _
        rw [hsame]
        exact hbefore
  | purge now => exact ⟨h.snapshot, h.admits⟩
  | call req hfree => exact ⟨h.snapshot, h.admits⟩
  -- handlers add tombstones and never take one away
  | advance htask hmove =>
      exact ⟨fun snapshot visited hphase =>
        (h.snapshot snapshot visited hphase).trans hmove.tombstones_subset, h.admits⟩
  | rebalance hre =>
      cases hre with
      | wait _ => exact h
      | beginPass _ _ =>
          refine ⟨fun snapshot visited hphase => ?_, fun hphase => by cases hphase⟩
          cases hphase
          exact Finset.Subset.refl _
      | @visit snapshot visited key hphase _ _ =>
          refine ⟨fun snapshot' visited' hphase' => ?_, fun hphase => by cases hphase⟩
          cases hphase'
          exact h.snapshot snapshot visited hphase
      | markAlive _ =>
          refine ⟨fun snapshot visited hphase => ?_, fun _ => isSelfJoining_markSelfAlive _⟩
          cases hphase
      | @chunk ring peer peers now c hphase hpeer =>
          refine ⟨fun snapshot visited hphase' => ?_, fun hphase' => ?_⟩
          · exact h.snapshot snapshot visited hphase'
          · exact h.admits hphase'
      | _ =>
          refine ⟨fun snapshot visited hphase => ?_, fun hphase => ?_⟩
          · cases hphase
          · cases hphase

/-- Without a peer to wait for, every phase leads to the end. -/
theorem Settling.finishes {X : Crates} {answered : Prop} {s : NodeSys} (h : s.Settling)
    (hpeers : s.phase = .polling → s.table.routablePeers ≠ [])
    (hanswers : s.NeedsPeer → answered) : s.Finishes X answered := by
  rw [NeedsPeer] at hanswers
  cases hphase : s.phase with
  | polling =>
      rw [hphase] at hanswers
      exact finishes_polling hphase (hpeers hphase) (hanswers trivial)
  | building =>
      rw [hphase] at hanswers
      exact finishes_building hphase hanswers
  | pulling ring peers =>
      rw [hphase] at hanswers
      exact finishes_pulling hphase fun peer hpeer hid => hanswers ⟨peer, hpeer, hid⟩
  | counted n => exact finishes_counted hphase
  | applying snapshot visited =>
      exact finishes_applying hphase (h.snapshot snapshot visited hphase)
  | marking => exact finishes_marking hphase
  | done => exact finishes_done hphase (h.admits hphase)

/-- **What the rebalancer waits for.** At any moment of a node's life:
if its peers answer, the rebalancer can finish, with the node then not
Joining, unless it is in the polling loop and the table has no routable
peer; without an answer it can exactly when there is no peer left to ask;
and a peer that stays silent holds it up whatever else happens. -/
theorem rebalancer_finishes_iff (X : Crates) (now : Instant) (localId : NodeId)
    (seeds : List NodeInfo) {es : List NodeEvent} {s : NodeSys}
    (hrun : Trace.exec (step X) (start now localId seeds) es = some s) :
    (s.Finishes X True ↔ (s.phase = .polling → s.table.routablePeers ≠ []))
    ∧ (s.Finishes X False ↔ ¬ s.NeedsPeer)
    ∧ ∀ ring peer peers later t, s.phase = .pulling ring (peer :: peers) →
      .rebalance .nextPeer ∉ later → Trace.exec (step X) s later = some t →
      t.phase = .pulling ring (peer :: peers) := by
  have hsettling : s.Settling := Trace.exec_invariant (C := fun _ _ => True)
    (fun _ _ _ h _ hstep => h.move (move_of_step hstep)) (settling_start now localId seeds)
    (Trace.along_of_forall (fun _ _ => trivial) _) hrun
  refine ⟨⟨?_, ?_⟩, ⟨?_, ?_⟩, ?_⟩
  · intro ⟨own, t, hown, _, hdone, _⟩ hphase hnone
    rw [exec_waiting hphase hnone hown, hphase] at hdone
    cases hdone
  · intro hpeers
    exact hsettling.finishes hpeers fun _ => trivial
  · intro hfinishes hneeds
    exact not_finishes_of_needsPeer hneeds hfinishes
  · intro hnone
    refine hsettling.finishes (fun hphase => absurd ?_ hnone) hnone
    rw [NeedsPeer, hphase]
    trivial
  · intro ring peer peers later t hphase hsilent hlater
    exact phase_of_silent_peer hphase hsilent hlater

/-- A seed is routable from the start; a Delete is refused meanwhile and
its tombstone will be visited. The seed has to answer for that. -/
theorem rebalancer_finishes_seeded :
    ∃ s, Trace.exec (step (.hyphenated fun _ => 0)) (start 0 ⟨2⟩ [⟨⟨1⟩, "a"⟩])
        [.call 0 (.delete "k"), .advance 0 5, .advance 0 5] = some s
      ∧ s.Finishes (.hyphenated fun _ => 0) True ∧ ¬ s.Finishes (.hyphenated fun _ => 0) False := by
  obtain ⟨s, hs⟩ : ∃ s, Trace.exec (step (.hyphenated fun _ => 0)) (start 0 ⟨2⟩ [⟨⟨1⟩, "a"⟩])
      [.call 0 (.delete "k"), .advance 0 5, .advance 0 5] = some s := ⟨_, rfl⟩
  obtain ⟨hanswered, halone, _⟩ := rebalancer_finishes_iff _ 0 ⟨2⟩ [⟨⟨1⟩, "a"⟩] hs
  refine ⟨s, hs, hanswered.mpr fun _ => ?_, fun hfinishes => halone.mp hfinishes ?_⟩
  · cases hs
    decide
  · cases hs
    trivial

end NodeSys

end SelfHealingCache
