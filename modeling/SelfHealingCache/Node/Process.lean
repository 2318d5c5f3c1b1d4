import Mathlib.Data.Finset.Card
import SelfHealingCache.Node.GossipTask
import SelfHealingCache.Node.Rebalance
import SelfHealingCache.Node.Resp

/-!
# A node's process

Everything that runs in one node, interleaved: the gossip server and
loop, the request handlers of both servers, the rebalancer and the
expiry sweeper. They share the table, the tombstone set and the store
and hold no lock across two of them, so a handler is a TASK that takes
one atomic step at a time:

* gRPC `set`: test the joining flag; write.
* gRPC `delete`: test the flag; record the tombstone (if joining); remove.
* gRPC `replicate_write`, RESP `SET` and `EXPIRE`: one write each.
* RESP `DEL`: one removal a key.
* a read: look up and test the expiry; if expired, remove.

A finished task stays in the state with its reply. `exec_set` and its
siblings say that a task nobody interrupts is the handler of
`Node.Service`.

The other RESP commands have no task: `GET`, `EXISTS` and `TTL` look a
key up as a read does, `PING` and `ECHO` touch nothing. `Node.Resp` has
them uninterrupted, and `Node.TtlLinearization` the `TTL` cut at its two
calls. A pass of the expiry sweeper is one step. The tasks follow
commands whose expiry fits the clock; `NodeSys.stepChecked` of
`Node.Progress` is the process with the overflow panic of
`Instant::now() + ttl`.
-/

namespace SelfHealingCache

/-! ## Handlers as tasks -/

/-- The requests with a task. -/
inductive Request where
  | set (req : SetRequest)
  | delete (key : String)
  | replicateWrite (req : SetRequest)
  | get (key : String)
  | respSet (args : List RespValue)
  | respDel (args : List RespValue)
  | respExpire (args : List RespValue)

/-- What a request asks to be written: key, value and TTL. -/
def Request.write : Request → Option (String × Bytes × Option Duration)
  | .set req => some (req.key, req.value, req.ttlMs.map fromMillis)
  | .replicateWrite req => some (req.key, req.value, req.ttlMs.map fromMillis)
  | .respSet args => (parseSet args).toOption
  | _ => none

inductive Reply where
  | set (result : Except Status SetResponse)
  | delete (result : Except Status DeleteResponse)
  | get (result : Except Status GetResponse)
  | resp (bytes : Bytes)

/-- Where a handler stands. -/
inductive Task where
  | setCheck (req : SetRequest)
  | setStore (req : SetRequest)
  | deleteCheck (key : String)
  | deleteTombstone (key : String)
  | deleteStore (key : String) (joining : Bool)
  | replicate (req : SetRequest)
  | getLookup (key : String)
  | getRemove (key : String)
  | respSet (args : List RespValue)
  | respDel (args : List RespValue) (keys : List String) (deleted : Nat)
  | respExpire (args : List RespValue)
  | done (req : Request) (reply : Reply)

namespace Task

/-- The handler of a request, before its first step. -/
def start : Request → Task
  | .set req => .setCheck req
  | .delete key => .deleteCheck key
  | .replicateWrite req => .replicate req
  | .get key => .getLookup key
  | .respSet args => .respSet args
  | .respDel args =>
      match parseDel args with
      | .error msg => .done (.respDel args) (.resp (encodeError msg))
      | .ok keys => .respDel args keys 0
  | .respExpire args => .respExpire args

/-- One atomic step. -/
def step (srv : CacheService) (now : Instant) : Task → Option (Task × CacheService)
  | .setCheck req =>
      if srv.table.isSelfJoining then some (.done (.set req) (.set (.error .joining)), srv)
      else some (.setStore req, srv)
  | .setStore req =>
      some (.done (.set req) (.set (.ok ⟨true⟩)),
        { srv with store := srv.store.set now req.key req.value (req.ttlMs.map fromMillis) })
  | .deleteCheck key =>
      if srv.table.isSelfJoining then some (.deleteTombstone key, srv)
      else some (.deleteStore key false, srv)
  | .deleteTombstone key =>
      some (.deleteStore key true, { srv with tombstones := insert key srv.tombstones })
  | .deleteStore key joining =>
      some (.done (.delete key)
          (.delete (if joining then .error .joining else .ok ⟨(srv.store.delete key).1⟩)),
        { srv with store := (srv.store.delete key).2 })
  | .replicate req =>
      some (.done (.replicateWrite req) (.set (.ok ⟨true⟩)),
        { srv with store := srv.store.set now req.key req.value (req.ttlMs.map fromMillis) })
  | .getLookup key =>
      match srv.store.data.lookup key with
      | none => some (.done (.get key) (.get (.ok ⟨none, false⟩)), srv)
      | some entry =>
          if entry.live now
          then some (.done (.get key) (.get (.ok ⟨some entry.value, true⟩)), srv)
          else some (.getRemove key, srv)
  | .getRemove key =>
      some (.done (.get key) (.get (.ok ⟨none, false⟩)),
        { srv with store := (srv.store.delete key).2 })
  | .respSet args =>
      some (.done (.respSet args) (.resp (cmdSet args srv.store now).1),
        { srv with store := (cmdSet args srv.store now).2 })
  | .respDel args [] deleted =>
      some (.done (.respDel args) (.resp (encodeInteger deleted)), srv)
  | .respDel args (key :: keys) deleted =>
      some (.respDel args keys (if (srv.store.delete key).1 then deleted + 1 else deleted),
        { srv with store := (srv.store.delete key).2 })
  | .respExpire args =>
      some (.done (.respExpire args) (.resp (cmdExpire args srv.store now).1),
        { srv with store := (cmdExpire args srv.store now).2 })
  | .done _ _ => none

/-- One step, as a transition of handler and shared state together. -/
def transition (p : Task × CacheService) (now : Instant) : Option (Task × CacheService) :=
  p.1.step p.2 now

end Task

/-! ## Uninterrupted, a task is its handler -/

section Uninterrupted

variable (srv : CacheService) (now : Instant)

theorem exec_set (req : SetRequest) :
    ∃ n, Trace.exec Task.transition (.start (.set req), srv) (List.replicate n now)
      = some (.done (.set req) (.set (srv.set now req).1), (srv.set now req).2) := by
  by_cases hjoining : srv.table.isSelfJoining
  · exact ⟨1, by simp [Trace.exec, Task.transition, Task.start, Task.step, CacheService.set,
      hjoining]⟩
  · exact ⟨2, by simp [Trace.exec, Task.transition, Task.start, Task.step, CacheService.set,
      hjoining, List.replicate]⟩

theorem exec_delete (key : String) :
    ∃ n, Trace.exec Task.transition (.start (.delete key), srv) (List.replicate n now)
      = some (.done (.delete key) (.delete (srv.delete key).1), (srv.delete key).2) := by
  by_cases hjoining : srv.table.isSelfJoining
  · exact ⟨3, by simp [Trace.exec, Task.transition, Task.start, Task.step, CacheService.delete,
      hjoining, List.replicate]⟩
  · exact ⟨2, by simp [Trace.exec, Task.transition, Task.start, Task.step, CacheService.delete,
      hjoining, List.replicate]⟩

theorem exec_replicateWrite (req : SetRequest) :
    ∃ n, Trace.exec Task.transition (.start (.replicateWrite req), srv) (List.replicate n now)
      = some (.done (.replicateWrite req) (.set (srv.replicateWrite now req).1),
          (srv.replicateWrite now req).2) :=
  ⟨1, rfl⟩

theorem exec_get (key : String) :
    ∃ n, Trace.exec Task.transition (.start (.get key), srv) (List.replicate n now)
      = some (.done (.get key) (.get (srv.get now key).1), (srv.get now key).2) := by
  cases hlook : srv.store.data.lookup key with
  | none =>
      exact ⟨1, by simp [Trace.exec, Task.transition, Task.start, Task.step, CacheService.get,
        CacheStore.get, hlook]⟩
  | some entry =>
      cases hexp : entry.expiresAt with
      | none =>
          exact ⟨1, by simp [Trace.exec, Task.transition, Task.start, Task.step,
            CacheService.get, CacheStore.get, hlook, hexp, CacheEntry.live]⟩
      | some expiresAt =>
          by_cases hle : expiresAt ≤ now
          · have hdead : ¬ now < expiresAt := Nat.not_lt_of_le hle
            exact ⟨2, by simp [Trace.exec, Task.transition, Task.start, Task.step,
              CacheService.get, CacheStore.get, hlook, hexp, CacheEntry.live, hle, hdead,
              List.replicate, CacheStore.delete]⟩
          · exact ⟨1, by simp [Trace.exec, Task.transition, Task.start, Task.step,
              CacheService.get, CacheStore.get, hlook, hexp, CacheEntry.live, hle,
              Nat.lt_of_not_le hle]⟩

end Uninterrupted

/-! ## The process -/

structure NodeSys where
  gossip : GossipNode
  store : CacheStore
  tombstones : Finset String
  /-- The handlers, running and finished. -/
  tasks : Nat → Option Task
  /-- The rebalancer. -/
  phase : Phase

inductive NodeEvent where
  | gossip (e : GossipEvent)
  /-- A pass of the expiry sweeper. -/
  | purge (now : Instant)
  /-- A request arrives and is given a handler. -/
  | call (i : Nat) (req : Request)
  /-- Handler `i` takes its next step. -/
  | advance (i : Nat) (now : Instant)
  | rebalance (e : RebalanceEvent)

namespace NodeSys

/-- The table. -/
def table (s : NodeSys) : MembershipTable := s.gossip.table

/-- What a handler sees. -/
def service (s : NodeSys) : CacheService := ⟨s.store, s.table, s.tombstones⟩

/-- A process as `main` starts it. -/
def start (now : Instant) (localId : NodeId) (seedNodes : List NodeInfo) : NodeSys where
  gossip := ⟨.new now localId seedNodes, none⟩
  store := .new
  tombstones := ∅
  tasks _ := none
  phase := if seedNodes.isEmpty then .done else .polling

section Step

variable (X : Crates)

/-- One step of `wait_and_rebalance`. -/
def rebalanceStep (s : NodeSys) : RebalanceEvent → Option NodeSys
  | .poll =>
      match s.phase with
      | .polling =>
          if s.table.routablePeers.isEmpty then some s else some { s with phase := .building }
      | _ => none
  | .buildRing peers =>
      match s.phase with
      | .building =>
          if peers.Perm s.table.routablePeers
          then some { s with
            phase := .pulling (SelfHealingCache.buildRing X s.table peers) (peers.map (·.info)) }
          else none
      | _ => none
  | .chunk now c =>
      match s.phase with
      | .pulling ring (peer :: _) =>
          if peer.id ≠ s.table.localId
          then some { s with store := acceptChunk X s.table.localId ring s.store now c }
          else none
      | _ => none
  | .nextPeer =>
      match s.phase with
      | .pulling ring (_ :: peers) => some { s with phase := .pulling ring peers }
      | _ => none
  | .count =>
      match s.phase with
      | .pulling _ [] => some { s with phase := .counted s.tombstones.card }
      | _ => none
  | .beginPass =>
      match s.phase with
      | .counted tombstoneCount =>
          some { s with
            phase := if 0 < tombstoneCount then .applying s.tombstones ∅ else .marking }
      | _ => none
  | .visit key =>
      match s.phase with
      | .applying snapshot visited =>
          if key ∈ s.tombstones ∧ key ∉ visited
          then some { s with
            store := (s.store.delete key).2
            phase := .applying snapshot (insert key visited) }
          else none
      | _ => none
  | .endPass =>
      match s.phase with
      | .applying snapshot visited =>
          if snapshot ⊆ visited then some { s with phase := .marking } else none
      | _ => none
  | .markAlive =>
      match s.phase with
      | .marking =>
          some { s with
            gossip := { s.gossip with table := s.gossip.table.markSelfAlive }
            phase := .done }
      | _ => none

def step (s : NodeSys) : NodeEvent → Option NodeSys
  | .gossip e => (s.gossip.step X e).map fun g => { s with gossip := g }
  | .purge now => some { s with store := s.store.sweep now }
  | .call i req =>
      match s.tasks i with
      | none => some { s with tasks := Function.update s.tasks i (some (.start req)) }
      | some _ => none
  | .advance i now =>
      match s.tasks i with
      | none => none
      | some task =>
          (task.step s.service now).map fun p =>
            { s with
              store := p.2.store
              tombstones := p.2.tombstones
              tasks := Function.update s.tasks i (some p.1) }
  | .rebalance e => s.rebalanceStep X e

end Step

/-! ## What a step can be -/

/-- The moves of a handler. -/
inductive TaskMove (srv : CacheService) (now : Instant) : Task → Task → CacheService → Prop where
  | refuseSet {req : SetRequest} (hjoining : srv.table.isSelfJoining = true) :
      TaskMove srv now (.setCheck req) (.done (.set req) (.set (.error .joining))) srv
  | admitSet {req : SetRequest} (hjoining : srv.table.isSelfJoining = false) :
      TaskMove srv now (.setCheck req) (.setStore req) srv
  | set {req : SetRequest} :
      TaskMove srv now (.setStore req) (.done (.set req) (.set (.ok ⟨true⟩)))
        { srv with store := srv.store.set now req.key req.value (req.ttlMs.map fromMillis) }
  | refuseDelete {key : String} (hjoining : srv.table.isSelfJoining = true) :
      TaskMove srv now (.deleteCheck key) (.deleteTombstone key) srv
  | admitDelete {key : String} (hjoining : srv.table.isSelfJoining = false) :
      TaskMove srv now (.deleteCheck key) (.deleteStore key false) srv
  | tombstone {key : String} :
      TaskMove srv now (.deleteTombstone key) (.deleteStore key true)
        { srv with tombstones := insert key srv.tombstones }
  | delete {key : String} {joining : Bool} {reply : Reply} :
      TaskMove srv now (.deleteStore key joining) (.done (.delete key) reply)
        { srv with store := (srv.store.delete key).2 }
  | replicate {req : SetRequest} :
      TaskMove srv now (.replicate req) (.done (.replicateWrite req) (.set (.ok ⟨true⟩)))
        { srv with store := srv.store.set now req.key req.value (req.ttlMs.map fromMillis) }
  | read {key : String} {reply : Reply} :
      TaskMove srv now (.getLookup key) (.done (.get key) reply) srv
  | readExpired {key : String} {entry : CacheEntry}
      (hentry : srv.store.data.lookup key = some entry) (hdead : entry.live now = false) :
      TaskMove srv now (.getLookup key) (.getRemove key) srv
  | removeExpired {key : String} {reply : Reply} :
      TaskMove srv now (.getRemove key) (.done (.get key) reply)
        { srv with store := (srv.store.delete key).2 }
  | respSet {args : List RespValue} :
      TaskMove srv now (.respSet args)
        (.done (.respSet args) (.resp (cmdSet args srv.store now).1))
        { srv with store := (cmdSet args srv.store now).2 }
  | respDelEnd {args : List RespValue} {deleted : Nat} {reply : Reply} :
      TaskMove srv now (.respDel args [] deleted) (.done (.respDel args) reply) srv
  | respDel {args : List RespValue} {key : String} {keys : List String} {deleted more : Nat} :
      TaskMove srv now (.respDel args (key :: keys) deleted) (.respDel args keys more)
        { srv with store := (srv.store.delete key).2 }
  | respExpire {args : List RespValue} {reply : Reply} :
      TaskMove srv now (.respExpire args) (.done (.respExpire args) reply)
        { srv with store := (cmdExpire args srv.store now).2 }

theorem taskMove_of_step {srv srv' : CacheService} {now : Instant} {task task' : Task}
    (h : task.step srv now = some (task', srv')) : TaskMove srv now task task' srv' := by
  cases task with
  | setCheck req =>
      simp only [Task.step] at h
      split_ifs at h with hjoining
      · cases h
        exact .refuseSet hjoining
      · cases h
        exact .admitSet (by simpa using hjoining)
  | setStore req =>
      cases h
      exact .set
  | deleteCheck key =>
      simp only [Task.step] at h
      split_ifs at h with hjoining
      · cases h
        exact .refuseDelete hjoining
      · cases h
        exact .admitDelete (by simpa using hjoining)
  | deleteTombstone key =>
      cases h
      exact .tombstone
  | deleteStore key joining =>
      cases h
      exact .delete
  | replicate req =>
      cases h
      exact .replicate
  | getLookup key =>
      simp only [Task.step] at h
      split at h
      · cases h
        exact .read
      · rename_i entry hentry
        split_ifs at h with hlive
        · cases h
          exact .read
        · cases h
          exact .readExpired hentry (by simpa using hlive)
  | getRemove key =>
      cases h
      exact .removeExpired
  | respSet args =>
      cases h
      exact .respSet
  | respDel args keys deleted =>
      cases keys with
      | nil =>
          cases h
          exact .respDelEnd
      | cons key keys =>
          cases h
          exact .respDel
  | respExpire args =>
      cases h
      exact .respExpire
  | done req reply => cases h

/-- The moves of the rebalancer. -/
inductive RebalanceMove (X : Crates) (s : NodeSys) : RebalanceEvent → NodeSys → Prop where
  | wait (hphase : s.phase = .polling) : RebalanceMove X s .poll s
  | converge (hphase : s.phase = .polling) (hpeers : s.table.routablePeers ≠ []) :
      RebalanceMove X s .poll { s with phase := .building }
  | buildRing {peers : List MemberEntry} (hphase : s.phase = .building)
      (hpeers : peers.Perm s.table.routablePeers) :
      RebalanceMove X s (.buildRing peers) { s with
        phase := .pulling (SelfHealingCache.buildRing X s.table peers) (peers.map (·.info)) }
  | chunk {ring : HashRing} {peer : NodeInfo} {peers : List NodeInfo} {now : Instant}
      {c : TransferChunk} (hphase : s.phase = .pulling ring (peer :: peers))
      (hpeer : peer.id ≠ s.table.localId) : RebalanceMove X s (.chunk now c)
        { s with store := acceptChunk X s.table.localId ring s.store now c }
  | nextPeer {ring : HashRing} {peer : NodeInfo} {peers : List NodeInfo}
      (hphase : s.phase = .pulling ring (peer :: peers)) :
      RebalanceMove X s .nextPeer { s with phase := .pulling ring peers }
  | count {ring : HashRing} (hphase : s.phase = .pulling ring []) :
      RebalanceMove X s .count { s with phase := .counted s.tombstones.card }
  | beginPass {n : Nat} (hphase : s.phase = .counted n) (hn : 0 < n) :
      RebalanceMove X s .beginPass { s with phase := .applying s.tombstones ∅ }
  | skipPass (hphase : s.phase = .counted 0) :
      RebalanceMove X s .beginPass { s with phase := .marking }
  | visit {snapshot visited : Finset String} {key : String}
      (hphase : s.phase = .applying snapshot visited) (hkey : key ∈ s.tombstones)
      (hnew : key ∉ visited) : RebalanceMove X s (.visit key) { s with
        store := (s.store.delete key).2
        phase := .applying snapshot (insert key visited) }
  | endPass {snapshot visited : Finset String} (hphase : s.phase = .applying snapshot visited)
      (hall : snapshot ⊆ visited) : RebalanceMove X s .endPass { s with phase := .marking }
  | markAlive (hphase : s.phase = .marking) :
      RebalanceMove X s .markAlive { s with
        gossip := { s.gossip with table := s.gossip.table.markSelfAlive }
        phase := .done }

/-- The moves of the process. -/
inductive NodeMove (X : Crates) (s : NodeSys) : NodeEvent → NodeSys → Prop where
  | gossip {e : GossipEvent} {g : GossipNode} (h : s.gossip.step X e = some g) :
      NodeMove X s (.gossip e) { s with gossip := g }
  | purge (now : Instant) : NodeMove X s (.purge now) { s with store := s.store.sweep now }
  | call {i : Nat} (req : Request) (hfree : s.tasks i = none) :
      NodeMove X s (.call i req)
        { s with tasks := Function.update s.tasks i (some (.start req)) }
  | advance {i : Nat} {now : Instant} {task task' : Task} {srv : CacheService}
      (htask : s.tasks i = some task) (hmove : TaskMove s.service now task task' srv) :
      NodeMove X s (.advance i now) { s with
        store := srv.store
        tombstones := srv.tombstones
        tasks := Function.update s.tasks i (some task') }
  | rebalance {e : RebalanceEvent} {t : NodeSys} (h : RebalanceMove X s e t) :
      NodeMove X s (.rebalance e) t

theorem rebalanceMove_of_step {X : Crates} {s t : NodeSys} {e : RebalanceEvent}
    (h : s.rebalanceStep X e = some t) : RebalanceMove X s e t := by
  cases e with
  | poll =>
      simp only [rebalanceStep] at h
      split at h
      · rename_i hphase
        split_ifs at h with hpeers
        · cases h
          exact .wait hphase
        · cases h
          exact .converge hphase (by simpa using hpeers)
      · cases h
  | buildRing peers =>
      simp only [rebalanceStep] at h
      split at h
      · rename_i hphase
        split_ifs at h with hpeers
        cases h
        exact .buildRing hphase hpeers
      · cases h
  | chunk now c =>
      simp only [rebalanceStep] at h
      split at h
      · rename_i ring peer peers hphase
        split_ifs at h with hpeer
        cases h
        exact .chunk hphase hpeer
      · cases h
  | nextPeer =>
      simp only [rebalanceStep] at h
      split at h
      · rename_i ring peer peers hphase
        cases h
        exact .nextPeer hphase
      · cases h
  | count =>
      simp only [rebalanceStep] at h
      split at h
      · rename_i ring hphase
        cases h
        exact .count hphase
      · cases h
  | beginPass =>
      simp only [rebalanceStep] at h
      split at h
      · rename_i n hphase
        cases h
        cases n with
        | zero => exact .skipPass hphase
        | succ n => exact .beginPass hphase (Nat.succ_pos n)
      · cases h
  | visit key =>
      simp only [rebalanceStep] at h
      split at h
      · rename_i snapshot visited hphase
        split_ifs at h with hkey
        cases h
        exact .visit hphase hkey.1 hkey.2
      · cases h
  | endPass =>
      simp only [rebalanceStep] at h
      split at h
      · rename_i snapshot visited hphase
        split_ifs at h with hall
        cases h
        exact .endPass hphase hall
      · cases h
  | markAlive =>
      simp only [rebalanceStep] at h
      split at h
      · rename_i hphase
        cases h
        exact .markAlive hphase
      · cases h

/-- **Every step is one of the moves.** -/
theorem move_of_step {X : Crates} {s t : NodeSys} {e : NodeEvent} (h : s.step X e = some t) :
    NodeMove X s e t := by
  cases e with
  | gossip e =>
      obtain ⟨g, hg, rfl⟩ := Option.map_eq_some_iff.mp h
      exact .gossip hg
  | purge now =>
      cases h
      exact .purge now
  | call i req =>
      simp only [step] at h
      split at h
      · rename_i hfree
        cases h
        exact .call req hfree
      · cases h
  | advance i now =>
      simp only [step] at h
      split at h
      · cases h
      · rename_i task htask
        obtain ⟨⟨task', srv⟩, hstep, rfl⟩ := Option.map_eq_some_iff.mp h
        exact .advance htask (taskMove_of_step hstep)
  | rebalance e => exact .rebalance (rebalanceMove_of_step h)

/-- A property of all handlers, after one of them has moved. -/
theorem forall_tasks_update {Q : Task → Prop} {tasks : Nat → Option Task}
    (h : ∀ j task, tasks j = some task → Q task) (i : Nat) {moved : Task} (hmoved : Q moved) :
    ∀ j task, Function.update tasks i (some moved) j = some task → Q task := by
  intro j task hj
  by_cases hji : j = i
  · rw [hji, Function.update_self] at hj
    cases hj
    exact hmoved
  · rw [Function.update_of_ne hji] at hj
    exact h j task hj

end NodeSys

end SelfHealingCache
