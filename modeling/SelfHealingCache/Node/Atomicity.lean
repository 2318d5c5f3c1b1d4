import SelfHealingCache.Node.Progress
import SelfHealingCache.Node.RespPipeline

/-!
# A node as one map

What many clients see of a standalone node, through both its servers at
once, as long as nothing is to expire: a MAP SERVER. Its handlers do
their whole work in one step, a `DEL` one key a step.

`NodeSys.points` says at which of its own steps a handler of the node
does that work; its other steps are tests of the joining flag and change
nothing. So a run of the node is a run of the map server with the same
calls, at the same places, and the same replies (`node_refines_map`):
every request takes effect at one instant between its call and its
reply.
-/

namespace SelfHealingCache

/-! ## The map server -/

/-- A handler of the map server. -/
inductive Job where
  | waiting (req : Request)
  /-- A `DEL` and the keys it has still to remove. -/
  | deleting (args : List RespValue) (keys : List String) (deleted : Nat)
  | finished (req : Request) (reply : Reply)

namespace Job

def start : Request → Job
  | .respDel args =>
      match parseDel args with
      | .error msg => .finished (.respDel args) (.resp (encodeError msg))
      | .ok keys => .deleting args keys 0
  | req => .waiting req

/-- One step of a handler on the map. -/
def perform (m : String → Option Bytes) : Job → Option (Job × (String → Option Bytes))
  | .waiting (.set req) =>
      some (.finished (.set req) (.set (.ok ⟨true⟩)), Function.update m req.key (some req.value))
  | .waiting (.replicateWrite req) =>
      some (.finished (.replicateWrite req) (.set (.ok ⟨true⟩)),
        Function.update m req.key (some req.value))
  | .waiting (.delete key) =>
      some (.finished (.delete key) (.delete (.ok ⟨(m key).isSome⟩)), Function.update m key none)
  | .waiting (.get key) =>
      some (.finished (.get key) (.get (.ok ⟨m key, (m key).isSome⟩)), m)
  | .waiting (.respSet args) =>
      match parseSet args with
      | .error msg => some (.finished (.respSet args) (.resp (encodeError msg)), m)
      | .ok (key, value, _) =>
          some (.finished (.respSet args) (.resp (encodeSimpleString "OK")),
            Function.update m key (some value))
  | .deleting args [] deleted =>
      some (.finished (.respDel args) (.resp (encodeInteger deleted)), m)
  | .deleting args (key :: keys) deleted =>
      some (.deleting args keys (if (m key).isSome then deleted + 1 else deleted),
        Function.update m key none)
  | _ => none

end Job

structure MapServer where
  map : String → Option Bytes
  jobs : Nat → Option Job

inductive MapEvent where
  | call (i : Nat) (req : Request)
  | perform (i : Nat)

namespace MapServer

def init : MapServer := ⟨fun _ => none, fun _ => none⟩

def step (s : MapServer) : MapEvent → Option MapServer
  | .call i req =>
      match s.jobs i with
      | none => some { s with jobs := Function.update s.jobs i (some (.start req)) }
      | some _ => none
  | .perform i =>
      match s.jobs i with
      | none => none
      | some job =>
          (job.perform s.map).map fun out => ⟨out.2, Function.update s.jobs i (some out.1)⟩

end MapServer

/-! ## Requests without an expiry -/

def Request.Plain : Request → Prop
  | .set req | .replicateWrite req => req.ttlMs = none
  | .respSet args => ∀ key value ttl, parseSet args = .ok (key, value, ttl) → ttl = none
  | .respExpire _ => False
  | _ => True

def NodeEvent.Plain : NodeEvent → Prop
  | .call _ req => req.Plain
  | _ => True

/-! ## One handler -/

namespace Task

/-- The handler of the map server this one stands for. -/
def job : Task → Job
  | .setCheck req | .setStore req => .waiting (.set req)
  | .deleteCheck key | .deleteTombstone key | .deleteStore key _ => .waiting (.delete key)
  | .replicate req => .waiting (.replicateWrite req)
  | .getLookup key | .getRemove key => .waiting (.get key)
  | .respSet args => .waiting (.respSet args)
  | .respDel args keys deleted => .deleting args keys deleted
  | .respExpire args => .waiting (.respExpire args)
  | .done req reply => .finished req reply

/-- The next step only tests the joining flag. -/
def tests : Task → Bool
  | .setCheck _ | .deleteCheck _ => true
  | _ => false

/-- No TTL, no joining, nothing expired. -/
def Plain : Task → Prop
  | .setCheck req | .setStore req | .replicate req => req.ttlMs = none
  | .respSet args => Request.Plain (.respSet args)
  | .deleteStore _ joining => joining = false
  | .deleteTombstone _ | .getRemove _ | .respExpire _ => False
  | _ => True

theorem job_start (req : Request) : (start req).job = .start req := by
  cases req with
  | respDel args =>
      rw [start, Job.start]
      cases parseDel args with
      | error msg => rfl
      | ok keys => rfl
  | _ => rfl

theorem plain_start {req : Request} (h : req.Plain) : (start req).Plain := by
  cases req with
  | respDel args =>
      rw [start]
      cases parseDel args with
      | error msg => trivial
      | ok keys => trivial
  | _ => exact h

/-- A read of a map without expiries finds what is there, at once. -/
theorem getLookup_of_holds {store : CacheStore} {m : String → Option Bytes} (h : HoldsMap store m)
    {srv : CacheService} (hstore : srv.store = store) (now : Instant) (key : String) :
    (getLookup key).step srv now
      = some (.done (.get key) (.get (.ok ⟨m key, (m key).isSome⟩)), srv) := by
  have hlook := h key
  rw [← hstore] at hlook
  rw [step, hlook]
  cases m key with
  | none => rfl
  | some v => rfl

/-- **One step of a handler** is a test, or is the step of its job. -/
theorem plain_step {srv srv' : CacheService} {now : Instant} {task task' : Task}
    {m : String → Option Bytes} (hplain : task.Plain) (hmap : HoldsMap srv.store m)
    (hjoining : srv.table.isSelfJoining = false) (h : task.step srv now = some (task', srv')) :
    task'.Plain
    ∧ if task.tests then task'.job = task.job ∧ srv'.store = srv.store
      else ∃ m', task.job.perform m = some (task'.job, m') ∧ HoldsMap srv'.store m' := by
  cases task with
  | setCheck req =>
      simp only [step, hjoining, Bool.false_eq_true, if_false] at h
      cases h
      exact ⟨hplain, rfl, rfl⟩
  | setStore req =>
      cases h
      have httl : req.ttlMs = none := hplain
      refine ⟨trivial, _, rfl, ?_⟩
      dsimp only
      rw [httl]
      exact hmap.set now req.key req.value
  | deleteCheck key =>
      simp only [step, hjoining, Bool.false_eq_true, if_false] at h
      cases h
      exact ⟨rfl, rfl, rfl⟩
  -- only a joining node comes to its tombstones
  | deleteTombstone key => cases hplain
  | deleteStore key joining =>
      have hjoin : joining = false := hplain
      subst hjoin
      cases h
      refine ⟨trivial, Function.update m key none, ?_, hmap.delete key⟩
      simp only [job, Job.perform, hmap.delete_fst, Bool.false_eq_true, if_false]
  | replicate req =>
      cases h
      have httl : req.ttlMs = none := hplain
      refine ⟨trivial, _, rfl, ?_⟩
      dsimp only
      rw [httl]
      exact hmap.set now req.key req.value
  | getLookup key =>
      rw [getLookup_of_holds hmap rfl] at h
      cases h
      exact ⟨trivial, m, rfl, hmap⟩
  -- nothing expires, so a read never has to remove
  | getRemove key => cases hplain
  | respSet args =>
      cases h
      refine ⟨trivial, ?_⟩
      simp only [tests, Bool.false_eq_true, if_false, job, Job.perform, cmdSet]
      cases hparse : parseSet args with
      | error msg => exact ⟨m, rfl, hmap⟩
      | ok parsed =>
          obtain ⟨key, value, ttl⟩ := parsed
          have httl : ttl = none := hplain key value ttl hparse
          rw [httl]
          exact ⟨_, rfl, hmap.set now key value⟩
  | respDel args keys deleted =>
      cases keys with
      | nil =>
          cases h
          exact ⟨trivial, m, rfl, hmap⟩
      | cons key keys =>
          cases h
          refine ⟨trivial, Function.update m key none, ?_, hmap.delete key⟩
          simp only [job, Job.perform, hmap.delete_fst]
  | respExpire args => cases hplain
  | done req reply => cases h

end Task

/-! ## The process -/

namespace NodeSys

/-- The steps of the map server that a step of the node stands for. -/
def points (s : NodeSys) : NodeEvent → List MapEvent
  | .call i req => [.call i req]
  | .advance i _ => if (s.tasks i).any Task.tests then [] else [.perform i]
  | _ => []

/-- A standalone node that holds the map, with the jobs of the server. -/
structure Stands (s : NodeSys) (a : MapServer) : Prop where
  standalone : s.phase = .done
  settling : s.Settling
  plain : ∀ i task, s.tasks i = some task → task.Plain
  jobs : a.jobs = fun i => (s.tasks i).map Task.job
  map : HoldsMap s.store a.map

theorem stands_start (now : Instant) (localId : NodeId) :
    (start now localId []).Stands .init where
  standalone := rfl
  settling := settling_start now localId []
  plain i task h := by cases h
  jobs := rfl
  map _ := rfl

theorem map_update (tasks : Nat → Option Task) (i : Nat) (task : Task) :
    (fun j => (Function.update tasks i (some task) j).map Task.job)
      = Function.update (fun j => (tasks j).map Task.job) i (some task.job) := by
  ext1 j
  rw [Function.update_apply, Function.update_apply]
  split_ifs
  · rfl
  · rfl

/-- **One step of the node** is the steps of the map server it stands
for. -/
theorem Stands.step {X : Crates} {s t : NodeSys} {a : MapServer} {e : NodeEvent}
    (h : s.Stands a) (hplain : e.Plain) (hstep : s.step X e = some t) :
    ∃ b, Trace.exec MapServer.step a (s.points e) = some b ∧ t.Stands b := by
  have hsettling := h.settling.move (move_of_step hstep)
  cases e with
  | gossip e =>
      obtain ⟨g, _, rfl⟩ := Option.map_eq_some_iff.mp hstep
      exact ⟨a, rfl, h.standalone, hsettling, h.plain, h.jobs, h.map⟩
  | purge now =>
      cases hstep
      refine ⟨a, rfl, h.standalone, hsettling, h.plain, h.jobs, fun k => ?_⟩
      -- the sweeper finds nothing expired
      rw [CacheStore.lookup_sweep, h.map k]
      cases a.map k with
      | none => rfl
      | some v => rfl
  | call i req =>
      simp only [NodeSys.step] at hstep
      split at hstep
      · rename_i hfree
        cases hstep
        have hjob : a.jobs i = none := by rw [h.jobs]; simp [hfree]
        refine ⟨{ a with jobs := Function.update a.jobs i (some (.start req)) },
          Trace.exec_cons.mpr ⟨_, by simp only [MapServer.step, hjob], rfl⟩, h.standalone,
          hsettling, forall_tasks_update h.plain i (Task.plain_start hplain), ?_, h.map⟩
        rw [map_update, Task.job_start, h.jobs]
      · cases hstep
  | advance i now =>
      simp only [NodeSys.step] at hstep
      split at hstep
      · cases hstep
      · rename_i task htask
        obtain ⟨⟨task', srv⟩, htaskStep, rfl⟩ := Option.map_eq_some_iff.mp hstep
        have hadmits : s.service.table.isSelfJoining = false := h.settling.admits h.standalone
        obtain ⟨hplain', hmove⟩ := Task.plain_step (h.plain i task htask) h.map hadmits htaskStep
        have hplains := forall_tasks_update h.plain i hplain'
        have hjob : a.jobs i = some task.job := by rw [h.jobs]; simp [htask]
        rw [points, htask, Option.any_some]
        split_ifs at hmove ⊢
        -- a test is no step of the map server, any other step is one
        · obtain ⟨hsame, hstore⟩ := hmove
          refine ⟨a, rfl, h.standalone, hsettling, hplains, ?_, ?_⟩
          · have hhere : some task.job = (s.tasks i).map Task.job := by rw [htask]; rfl
            rw [map_update, hsame, h.jobs, hhere]
            exact (Function.update_eq_self i fun j => (s.tasks j).map Task.job).symm
          · show HoldsMap srv.store a.map
            rw [hstore]
            exact h.map
        · obtain ⟨m', hperform, hmap'⟩ := hmove
          refine ⟨⟨m', Function.update a.jobs i (some task'.job)⟩, Trace.exec_cons.mpr ⟨_, ?_, rfl⟩,
            h.standalone, hsettling, hplains, ?_, hmap'⟩
          · simp only [MapServer.step, hjob, hperform, Option.map_some]
          · rw [map_update, h.jobs]
  | rebalance e =>
      -- the rebalancer of a standalone node has nothing to do
      have hdone := h.standalone
      cases rebalanceMove_of_step hstep with
      | wait hphase | converge hphase _ | buildRing hphase _ | chunk hphase _ | nextPeer hphase
        | count hphase | beginPass hphase _ | skipPass hphase | visit hphase _ _
        | endPass hphase _ | markAlive hphase =>
          rw [hdone] at hphase
          cases hphase

/-- **A standalone node is one map.** In any interleaving of its handlers
with each other, with gossip and with the sweeper, and with no request
for an expiry: the run is one of the map server, with the same calls, in
which every handler stands where the node's does and has given the same
reply, and the store holds the map. -/
theorem node_refines_map (X : Crates) (now : Instant) (localId : NodeId) {es : List NodeEvent}
    {t : NodeSys} (hrun : Trace.exec (NodeSys.step X) (start now localId []) es = some t)
    (hplain : ∀ e ∈ es, e.Plain) :
    ∃ m, Trace.exec MapServer.step .init
        (Trace.translate (NodeSys.step X) points (start now localId []) es)
        = some ⟨m, fun i => (t.tasks i).map Task.job⟩
      ∧ HoldsMap t.store m := by
  obtain ⟨b, hb, hstands⟩ := Trace.exec_simulates (R := Stands) (C := fun _ e => e.Plain)
    (f := points) (fun _ _ _ _ h hc hstep => h.step hc hstep) (stands_start now localId)
    (Trace.along_of_forall hplain _) hrun
  refine ⟨b.map, ?_, hstands.map⟩
  rw [hb, ← hstands.jobs]

/-- A `Set` is overtaken between its test and its write by another one,
which it overwrites, and a read in between finds the other value. -/
theorem node_refines_map_overtaken :
    ∃ t m, Trace.exec (NodeSys.step (.hyphenated fun _ => 0)) (start 0 ⟨1⟩ [])
        [.call 0 (.set ⟨"k", [1], none⟩), .advance 0 1, .call 1 (.replicateWrite ⟨"k", [2], none⟩),
          .advance 1 2, .call 2 (.get "k"), .advance 2 3, .advance 0 4] = some t
      ∧ Trace.exec MapServer.step .init
        [.call 0 (.set ⟨"k", [1], none⟩), .call 1 (.replicateWrite ⟨"k", [2], none⟩), .perform 1,
          .call 2 (.get "k"), .perform 2, .perform 0]
        = some ⟨m, fun i => (t.tasks i).map Task.job⟩
      ∧ HoldsMap t.store m := by
  obtain ⟨t, ht⟩ : ∃ t, Trace.exec (NodeSys.step (.hyphenated fun _ => 0)) (start 0 ⟨1⟩ [])
      [.call 0 (.set ⟨"k", [1], none⟩), .advance 0 1, .call 1 (.replicateWrite ⟨"k", [2], none⟩),
        .advance 1 2, .call 2 (.get "k"), .advance 2 3, .advance 0 4] = some t := ⟨_, rfl⟩
  obtain ⟨m, hm, hholds⟩ := node_refines_map (.hyphenated fun _ => 0) 0 ⟨1⟩ ht
    (by simp [NodeEvent.Plain, Request.Plain])
  exact ⟨t, m, ht, hm, hholds⟩

end NodeSys

end SelfHealingCache
