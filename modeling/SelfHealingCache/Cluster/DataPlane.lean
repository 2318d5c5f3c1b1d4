import SelfHealingCache.Cluster.System
import SelfHealingCache.Node.Entries

/-!
# Where values come from

The cluster with the streams of `transfer_keys`: `streamed` is the list
of all chunks ever put on a stream, and a joiner pulls chunks out of it,
late, repeatedly, in any order or not at all.

`entries_for_transfer` reads the clock once and then walks the shards of
the store, and between two shards every other task goes on. So a call is
a WALK: it begins with the reading, and each of its visits looks up one
key in the store as it is then, for the reading of the beginning. Left to
itself it is `transferKeys` (`exec_walk`).

A value can be in a store because a client wrote it there or because it
was transferred, possibly through several nodes, and an entry can lose or
gain an expiry on the way. `Written` says what is left of that at the
end: some node has completed and acknowledged a write of that value under
that key, and one without a TTL if the value is never to expire.
-/

namespace SelfHealingCache

/-! ## Stores -/

/-- Where a value came from is no stronger for one that may expire. -/
theorem sourced_false {P : String → Bytes → Bool → Prop} (weaken : ∀ k v, P k v true → P k v false)
    {k : String} {v : Bytes} {forever : Bool} (h : P k v forever) : P k v false := by
  cases forever with
  | true => exact weaken k v h
  | false => exact h

namespace CacheStore

variable {P : String → Bytes → Bool → Prop} {s : CacheStore} {taken : Instant}

/-- Every entry has its key, its value and whether it never expires in
`P`. -/
def Sourced (P : String → Bytes → Bool → Prop) (s : CacheStore) : Prop :=
  ∀ k e, s.data.lookup k = some e → P k e.value e.expiresAt.isNone

/-- A visited chunk has the origin of its entry. -/
theorem Sourced.visit (h : s.Sourced P) {key : String} {c : TransferChunk}
    (hc : c ∈ s.visit taken key) : P c.key c.value c.expiresAtMs.isNone := by
  obtain ⟨e, he, rfl, hvalue, hms⟩ := entry_of_visit hc
  rw [hvalue, hms, Option.isNone_map]
  exact h c.key e he

end CacheStore

/-! ## One process -/

namespace NodeSys

variable {X : Crates} {P : String → Bytes → Bool → Prop}

/-- A handler that completes a write has it in `P`. -/
def Task.Completes (P : String → Bytes → Bool → Prop) (task : Task) : Prop :=
  ∀ req reply key value ttl, task = .done req reply → req.write = some (key, value, ttl) →
    reply.accepts → P key value ttl.isNone

theorem Task.Completes.leaves (weaken : ∀ k v, P k v true → P k v false) {task : Task}
    (h : Task.Completes P task) (now : Instant) :
    Task.Leaves (fun k e => P k e.value e.expiresAt.isNone) now task where
  write req reply key value ttl hdone hwrite hacc := by
    rw [Option.isNone_map]
    exact h req reply key value ttl hdone hwrite hacc
  expire _ _ _ _ _ _ _ he := sourced_false weaken he

theorem NodeMove.sourced (weaken : ∀ k v, P k v true → P k v false) {n n' : NodeSys}
    {e : NodeEvent} (h : n.store.Sourced P) (hmove : NodeMove X n e n')
    (hdone : ∀ i task, n'.tasks i = some task → Task.Completes P task)
    (hchunk : ∀ now c, e = .rebalance (.chunk now c) → P c.key c.value c.expiresAtMs.isNone) :
    n'.store.Sourced P := by
  refine NodeMove.every (R := fun k e => P k e.value e.expiresAt.isNone) h hmove ?_ ?_
  · intro i now task _ hi
    exact (hdone i task hi).leaves weaken now
  · intro now c he _
    rw [Option.isNone_map]
    exact hchunk now c he

/-- A finished handler stays as it is. -/
theorem NodeMove.done_kept {n n' : NodeSys} {e : NodeEvent} (hmove : NodeMove X n e n') {i : Nat}
    {req : Request} {reply : Reply} (h : n.tasks i = some (.done req reply)) :
    n'.tasks i = some (.done req reply) := by
  cases hmove with
  | gossip hg => exact h
  | purge now => exact h
  | @call j req' hfree =>
      have hij : i ≠ j := by
        rintro rfl
        rw [hfree] at h
        cases h
      exact (Function.update_of_ne hij ..).trans h
  | @advance j now task task' srv htask hmove =>
      have hij : i ≠ j := by
        rintro rfl
        rw [htask] at h
        cases h
        cases hmove
      exact (Function.update_of_ne hij ..).trans h
  | rebalance hre => cases hre <;> exact h

end NodeSys

/-- A read that finds something found it in the store. -/
theorem Task.lookup_of_read {srv srv' : CacheService} {now : Instant} {task : Task} {key : String}
    {value : Bytes} {found : Bool}
    (h : task.step srv now
      = some (.done (.get key) (.get (.ok ⟨some value, found⟩)), srv')) :
    ∃ e, srv.store.data.lookup key = some e ∧ e.value = value := by
  cases task with
  | getLookup k =>
      simp only [step] at h
      split at h
      · cases h
      · rename_i entry hlook
        split_ifs at h
        · cases h
          exact ⟨entry, hlook, rfl⟩
        · cases h
  | setCheck req => simp only [step] at h; split_ifs at h <;> cases h
  | deleteCheck k => simp only [step] at h; split_ifs at h <;> cases h
  | respDel args keys deleted => cases keys <;> cases h
  | setStore req => cases h
  | deleteTombstone k => cases h
  | deleteStore k joining => cases h
  | replicate req => cases h
  | getRemove k => cases h
  | respSet args => cases h
  | respExpire args => cases h
  | done req reply => cases h

namespace NodeSys

/-- Everything a finished read returned is in `P`. -/
def ReadsIn (P : String → Bytes → Bool → Prop) (n : NodeSys) : Prop :=
  ∀ i key value found, n.tasks i = some (.done (.get key) (.get (.ok ⟨some value, found⟩))) →
    P key value false

/-- A process starts with an empty store and no handler. -/
theorem sourced_start {P : String → Bytes → Bool → Prop} (now : Instant) (id : NodeId)
    (seeds : List NodeInfo) : (start now id seeds).store.Sourced P :=
  CacheStore.every_new

theorem readsIn_start {P : String → Bytes → Bool → Prop} (now : Instant) (id : NodeId)
    (seeds : List NodeInfo) : (start now id seeds).ReadsIn P := by
  intro i key value found hi
  cases hi

theorem ReadsIn.step {X : Crates} {P : String → Bytes → Bool → Prop}
    (weaken : ∀ k v, P k v true → P k v false) {n n' : NodeSys} {e : NodeEvent}
    (h : n.ReadsIn P) (hstore : n.store.Sourced P) (hstep : n.step X e = some n') :
    n'.ReadsIn P := by
  intro i key value found hi
  cases e with
  | gossip e =>
      obtain ⟨g, _, rfl⟩ := Option.map_eq_some_iff.mp hstep
      exact h i key value found hi
  | purge now =>
      cases hstep
      exact h i key value found hi
  | call j req =>
      simp only [NodeSys.step] at hstep
      split at hstep
      · cases hstep
        by_cases hij : i = j
        · subst hij
          have hstart : Task.start req = .done (.get key) (.get (.ok ⟨some value, found⟩)) := by
            simpa using hi
          -- only a DEL without keys is done as it starts, and it answers no read
          cases req with
          | respDel args =>
              simp only [Task.start] at hstart
              split at hstart <;> cases hstart
          | _ => cases hstart
        · exact h i key value found (by simpa [hij] using hi)
      · cases hstep
  | advance j now =>
      simp only [NodeSys.step] at hstep
      split at hstep
      · cases hstep
      · rename_i task htask
        obtain ⟨⟨task', srv⟩, htaskStep, rfl⟩ := Option.map_eq_some_iff.mp hstep
        by_cases hij : i = j
        · subst hij
          have hdone : task' = .done (.get key) (.get (.ok ⟨some value, found⟩)) := by
            simpa using hi
          rw [hdone] at htaskStep
          -- the reply is the entry that was looked up
          obtain ⟨entry, hlook, rfl⟩ := Task.lookup_of_read htaskStep
          exact sourced_false weaken (hstore key entry hlook)
        · exact h i key value found (by simpa [hij] using hi)
  | rebalance e =>
      cases rebalanceMove_of_step hstep <;> exact h i key value found hi

end NodeSys

/-! ## The cluster with its streams -/

/-- A call of `transfer_keys` at `source`, which read its clock as
`taken`. -/
structure Walk where
  source : NodeId
  taken : Instant

structure DataPlane where
  cluster : Cluster
  /-- The calls of `transfer_keys`, running and finished. -/
  walks : Nat → Option Walk
  /-- Every chunk ever put on a stream. -/
  streamed : List TransferChunk

inductive DataEvent where
  | cluster (e : ClusterEvent)
  /-- Call `i` of `transfer_keys` begins at node `id`. -/
  | transfer (i : Nat) (id : NodeId) (taken : Instant)
  /-- Call `i` comes to `key`. -/
  | visit (i : Nat) (key : String)

namespace DataPlane

def init (r : Router) : DataPlane := ⟨.init r, fun _ => none, []⟩

/-- What a joiner stores was streamed to it. -/
def carries (s : DataPlane) : ClusterEvent → Prop
  | .node _ (.rebalance (.chunk _ c)) => c ∈ s.streamed
  | _ => True

instance (s : DataPlane) (e : ClusterEvent) : Decidable (s.carries e) := by
  unfold carries
  split <;> infer_instance

def step (X : Crates) (monitored : List NodeId) (s : DataPlane) : DataEvent → Option DataPlane
  | .cluster e =>
      if s.carries e
      then (s.cluster.step X monitored e).map fun c => { s with cluster := c } else none
  | .transfer i id taken =>
      if (s.walks i).isNone ∧ (s.cluster.nodes id).isSome
      then some { s with walks := Function.update s.walks i (some ⟨id, taken⟩) } else none
  | .visit i key =>
      match s.walks i with
      | none => none
      | some walk =>
          (s.cluster.nodes walk.source).map fun n =>
            { s with streamed := n.store.visit walk.taken key ++ s.streamed }

/-- What a visit adds. -/
theorem visit_eq_some {X : Crates} {monitored : List NodeId} {s t : DataPlane} {i : Nat}
    {key : String} (h : s.step X monitored (.visit i key) = some t) :
    ∃ walk n, s.walks i = some walk ∧ s.cluster.nodes walk.source = some n
      ∧ t = { s with streamed := n.store.visit walk.taken key ++ s.streamed } := by
  rw [step] at h
  split at h
  · cases h
  · rename_i walk hwalk
    obtain ⟨n, hn, rfl⟩ := Option.map_eq_some_iff.mp h
    exact ⟨walk, n, hwalk, hn, rfl⟩

/-- **Uninterrupted, a walk is `transfer_keys`.** -/
theorem exec_walk {X : Crates} {monitored : List NodeId} {s : DataPlane} {i : Nat} {walk : Walk}
    {n : NodeSys} (hwalk : s.walks i = some walk) (hn : s.cluster.nodes walk.source = some n)
    {listing : List (String × CacheEntry)}
    (hlisted : ∀ p ∈ listing, n.store.data.lookup p.1 = some p.2) :
    Trace.exec (step X monitored) s (listing.map fun p => .visit i p.1)
      = some { s with streamed := (transferKeys walk.taken listing).reverse ++ s.streamed } := by
  induction listing generalizing s with
  | nil => rfl
  | cons p rest ih =>
      have hvisit : n.store.visit walk.taken p.1 = transferKeys walk.taken [p] := by
        rw [CacheStore.visit, hlisted p List.mem_cons_self]
      have hfirst : s.step X monitored (.visit i p.1)
          = some { s with streamed := transferKeys walk.taken [p] ++ s.streamed } := by
        simp only [step, hwalk, hn, Option.map_some, hvisit]
      have hrest := ih (s := { s with streamed := transferKeys walk.taken [p] ++ s.streamed }) hwalk
        hn fun q hq => hlisted q (List.mem_cons_of_mem _ hq)
      rw [List.map_cons, Trace.exec_cons]
      refine ⟨_, hfirst, ?_⟩
      rw [hrest, transferKeys_cons walk.taken p rest, List.reverse_append,
        reverse_transferKeys_singleton, List.append_assoc]

end DataPlane

namespace Cluster

/-- Some node has completed and acknowledged a write of `value` under
`key`; if `forever`, one without a TTL. -/
def Written (s : Cluster) (key : String) (value : Bytes) (forever : Bool) : Prop :=
  ∃ id n i req reply ttl, s.nodes id = some n ∧ n.tasks i = some (.done req reply)
    ∧ req.write = some (key, value, ttl) ∧ reply.accepts ∧ (forever = true → ttl = none)

theorem Written.weaken {s : Cluster} {key : String} {value : Bytes}
    (h : s.Written key value true) : s.Written key value false := by
  obtain ⟨id, n, i, req, reply, ttl, hn, hi, hwrite, hacc, _⟩ := h
  exact ⟨id, n, i, req, reply, ttl, hn, hi, hwrite, hacc, fun h => by cases h⟩

variable {X : Crates} {monitored : List NodeId}

/-- A finished handler stays, with its reply. -/
theorem Move.done_kept {s t : Cluster} {e : ClusterEvent} (hmove : Move X monitored s e t)
    {id : NodeId} {n : NodeSys} {i : Nat} {req : Request} {reply : Reply}
    (hn : s.nodes id = some n) (hi : n.tasks i = some (.done req reply)) :
    ∃ n', t.nodes id = some n' ∧ n'.tasks i = some (.done req reply) := by
  cases hmove with
  | @start now j seeds hfree =>
      have hid : id ≠ j := by
        rintro rfl
        rw [hn] at hfree
        cases hfree
      exact ⟨n, (Function.update_of_ne hid ..).trans hn, hi⟩
  | @node j ne m m' hm hears hnode =>
      by_cases hid : id = j
      · subst hid
        obtain rfl : n = m := Option.some.inj (hn.symm.trans hm)
        exact ⟨m', Function.update_self .., hnode.done_kept hi⟩
      · exact ⟨n, (Function.update_of_ne hid ..).trans hn, hi⟩
  | send now hm hlist => exact ⟨n, hn, hi⟩
  | router hobs hstep => exact ⟨n, hn, hi⟩

theorem Written.move {s t : Cluster} {e : ClusterEvent} (hmove : Move X monitored s e t)
    {key : String} {value : Bytes} {forever : Bool} (h : s.Written key value forever) :
    t.Written key value forever := by
  obtain ⟨id, n, i, req, reply, ttl, hn, hi, hrest⟩ := h
  obtain ⟨n', hn', hi'⟩ := hmove.done_kept hn hi
  exact ⟨id, n', i, req, reply, ttl, hn', hi', hrest⟩

theorem completes_written {s : Cluster} {id : NodeId} {n : NodeSys} (hn : s.nodes id = some n)
    {i : Nat} {task : Task} (hi : n.tasks i = some task) :
    NodeSys.Task.Completes s.Written task := by
  rintro req reply key value ttl rfl hwrite hacc
  refine ⟨id, n, i, req, reply, ttl, hn, hi, hwrite, hacc, fun hnone => ?_⟩
  cases ttl with
  | none => rfl
  | some _ => cases hnone

end Cluster

namespace DataPlane

variable {X : Crates} {monitored : List NodeId}

/-- The invariant: everything stored, streamed or read was written. -/
structure Sourced (s : DataPlane) : Prop where
  stores : ∀ id n, s.cluster.nodes id = some n → n.store.Sourced s.cluster.Written
  streamed : ∀ c ∈ s.streamed, s.cluster.Written c.key c.value c.expiresAtMs.isNone
  reads : ∀ id n, s.cluster.nodes id = some n → n.ReadsIn s.cluster.Written

theorem sourced_init (r : Router) : (init r).Sourced where
  stores id n hn := by cases hn
  streamed c hc := by cases hc
  reads id n hn := by cases hn

theorem Sourced.step {s t : DataPlane} {e : DataEvent} (h : s.Sourced)
    (hstep : s.step X monitored e = some t) : t.Sourced := by
  cases e with
  | transfer i id taken =>
      rw [DataPlane.step] at hstep
      split_ifs at hstep
      cases hstep
      exact ⟨h.stores, h.streamed, h.reads⟩
  | visit i key =>
      obtain ⟨walk, n, _, hn, rfl⟩ := visit_eq_some hstep
      refine ⟨h.stores, fun c hc => ?_, h.reads⟩
      rcases List.mem_append.mp hc with hnew | hold
      · exact (h.stores walk.source n hn).visit hnew
      · exact h.streamed c hold
  | cluster e =>
      rw [DataPlane.step] at hstep
      split_ifs at hstep with hcarries
      obtain ⟨c, hc, rfl⟩ := Option.map_eq_some_iff.mp hstep
      have hmove := Cluster.move_of_step hc
      -- what was written stays written, so the other nodes keep theirs
      have hmono : ∀ {key value forever}, s.cluster.Written key value forever →
          c.Written key value forever := fun hw => hw.move hmove
      have hstores : ∀ id n, s.cluster.nodes id = some n → n.store.Sourced c.Written :=
        fun id n hn k entry hlook => hmono (h.stores id n hn k entry hlook)
      have hreads : ∀ id n, s.cluster.nodes id = some n → n.ReadsIn c.Written :=
        fun id n hn i key value found hi => hmono (h.reads id n hn i key value found hi)
      have hstreamed : ∀ chunk ∈ s.streamed,
          c.Written chunk.key chunk.value chunk.expiresAtMs.isNone :=
        fun chunk hchunk => hmono (h.streamed chunk hchunk)
      refine ⟨?_, hstreamed, ?_⟩
      · cases hmove with
        | @start now id seeds hfree =>
            exact Cluster.forall_nodes_update hstores (NodeSys.sourced_start now id seeds)
        | @node id ne n n' hn hears hnode =>
            refine Cluster.forall_nodes_update hstores
              (hnode.sourced (fun _ _ => Cluster.Written.weaken) (hstores id n hn) ?_ ?_)
            -- a handler stores what its own request asked for
            · intro i task hi
              exact Cluster.completes_written (Function.update_self ..) hi
            -- the rebalancer stores a chunk that is on a stream
            · rintro now chunk rfl
              exact hstreamed chunk hcarries
        | send now hn hlist => exact hstores
        | router hobs hr => exact hstores
      · cases e with
        | start now id seeds =>
            rw [Cluster.step] at hc
            split at hc
            · cases hc
              exact Cluster.forall_nodes_update hreads (NodeSys.readsIn_start now id seeds)
            · cases hc
        | node id ne =>
            rw [Cluster.step] at hc
            split at hc
            · cases hc
            · rename_i n hn
              split_ifs at hc
              obtain ⟨n', hn', rfl⟩ := Option.map_eq_some_iff.mp hc
              exact Cluster.forall_nodes_update hreads
                ((hreads id n hn).step (fun _ _ => Cluster.Written.weaken) (hstores id n hn) hn')
        | send id now listing =>
            cases hmove
            exact hreads
        | router re =>
            cases hmove
            exact hreads

/-- **Every value was written.** In any run of the cluster, with any
number of joins, transfers that list a store while it changes, and any
loss, repetition and reordering of gossip and of the streamed chunks:
what a store holds, what is on a stream and what a
read has returned under a key is a value that some node has completed and
acknowledged a write of under that key; and an entry or a chunk without
an expiry stems from a write without a TTL. -/
theorem values_were_written (X : Crates) (monitored : List NodeId) (r : Router)
    {es : List DataEvent} {s : DataPlane}
    (hrun : Trace.exec (step X monitored) (init r) es = some s) :
    (∀ id n k e, s.cluster.nodes id = some n → n.store.data.lookup k = some e →
      s.cluster.Written k e.value e.expiresAt.isNone)
    ∧ (∀ c ∈ s.streamed, s.cluster.Written c.key c.value c.expiresAtMs.isNone)
    ∧ ∀ id n i key value found, s.cluster.nodes id = some n →
      n.tasks i = some (.done (.get key) (.get (.ok ⟨some value, found⟩))) →
      s.cluster.Written key value false := by
  have hsourced : s.Sourced :=
    Trace.exec_invariant (C := fun _ _ => True) (fun _ _ _ hs _ hstep => hs.step hstep)
      (sourced_init r) (Trace.along_of_forall (fun _ _ => trivial) _) hrun
  exact ⟨fun id n k e hn hlook => hsourced.stores id n hn k e hlook, hsourced.streamed,
    fun id n i key value found hn hi => hsourced.reads id n hn i key value found hi⟩

/-- Node 1 stores a value, streams it and answers a read; node 2 joins and
is given the chunk twice. -/
def storeAndStream : List DataEvent :=
  let seed : MemberEntry := ⟨⟨⟨1⟩, "a"⟩, .alive, 0, 0⟩
  [.cluster (.start 0 ⟨1⟩ []), .cluster (.node ⟨1⟩ (.call 0 (.set ⟨"k", [118], none⟩))),
    .cluster (.node ⟨1⟩ (.advance 0 1)), .cluster (.node ⟨1⟩ (.advance 0 1)),
    .transfer 0 ⟨1⟩ 2, .visit 0 "k", .cluster (.node ⟨1⟩ (.call 1 (.get "k"))),
    .cluster (.node ⟨1⟩ (.advance 1 3)), .cluster (.start 0 ⟨2⟩ [seed.info]),
    .cluster (.node ⟨2⟩ (.rebalance .poll)), .cluster (.node ⟨2⟩ (.rebalance (.buildRing [seed]))),
    .cluster (.node ⟨2⟩ (.rebalance (.chunk 3 ⟨"k", [118], none⟩))),
    .cluster (.node ⟨2⟩ (.rebalance (.chunk 4 ⟨"k", [118], none⟩)))]

theorem values_were_written_storeAndStream :
    ∃ s, Trace.exec (step (.hyphenated fun _ => 0) []) (init ⟨.new, .new⟩) storeAndStream = some s
      ∧ s.cluster.Written "k" [118] true := by
  obtain ⟨s, hrun, hstreamed⟩ : ∃ s,
      Trace.exec (step (.hyphenated fun _ => 0) []) (init ⟨.new, .new⟩) storeAndStream = some s
      ∧ s.streamed = [⟨"k", [118], none⟩] := ⟨_, rfl, rfl⟩
  have hchunk : (⟨"k", [118], none⟩ : TransferChunk) ∈ s.streamed := by
    rw [hstreamed]
    exact List.mem_singleton_self _
  exact ⟨s, hrun, (values_were_written _ [] _ hrun).2.1 _ hchunk⟩

end DataPlane

end SelfHealingCache
