import SelfHealingCache.Cluster.DataPlane

/-!
# How much life a key has left

A transfer does not carry the moment an entry expires but the time it has
LEFT, and every node counts from its own clock. So the time a chunk is on
the stream is added to the key's life, and at every hop again. That does
not raise the time that is left. One thing does: a walk of
`transfer_keys` reads its clock once, at the beginning, and a key that is
written while the walk is under way is listed with what it has left from
that reading on. So no store and no chunk ever gives a key more than some
request has asked for it, and on top of that the delays with which walks
have come to the key (`life_bounded`).

This rests on a promise of `Instant`: a process's clock never goes back,
so a reading is never ahead of the clock when it takes effect; it may be
behind. `Timed` is the cluster with the clocks, and `exec_plane` says that
its runs are runs of the cluster.
-/

namespace SelfHealingCache

/-- The key and the TTL a request asks for. -/
def Request.ttl : Request → Option (String × Duration)
  | .respExpire args => (parseExpire args).toOption
  | req => req.write.bind fun w => w.2.2.map (w.1, ·)

theorem Request.ttl_of_write {req : Request} {key : String} {value : Bytes} {ttl : Duration}
    (h : req.write = some (key, value, some ttl)) : req.ttl = some (key, ttl) := by
  cases req with
  | respExpire args => cases h
  | _ => simp [Request.ttl, h]

/-- What the entry has left at `now` is no more than some TTL in `P`. -/
def LeftWithin (P : String → Duration → Prop) (now : Instant) (k : String) (e : CacheEntry) :
    Prop :=
  ∀ inst, e.expiresAt = some inst → ∃ ttl, P k ttl ∧ inst ≤ now + ttl

section LeftWithin

variable {P : String → Duration → Prop} {now later : Instant} {k : String} {e : CacheEntry}

theorem LeftWithin.at_later (h : LeftWithin P now k e) (hle : now ≤ later) :
    LeftWithin P later k e := by
  intro inst hinst
  obtain ⟨ttl, hP, hbound⟩ := h inst hinst
  exact ⟨ttl, hP, hbound.trans (Nat.add_le_add_right hle ttl)⟩

theorem LeftWithin.mono {P' : String → Duration → Prop} (h : LeftWithin P now k e)
    (hP : ∀ k ttl, P k ttl → P' k ttl) : LeftWithin P' now k e := by
  intro inst hinst
  obtain ⟨ttl, hin, hbound⟩ := h inst hinst
  exact ⟨ttl, hP k ttl hin, hbound⟩

/-- The time a chunk gives its key is no more than some TTL in `P`. -/
def TransferChunk.LeftWithin (P : String → Duration → Prop) (c : TransferChunk) : Prop :=
  ∀ ms, c.expiresAtMs = some ms → ∃ ttl, P c.key ttl ∧ fromMillis ms ≤ ttl

/-- A visit lists the key with what it has left, and with what has gone
by since the walk began. -/
theorem leftWithin_visit {s : CacheStore} (h : s.Every (LeftWithin P now)) {taken : Instant}
    {key : String} {c : TransferChunk} (hc : c ∈ s.visit taken key) :
    c.LeftWithin fun k d => ∃ d', P k d' ∧ d = d' + (now - taken) := by
  intro ms hms
  obtain ⟨e, he, rfl, _, hleft⟩ := CacheStore.entry_of_visit hc
  rw [hleft] at hms
  obtain ⟨inst, hinst, rfl⟩ := Option.map_eq_some_iff.mp hms
  obtain ⟨d, hP, hbound⟩ := h c.key e he inst hinst
  refine ⟨_, ⟨d, hP, rfl⟩, (CacheStore.fromMillis_remainingMs_le taken inst).trans ?_⟩
  unfold Instant Duration at *
  omega

/-- Counted from where it is stored, it has that much left. -/
theorem TransferChunk.LeftWithin.entry {c : TransferChunk} (h : c.LeftWithin P) :
    SelfHealingCache.LeftWithin P now c.key
      ⟨c.value, c.expiresAtMs.map fun ms => now + fromMillis ms⟩ := by
  intro inst hinst
  obtain ⟨ms, hms, rfl⟩ := Option.map_eq_some_iff.mp hinst
  obtain ⟨ttl, hP, hbound⟩ := h ms hms
  exact ⟨ttl, hP, Nat.add_le_add_left hbound now⟩

end LeftWithin

/-! ## What was asked for -/

namespace Cluster

variable {X : Crates} {monitored : List NodeId}

/-- Some node has acknowledged a write of `key` with `ttl`, or answered an
EXPIRE of it. -/
def Granted (s : Cluster) (key : String) (ttl : Duration) : Prop :=
  ∃ id n i req reply, s.nodes id = some n ∧ n.tasks i = some (.done req reply)
    ∧ req.ttl = some (key, ttl) ∧ (reply.accepts ∨ ∃ args, req = .respExpire args)

theorem Granted.move {s t : Cluster} {e : ClusterEvent} (hmove : Move X monitored s e t)
    {key : String} {ttl : Duration} (h : s.Granted key ttl) : t.Granted key ttl := by
  obtain ⟨id, n, i, req, reply, hn, hi, hreq⟩ := h
  obtain ⟨n', hn', hi'⟩ := hmove.done_kept hn hi
  exact ⟨id, n', i, req, reply, hn', hi', hreq⟩

/-- A handler that ends leaves what its request asks for, counted from
a reading that may be some time old. -/
theorem leaves_granted {s : Cluster} {id : NodeId} {n : NodeSys} (hn : s.nodes id = some n)
    {i : Nat} {task : Task} (hi : n.tasks i = some task) {now later : Instant}
    (hle : now ≤ later) : NodeSys.Task.Leaves (LeftWithin s.Granted later) now task where
  write req reply key value ttl hdone hwrite hacc inst hinst := by
    subst hdone
    obtain ⟨asked, rfl, rfl⟩ := Option.map_eq_some_iff.mp hinst
    exact ⟨asked, ⟨id, n, i, req, reply, hn, hi, Request.ttl_of_write hwrite, .inl hacc⟩,
      Nat.add_le_add_right hle asked⟩
  expire args reply key ttl e hdone hparse _ inst hinst := by
    subst hdone
    cases hinst
    refine ⟨ttl, ⟨id, n, i, .respExpire args, reply, hn, hi, ?_, .inr ⟨args, rfl⟩⟩,
      Nat.add_le_add_right hle ttl⟩
    rw [Request.ttl, hparse]
    rfl

end Cluster

/-! ## Clocks -/

/-- Whose clock has been read for the step, and what it said. -/
def DataEvent.reads : DataEvent → Option (NodeId × Instant)
  | .transfer _ id taken => some (id, taken)
  | .visit _ _ => none
  | .cluster (.node id (.advance _ now)) => some (id, now)
  | .cluster (.node id (.purge now)) => some (id, now)
  | .cluster (.node id (.rebalance (.chunk now _))) => some (id, now)
  | .cluster _ => none

inductive TimedEvent where
  /-- Time passes at node `id`. -/
  | tick (id : NodeId) (now : Instant)
  | data (e : DataEvent)

/-- The event of the cluster. -/
def TimedEvent.data? : TimedEvent → Option DataEvent
  | .tick _ _ => none
  | .data e => some e

structure Timed where
  plane : DataPlane
  /-- What the clock of each process says. -/
  clock : NodeId → Instant
  /-- For every key the time between the reading of a walk and its visit
  of the key, summed over the visits. -/
  lag : String → Duration

namespace Timed

variable {X : Crates} {monitored : List NodeId}

def init (r : Router) : Timed := ⟨.init r, fun _ => 0, fun _ => 0⟩

/-- How late the walk comes to `key`. -/
def delay (s : Timed) (key : String) : TimedEvent → Duration
  | .data (.visit i k) =>
      match s.plane.walks i with
      | some walk => if k = key then s.clock walk.source - walk.taken else 0
      | none => 0
  | _ => 0

def step (X : Crates) (monitored : List NodeId) (s : Timed) (e : TimedEvent) : Option Timed :=
  match e with
  | .tick id now =>
      if s.clock id ≤ now then some { s with clock := Function.update s.clock id now } else none
  | .data d =>
      if d.reads.all fun r => r.2 ≤ s.clock r.1
      then (s.plane.step X monitored d).map fun p =>
        { s with plane := p, lag := fun key => s.lag key + s.delay key e }
      else none

theorem tick_eq_some {s t : Timed} {id : NodeId} {now : Instant}
    (h : s.step X monitored (.tick id now) = some t) :
    s.clock id ≤ now ∧ t = { s with clock := Function.update s.clock id now } := by
  simp only [step] at h
  split_ifs at h with hle
  cases h
  exact ⟨hle, rfl⟩

/-- A step of the cluster takes no time, and no reading is ahead of it. -/
theorem data_eq_some {s t : Timed} {d : DataEvent}
    (h : s.step X monitored (.data d) = some t) :
    (∀ id now, d.reads = some (id, now) → now ≤ s.clock id)
      ∧ ∃ p, s.plane.step X monitored d = some p
        ∧ t = { s with plane := p, lag := fun key => s.lag key + s.delay key (.data d) } := by
  simp only [step] at h
  split_ifs at h with hreads
  obtain ⟨p, hp, rfl⟩ := Option.map_eq_some_iff.mp h
  refine ⟨fun id now hsome => ?_, p, hp, rfl⟩
  rw [hsome] at hreads
  simpa using hreads

/-- **Timed runs are runs.** -/
theorem exec_plane {s t : Timed} {es : List TimedEvent}
    (h : Trace.exec (step X monitored) s es = some t) :
    Trace.exec (DataPlane.step X monitored) s.plane (es.filterMap TimedEvent.data?)
      = some t.plane := by
  induction es generalizing s with
  | nil =>
      cases h
      rfl
  | cons e es ih =>
      obtain ⟨u, hu, hrest⟩ := Trace.exec_cons.mp h
      cases e with
      | tick id now =>
          obtain ⟨_, rfl⟩ := tick_eq_some hu
          exact ih (s := { s with clock := Function.update s.clock id now }) hrest
      | data d =>
          obtain ⟨_, p, hp, rfl⟩ := data_eq_some hu
          exact Trace.exec_cons.mpr ⟨p, hp, ih (s := { s with plane := p, lag := _ }) hrest⟩

/-! ## The bound -/

/-- Time a key may have: what was asked for it, and the delays of the
walks. -/
def Allowed (s : Timed) (key : String) (d : Duration) : Prop :=
  ∃ ttl, s.plane.cluster.Granted key ttl ∧ d ≤ ttl + s.lag key

/-- The invariant: no store and no chunk gives a key more time. -/
structure Bounded (s : Timed) : Prop where
  stores : ∀ id n, s.plane.cluster.nodes id = some n →
    n.store.Every (LeftWithin s.Allowed (s.clock id))
  streamed : ∀ c ∈ s.plane.streamed, c.LeftWithin s.Allowed

theorem bounded_init (r : Router) : (init r).Bounded where
  stores id n hn := by cases hn
  streamed c hc := by cases hc

theorem Bounded.tick {s : Timed} (h : s.Bounded) {id : NodeId} {now : Instant}
    (hle : s.clock id ≤ now) :
    Bounded { s with clock := Function.update s.clock id now } := by
  refine ⟨fun j n hn => (h.stores j n hn).mono fun k e he => LeftWithin.at_later he ?_,
    h.streamed⟩
  show s.clock j ≤ Function.update s.clock id now j
  by_cases hj : j = id
  · rw [hj, Function.update_self]
    exact hle
  · rw [Function.update_of_ne hj]

/-- One process takes a step. -/
theorem Bounded.node {s t : Timed} (h : s.Bounded) {id : NodeId} {n n' : NodeSys} {e : NodeEvent}
    (hn : s.plane.cluster.nodes id = some n) (hn' : t.plane.cluster.nodes id = some n')
    (hgrow : ∀ k d, s.Allowed k d → t.Allowed k d) (hcarries : s.plane.carries (.node id e))
    (hreads : ∀ j now, (DataEvent.cluster (.node id e)).reads = some (j, now) → now ≤ s.clock j)
    (hmove : NodeSys.NodeMove X n e n') :
    n'.store.Every (LeftWithin t.Allowed (s.clock id)) := by
  have hgranted : ∀ k ttl, t.plane.cluster.Granted k ttl → t.Allowed k ttl :=
    fun k ttl hg => ⟨ttl, hg, Nat.le_add_right _ _⟩
  refine hmove.every ((h.stores id n hn).mono fun k e he => LeftWithin.mono he hgrow) ?_ ?_
  · rintro i now task rfl hi
    obtain ⟨hwrite, hexpire⟩ := Cluster.leaves_granted hn' hi (hreads id now rfl)
    constructor
    · intro req reply key value ttl hdone hasks hacc
      exact (hwrite req reply key value ttl hdone hasks hacc).mono hgranted
    · intro args reply key ttl e hdone hparse _
      refine (hexpire args reply key ttl ⟨e.value, none⟩ hdone hparse ?_).mono hgranted
      intro inst hinst
      cases hinst
  · rintro now chunk rfl _
    have hchunk : chunk.LeftWithin t.Allowed := fun ms hms => by
      obtain ⟨d, hd, hbound⟩ := h.streamed chunk hcarries ms hms
      exact ⟨d, hgrow _ d hd, hbound⟩
    exact (TransferChunk.LeftWithin.entry hchunk).at_later (hreads id now rfl)

/-- What was allowed stays allowed: requests stay granted, and the lag
only grows. -/
theorem allowed_mono {s t : Timed}
    (hgranted : ∀ k ttl, s.plane.cluster.Granted k ttl → t.plane.cluster.Granted k ttl)
    (hlag : ∀ k, s.lag k ≤ t.lag k) (k : String) (d : Duration) (h : s.Allowed k d) :
    t.Allowed k d := by
  obtain ⟨ttl, hg, hd⟩ := h
  exact ⟨ttl, hgranted k ttl hg, hd.trans (Nat.add_le_add_left (hlag k) ttl)⟩

theorem Bounded.visit {s t : Timed} (h : s.Bounded) {i : Nat} {key : String}
    (hstep : s.step X monitored (.data (.visit i key)) = some t) : t.Bounded := by
  obtain ⟨_, p, hp, rfl⟩ := data_eq_some hstep
  obtain ⟨walk, n, hwalk, hn, rfl⟩ := DataPlane.visit_eq_some hp
  have hgrow := allowed_mono (s := s) (t := { s with
    plane := { s.plane with streamed := n.store.visit walk.taken key ++ s.plane.streamed }
    lag := fun k => s.lag k + s.delay k (.data (.visit i key)) }) (fun _ _ hg => hg)
    fun k => Nat.le_add_right _ _
  refine ⟨fun j m hm => (h.stores j m hm).mono fun k e he => LeftWithin.mono he hgrow,
    fun c hc ms hms => ?_⟩
  rcases List.mem_append.mp hc with hnew | hold
  · -- what the entry has left, and how late the walk is, which is added to the lag
    obtain ⟨_, _, hkey, _⟩ := CacheStore.entry_of_visit hnew
    obtain ⟨_, ⟨d, ⟨ttl, hg, hd⟩, rfl⟩, hbound⟩ :=
      leftWithin_visit (h.stores walk.source n hn) hnew ms hms
    refine ⟨_, ⟨ttl, hg, ?_⟩, hbound⟩
    have hdelay : s.delay c.key (.data (.visit i key)) = s.clock walk.source - walk.taken := by
      simp only [delay, hwalk, hkey, if_true]
    show d + _ ≤ ttl + (s.lag c.key + s.delay c.key (.data (.visit i key)))
    rw [hdelay, ← Nat.add_assoc]
    exact Nat.add_le_add_right hd _
  · obtain ⟨d, hd, hbound⟩ := h.streamed c hold ms hms
    exact ⟨d, hgrow _ d hd, hbound⟩

theorem Bounded.cluster {s t : Timed} {e : ClusterEvent} (h : s.Bounded)
    (hstep : s.step X monitored (.data (.cluster e)) = some t) : t.Bounded := by
  obtain ⟨hreads, p, hp, rfl⟩ := data_eq_some hstep
  rw [DataPlane.step] at hp
  split_ifs at hp with hcarries
  obtain ⟨c, hc, rfl⟩ := Option.map_eq_some_iff.mp hp
  have hmove := Cluster.move_of_step hc
  have hgrow := allowed_mono (s := s) (t := { s with
    plane := { s.plane with cluster := c }
    lag := fun k => s.lag k + s.delay k (.data (.cluster e)) })
    (fun _ _ hg => Cluster.Granted.move hmove hg) fun k => Nat.le_add_right _ _
  have hold := fun j m hm => (h.stores j m hm).mono fun k e he => LeftWithin.mono he hgrow
  refine ⟨?_, fun chunk hchunk ms hms => ?_⟩
  · cases hmove with
    | start now seeds hfree => exact Cluster.forall_nodes_update hold CacheStore.every_new
    | @node id ne n n' hn hears hnode =>
        refine Cluster.forall_nodes_update hold (h.node hn ?_ hgrow hcarries hreads hnode)
        exact Function.update_self ..
    | send now hn hlist => exact hold
    | router hobs hr => exact hold
  · obtain ⟨d, hd, hbound⟩ := h.streamed chunk hchunk ms hms
    exact ⟨d, hgrow _ d hd, hbound⟩

theorem Bounded.step {s t : Timed} {e : TimedEvent} (h : s.Bounded)
    (hstep : s.step X monitored e = some t) : t.Bounded := by
  cases e with
  | tick id now =>
      obtain ⟨hle, rfl⟩ := tick_eq_some hstep
      exact h.tick hle
  | data d =>
      cases d with
      | cluster e => exact h.cluster hstep
      | visit i key => exact h.visit hstep
      | transfer i id taken =>
          obtain ⟨_, p, hp, rfl⟩ := data_eq_some hstep
          rw [DataPlane.step] at hp
          split_ifs at hp
          cases hp
          exact ⟨h.stores, h.streamed⟩

/-- **Nothing outlives what was asked for it**, but for the delays of the
walks. In any run of the cluster in which no process's clock goes back,
with any number of transfers, lost, late or repeated: what an entry has
left by its node's clock, and what a chunk gives its key, is at most a
TTL that a write or an EXPIRE of that key was given, and the lag of that
key; and the lag is zero if every walk comes to the key without delay. -/
theorem life_bounded (X : Crates) (monitored : List NodeId) (r : Router)
    {es : List TimedEvent} {s : Timed}
    (hrun : Trace.exec (step X monitored) (init r) es = some s) :
    (∀ id n k e inst, s.plane.cluster.nodes id = some n → n.store.data.lookup k = some e →
      e.expiresAt = some inst →
      ∃ ttl, s.plane.cluster.Granted k ttl ∧ inst ≤ s.clock id + (ttl + s.lag k))
    ∧ (∀ c ∈ s.plane.streamed, ∀ ms, c.expiresAtMs = some ms →
      ∃ ttl, s.plane.cluster.Granted c.key ttl ∧ fromMillis ms ≤ ttl + s.lag c.key)
    ∧ ∀ k, Trace.Along (step X monitored) (fun u e => u.delay k e = 0) (init r) es →
      s.lag k = 0 := by
  have hbounded : s.Bounded :=
    Trace.exec_invariant (C := fun _ _ => True) (fun _ _ _ hs _ hstep => hs.step hstep)
      (bounded_init r) (Trace.along_of_forall (fun _ _ => trivial) _) hrun
  refine ⟨fun id n k e inst hn he hinst => ?_, fun c hc ms hms => ?_, fun k hprompt => ?_⟩
  · obtain ⟨d, ⟨ttl, hg, hd⟩, hbound⟩ := hbounded.stores id n hn k e he inst hinst
    exact ⟨ttl, hg, hbound.trans (Nat.add_le_add_left hd _)⟩
  · obtain ⟨d, ⟨ttl, hg, hd⟩, hbound⟩ := hbounded.streamed c hc ms hms
    exact ⟨ttl, hg, hbound.trans hd⟩
  · refine Trace.exec_invariant (I := fun u : Timed => u.lag k = 0)
      (C := fun u e => u.delay k e = 0) ?_ rfl hprompt hrun
    intro u e v hu hdelay hstep
    cases e with
    | tick id now =>
        obtain ⟨_, rfl⟩ := tick_eq_some hstep
        exact hu
    | data d =>
        obtain ⟨_, p, _, rfl⟩ := data_eq_some hstep
        show u.lag k + u.delay k (.data d) = 0
        rw [hu, hdelay]

/-- Puts the virtual nodes of node 1 before everything else. -/
def lastDigitHash (bytes : ByteArray) : UInt64 :=
  if bytes.data.toList[35]? = some 49 then 0 else 1

/-- Node 1 stores a value for ten milliseconds while a walk is under way
that began five milliseconds before; the walk lists it with fifteen, and
node 2 counts them from seven. -/
def lateVisit : List TimedEvent :=
  let seed : MemberEntry := ⟨⟨⟨1⟩, "a"⟩, .alive, 0, 0⟩
  [.data (.cluster (.start 0 ⟨1⟩ [])), .data (.transfer 0 ⟨1⟩ 0), .tick ⟨1⟩ 5000000,
    .data (.cluster (.node ⟨1⟩ (.call 0 (.set ⟨"k", [118], some 10⟩)))),
    .data (.cluster (.node ⟨1⟩ (.advance 0 5000000))),
    .data (.cluster (.node ⟨1⟩ (.advance 0 5000000))), .data (.visit 0 "k"),
    .data (.cluster (.start 0 ⟨2⟩ [seed.info])), .data (.cluster (.node ⟨2⟩ (.rebalance .poll))),
    .data (.cluster (.node ⟨2⟩ (.rebalance (.buildRing [seed])))), .tick ⟨2⟩ 7000000,
    .data (.cluster (.node ⟨2⟩ (.rebalance (.chunk 7000000 ⟨"k", [118], some 15⟩))))]

theorem life_bounded_lateVisit :
    ∃ s n e, Trace.exec (step (.hyphenated lastDigitHash) []) (init ⟨.new, .new⟩) lateVisit = some s
      ∧ s.plane.cluster.nodes ⟨2⟩ = some n ∧ n.store.data.lookup "k" = some e
      ∧ e.expiresAt = some 22000000
      ∧ ∃ ttl, s.plane.cluster.Granted "k" ttl ∧ 22000000 ≤ s.clock ⟨2⟩ + (ttl + s.lag "k") := by
  have hlook : ((Trace.exec (step (.hyphenated lastDigitHash) []) (init ⟨.new, .new⟩)
      lateVisit).bind fun s => (s.plane.cluster.nodes ⟨2⟩).bind fun n =>
        n.store.data.lookup "k") = some ⟨[118], some 22000000⟩ := by decide +kernel
  obtain ⟨s, hrun, hs⟩ := Option.bind_eq_some_iff.mp hlook
  obtain ⟨n, hn, he⟩ := Option.bind_eq_some_iff.mp hs
  exact ⟨s, n, _, hrun, hn, he, rfl, (life_bounded _ [] _ hrun).1 ⟨2⟩ n "k" _ _ hn he rfl⟩

end Timed

end SelfHealingCache
