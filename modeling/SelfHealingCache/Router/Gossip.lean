import SelfHealingCache.Lib.Trace
import SelfHealingCache.Node.Gossip
import SelfHealingCache.Router.Coordinator

/-!
# The router's gossip client and health checker

`crates/router/src/gossip/mod.rs` and `start_health_checker`. Two tasks
write the same health entry: the gossip client, which works through one
response member by member, and the checker, which records a heartbeat
outcome whenever one arrives. Each write takes the lock for itself, so
`RouterSys` interleaves them update by update; `exchangeGossip` is the
client running alone, and `exec_exchangeGossip` says the two agree.

`last` is a GHOST: the status of the last member entry processed for
each id. A Joining entry keeps its node out of every preference list
exactly as long as no heartbeat outcome is recorded for it
(`joining_isolated_iff`): a success marks it Alive, a failure Suspect,
and both are routable.
-/

namespace SelfHealingCache

/-- What the gossip client and the checker share. -/
structure Router where
  ring : HashRing
  health : HealthMonitor

/-- One locked update of the ring or of the health monitor. -/
inductive RouterUpdate where
  | markAlive (id : NodeId)
  | markJoining (id : NodeId)
  | recordFailure (id : NodeId)
  | addNode (info : NodeInfo)
  | removeNode (id : NodeId)

def RouterUpdate.subject : RouterUpdate → NodeId
  | .markAlive id | .markJoining id | .recordFailure id | .removeNode id => id
  | .addNode info => info.id

section Client

variable (X : Crates)

def Router.apply (r : Router) : RouterUpdate → Router
  | .markAlive id => { r with health := r.health.markAlive id }
  | .markJoining id => { r with health := r.health.markJoining id }
  | .recordFailure id => { r with health := r.health.recordFailure id }
  | .addNode info =>
      if r.ring.containsNode info.id then r else { r with ring := r.ring.addNode X info }
  | .removeNode id =>
      if r.ring.containsNode id then { r with ring := r.ring.removeNode id } else r

/-- Id and status of a member entry; `none` when either does not parse
and the entry is skipped. -/
def observed (m : ProtoMemberEntry) : Option (NodeId × MemberStatus) :=
  match X.parse m.nodeId, MemberStatus.ofProto m.status with
  | some id, some status => some (id, status)
  | _, _ => none

/-- The updates of one member entry: the first, and the rest. -/
def memberUpdates (info : NodeInfo) : MemberStatus → RouterUpdate × List RouterUpdate
  | .alive => (.markAlive info.id, [.addNode info])
  | .joining => (.markJoining info.id, [])
  | .suspect => (.recordFailure info.id, [])
  | .dead =>
      (.recordFailure info.id,
        [.recordFailure info.id, .recordFailure info.id, .removeNode info.id])

def exchangeMember (r : Router) (m : ProtoMemberEntry) : Router :=
  match observed X m with
  | some (id, status) =>
      let updates := memberUpdates ⟨id, m.addr⟩ status
      updates.2.foldl (Router.apply X) (r.apply X updates.1)
  | none => r

/-- `exchange_gossip` on the response `members`, uninterrupted. -/
def exchangeGossip (r : Router) (members : List ProtoMemberEntry) : Router :=
  members.foldl (exchangeMember X) r

end Client

/-- Only an Alive entry adds a node to the ring, the one it is about. -/
theorem addNode_memberUpdates {info added : NodeInfo} {status : MemberStatus}
    (h : .addNode added ∈ (memberUpdates info status).2) : status = .alive ∧ added = info := by
  cases status <;> simp_all [memberUpdates]

/-! ## The interleaved system -/

structure RouterSys where
  router : Router
  /-- Entries of the current response not looked at yet. -/
  rest : List ProtoMemberEntry
  /-- Updates left to do for the entry being processed. -/
  current : List RouterUpdate
  /-- Ghost: the status last processed for each id. -/
  last : NodeId → Option MemberStatus

inductive RouterEvent where
  /-- A gossip response arrives; the client handles one at a time. -/
  | respond (members : List ProtoMemberEntry)
  /-- The client takes up the next entry and makes its first update. -/
  | nextMember
  | nextUpdate
  /-- The checker records a heartbeat outcome. -/
  | heartbeat (id : NodeId) (ok : Bool)

namespace RouterSys

/-- Before the first response. -/
def start (r : Router) : RouterSys := ⟨r, [], [], fun _ => none⟩

/-- The client makes the first update for `m`. -/
def takeUp (X : Crates) (s : RouterSys) (m : ProtoMemberEntry) (rest : List ProtoMemberEntry) :
    RouterSys :=
  match observed X m with
  | some (id, status) =>
      let updates := memberUpdates ⟨id, m.addr⟩ status
      { router := s.router.apply X updates.1
        rest := rest
        current := updates.2
        last := Function.update s.last id (some status) }
  | none => { s with rest := rest }

def recordHeartbeat (s : RouterSys) (id : NodeId) (ok : Bool) : RouterSys :=
  let health := s.router.health
  { s with
    router := { s.router with
      health := if ok then health.markAlive id else health.recordFailure id } }

/-- `monitored` are the nodes of the router's configuration: the checker
probes these and no others. -/
def step (X : Crates) (monitored : List NodeId) (s : RouterSys) : RouterEvent → Option RouterSys
  | .respond members =>
      if s.rest = [] ∧ s.current.isEmpty then some { s with rest := members } else none
  | .nextMember =>
      match s.current, s.rest with
      | [], m :: rest => some (s.takeUp X m rest)
      | _, _ => none
  | .nextUpdate =>
      match s.current with
      | u :: us => some { s with router := s.router.apply X u, current := us }
      | [] => none
  | .heartbeat id ok => if id ∈ monitored then some (s.recordHeartbeat id ok) else none

/-- Everything a step can be. -/
theorem step_cases {X : Crates} {monitored : List NodeId} {s t : RouterSys} {e : RouterEvent}
    (h : s.step X monitored e = some t) :
    (∃ members, e = .respond members ∧ s.current = [] ∧ t = { s with rest := members })
    ∨ (∃ m rest, e = .nextMember ∧ s.current = [] ∧ s.rest = m :: rest ∧ t = s.takeUp X m rest)
    ∨ (∃ u us, e = .nextUpdate ∧ s.current = u :: us
        ∧ t = { s with router := s.router.apply X u, current := us })
    ∨ (∃ id ok, e = .heartbeat id ok ∧ t = s.recordHeartbeat id ok) := by
  cases e with
  | respond members =>
      rw [step] at h
      split_ifs at h with hidle
      cases h
      exact .inl ⟨members, rfl, by simpa using hidle.2, rfl⟩
  | nextMember =>
      rw [step] at h
      split at h
      · rename_i m rest hcurrent hrest
        cases h
        exact .inr (.inl ⟨m, rest, rfl, hcurrent, hrest, rfl⟩)
      · cases h
  | nextUpdate =>
      rw [step] at h
      split at h
      · rename_i u us hcurrent
        cases h
        exact .inr (.inr (.inl ⟨u, us, rfl, hcurrent, rfl⟩))
      · cases h
  | heartbeat id ok =>
      rw [step] at h
      split_ifs at h
      cases h
      exact .inr (.inr (.inr ⟨id, ok, rfl, rfl⟩))

/-! ## The client running alone -/

theorem exec_updates (X : Crates) (monitored : List NodeId) (s : RouterSys)
    (us : List RouterUpdate) :
    Trace.exec (step X monitored) { s with current := us }
        (List.replicate us.length .nextUpdate)
      = some { s with router := us.foldl (Router.apply X) s.router, current := [] } := by
  induction us generalizing s with
  | nil => rfl
  | cons u us ih =>
      rw [List.length_cons, List.replicate_succ, Trace.exec_cons]
      exact ⟨_, rfl, ih { s with router := s.router.apply X u }⟩

/-- **Uninterrupted, the interleaved client is `exchange_gossip`.** -/
theorem exec_exchangeGossip (X : Crates) (monitored : List NodeId) (r : Router)
    (members : List ProtoMemberEntry) (last : NodeId → Option MemberStatus) :
    ∃ es last', Trace.exec (step X monitored) ⟨r, members, [], last⟩ es
      = some ⟨exchangeGossip X r members, [], [], last'⟩ := by
  induction members generalizing r last with
  | nil => exact ⟨[], last, rfl⟩
  | cons m members ih =>
      cases hm : observed X m with
      | none =>
          obtain ⟨es, last', hes⟩ := ih r last
          refine ⟨.nextMember :: es, last', Trace.exec_cons.mpr ⟨_, rfl, ?_⟩⟩
          simpa [takeUp, exchangeGossip, exchangeMember, hm] using hes
      | some seen =>
          obtain ⟨id, status⟩ := seen
          let updates := memberUpdates ⟨id, m.addr⟩ status
          obtain ⟨es, last', hes⟩ := ih (updates.2.foldl (Router.apply X) (r.apply X updates.1))
            (Function.update last id (some status))
          have hfold : exchangeGossip X r (m :: members) = exchangeGossip X
              (updates.2.foldl (Router.apply X) (r.apply X updates.1)) members := by
            simp [exchangeGossip, exchangeMember, hm, updates]
          rw [← hfold] at hes
          refine ⟨.nextMember :: (List.replicate updates.2.length .nextUpdate ++ es), last',
            Trace.exec_cons.mpr ⟨_, rfl, Trace.exec_append.mpr ⟨_, ?_, hes⟩⟩⟩
          simpa [takeUp, hm, updates] using exec_updates X monitored
            ⟨r.apply X updates.1, members, [], Function.update last id (some status)⟩ updates.2

/-! ## What a step does to the ring -/

/-- The client's next update puts `info` on the ring. -/
def Adds (s : RouterSys) (info : NodeInfo) : Prop :=
  ∃ us, s.current = .addNode info :: us ∧ s.router.ring.containsNode info.id = false

theorem Adds.mem_current {s : RouterSys} {info : NodeInfo} (h : s.Adds info) :
    .addNode info ∈ s.current := by
  obtain ⟨us, hcurrent, _⟩ := h
  simp [hcurrent]

theorem Adds.ring {X : Crates} {monitored : List NodeId} {s t : RouterSys} {info : NodeInfo}
    (h : s.Adds info) (hstep : s.step X monitored .nextUpdate = some t) :
    t.router.ring = s.router.ring.addNode X info := by
  obtain ⟨us, hcurrent, hnew⟩ := h
  rw [step, hcurrent] at hstep
  cases hstep
  simp [Router.apply, hnew]

theorem ring_takeUp (X : Crates) (s : RouterSys) (m : ProtoMemberEntry)
    (rest : List ProtoMemberEntry) : (s.takeUp X m rest).router.ring = s.router.ring := by
  rw [takeUp]
  split
  · rename_i id status _
    cases status <;> rfl
  · rfl

/-- **Everything a step can do to the ring.** -/
theorem ring_step {X : Crates} {monitored : List NodeId} {s t : RouterSys} {e : RouterEvent}
    (h : s.step X monitored e = some t) :
    t.router.ring = s.router.ring
    ∨ (∃ info, e = .nextUpdate ∧ s.Adds info ∧ t.router.ring = s.router.ring.addNode X info)
    ∨ ∃ id, t.router.ring = s.router.ring.removeNode id := by
  obtain ⟨members, rfl, _, rfl⟩ | ⟨m, rest, rfl, _, _, rfl⟩ | ⟨u, us, rfl, hcurrent, rfl⟩
    | ⟨id, ok, rfl, rfl⟩ := step_cases h
  · exact .inl rfl
  · exact .inl (ring_takeUp X s m rest)
  · cases u with
    | markAlive id => exact .inl rfl
    | markJoining id => exact .inl rfl
    | recordFailure id => exact .inl rfl
    | addNode info =>
        by_cases hin : s.router.ring.containsNode info.id = true
        · left
          simp [Router.apply, hin]
        · have hadds : s.Adds info := ⟨us, hcurrent, by simpa using hin⟩
          exact .inr (.inl ⟨info, rfl, hadds, hadds.ring h⟩)
    | removeNode id =>
        by_cases hin : s.router.ring.containsNode id = true
        · right
          right
          exact ⟨id, by simp [Router.apply, hin]⟩
        · left
          simp [Router.apply, hin]
  · exact .inl rfl

/-! ## What the client still has to do -/

/-- `R` holds of every id, address and status that the client still has
to look at, and of every node that it still has to add. -/
structure Told (X : Crates) (R : NodeInfo → MemberStatus → Prop) (s : RouterSys) : Prop where
  rest : ∀ m ∈ s.rest, ∀ id status, observed X m = some (id, status) → R ⟨id, m.addr⟩ status
  current : ∀ info, .addNode info ∈ s.current → R info .alive

theorem Told.mono {X : Crates} {R R' : NodeInfo → MemberStatus → Prop}
    (hR : ∀ info status, R info status → R' info status) {s : RouterSys} (h : s.Told X R) :
    s.Told X R' where
  rest m hm id status hobs := hR _ status (h.rest m hm id status hobs)
  current info hinfo := hR info .alive (h.current info hinfo)

theorem Told.takeUp {X : Crates} {R : NodeInfo → MemberStatus → Prop} {s : RouterSys}
    (h : s.Told X R) {m : ProtoMemberEntry} {rest : List ProtoMemberEntry}
    (hrest : s.rest = m :: rest) : (s.takeUp X m rest).Told X R := by
  have hlater : ∀ m' ∈ rest, ∀ id status, observed X m' = some (id, status) →
      R ⟨id, m'.addr⟩ status := fun m' hm' => h.rest m' (by simp [hrest, hm'])
  rw [RouterSys.takeUp]
  cases hm : observed X m with
  | none => exact ⟨hlater, h.current⟩
  | some seen =>
      obtain ⟨id, status⟩ := seen
      refine ⟨hlater, fun info hinfo => ?_⟩
      -- only an Alive entry adds, and then the node it is about
      obtain ⟨rfl, rfl⟩ := addNode_memberUpdates hinfo
      exact h.rest m (by simp [hrest]) id .alive hm

theorem Told.step {X : Crates} {monitored : List NodeId} {R : NodeInfo → MemberStatus → Prop}
    {s t : RouterSys} {e : RouterEvent} (h : s.Told X R)
    (hmsg : ∀ members, e = .respond members → ∀ m ∈ members, ∀ id status,
      observed X m = some (id, status) → R ⟨id, m.addr⟩ status)
    (hstep : s.step X monitored e = some t) : t.Told X R := by
  obtain ⟨members, rfl, _, rfl⟩ | ⟨m, rest, rfl, _, hrest, rfl⟩ | ⟨u, us, rfl, hcurrent, rfl⟩
    | ⟨id, ok, rfl, rfl⟩ := step_cases hstep
  · exact ⟨hmsg members rfl, h.current⟩
  · exact h.takeUp hrest
  · exact ⟨h.rest, fun info hinfo => h.current info (by simp [hcurrent, hinfo])⟩
  · exact ⟨h.rest, h.current⟩

/-! ## Joining nodes -/

/-- A node whose last processed status is Joining is not routable, and
so is in no preference list. -/
def JoiningIsolated (X : Crates) (s : RouterSys) : Prop :=
  ∀ id, s.last id = some .joining →
    s.router.health.isAlive id = false
    ∧ ∀ cfg key, ∀ n ∈ alivePreferenceList X cfg s.router.ring s.router.health key, n.id ≠ id

/-- What the client maintains when nobody else writes a Joining entry:
the entry is as `mark_joining` left it, and no update still to come is
about that node. -/
structure JoiningHeld (s : RouterSys) : Prop where
  entry : ∀ id, s.last id = some .joining →
    s.router.health.nodes.lookup id = some ⟨.joining, 0⟩
  current : ∀ id, s.last id = some .joining → ∀ u ∈ s.current, u.subject ≠ id

theorem JoiningHeld.isolated {s : RouterSys} (h : s.JoiningHeld) (X : Crates) :
    s.JoiningIsolated X := by
  intro id hid
  have halive : s.router.health.isAlive id = false := by
    rw [HealthMonitor.isAlive_of_lookup (h.entry id hid)]
    rfl
  refine ⟨halive, fun cfg key n hn heq => ?_⟩
  have hn' := isAlive_of_mem_alivePreferenceList hn
  rw [heq, halive] at hn'
  cases hn'

end RouterSys

/-- An update about another node leaves a health entry alone. -/
theorem Router.lookup_apply_ne {X : Crates} {r : Router} {u : RouterUpdate} {id : NodeId}
    (h : u.subject ≠ id) :
    (r.apply X u).health.nodes.lookup id = r.health.nodes.lookup id := by
  cases u with
  | markAlive j => simp [apply, Ne.symm (show j ≠ id from h)]
  | markJoining j => simp [apply, Ne.symm (show j ≠ id from h)]
  | recordFailure j => simp [apply, Ne.symm (show j ≠ id from h)]
  | addNode info =>
      rw [apply]
      split_ifs <;> rfl
  | removeNode j =>
      rw [apply]
      split_ifs <;> rfl

theorem subject_memberUpdates (info : NodeInfo) (status : MemberStatus) :
    (memberUpdates info status).1.subject = info.id
      ∧ ∀ u ∈ (memberUpdates info status).2, u.subject = info.id := by
  cases status <;> simp [memberUpdates, RouterUpdate.subject]

namespace RouterSys

/-- Taking up an entry keeps the Joining entries held. -/
theorem JoiningHeld.takeUp {s : RouterSys} (h : s.JoiningHeld) (X : Crates) (m : ProtoMemberEntry)
    (rest : List ProtoMemberEntry) : (s.takeUp X m rest).JoiningHeld := by
  rw [RouterSys.takeUp]
  cases hm : observed X m with
  | none => exact ⟨h.entry, h.current⟩
  | some seen =>
      obtain ⟨j, status⟩ := seen
      obtain ⟨hfirst, hlater⟩ := subject_memberUpdates ⟨j, m.addr⟩ status
      constructor
      · intro id hid
        dsimp only at hid ⊢
        by_cases hj : id = j
        · subst hj
          rw [Function.update_self] at hid
          cases hid
          simp [memberUpdates, Router.apply]
        · rw [Function.update_of_ne hj] at hid
          rw [Router.lookup_apply_ne (by rw [hfirst]; exact Ne.symm hj)]
          exact h.entry id hid
      · intro id hid u hu heq
        dsimp only at hid hu
        rw [hlater u hu] at heq
        dsimp only at heq
        subst heq
        rw [Function.update_self] at hid
        cases hid
        cases hu

theorem JoiningHeld.step {X : Crates} {monitored : List NodeId} {s t : RouterSys}
    {e : RouterEvent} (h : s.JoiningHeld)
    (hprobe : ∀ id ok, e = .heartbeat id ok → s.last id ≠ some .joining)
    (hstep : s.step X monitored e = some t) : t.JoiningHeld := by
  obtain ⟨members, rfl, _, rfl⟩ | ⟨m, rest, rfl, _, _, rfl⟩ | ⟨u, us, rfl, hcurrent, rfl⟩
    | ⟨j, ok, rfl, rfl⟩ := step_cases hstep
  · exact ⟨h.entry, h.current⟩
  · exact h.takeUp X m rest
  · have hother : ∀ id, s.last id = some .joining → ∀ u' ∈ u :: us, u'.subject ≠ id := by
      intro id hid
      rw [← hcurrent]
      exact h.current id hid
    constructor
    · intro id hid
      rw [Router.lookup_apply_ne (hother id hid u (by simp))]
      exact h.entry id hid
    · intro id hid u' hu'
      exact hother id hid u' (by simp [hu'])
  · constructor
    · intro id hid
      have hne : id ≠ j := by
        intro heq
        subst heq
        exact hprobe id ok rfl hid
      have hentry := h.entry id hid
      cases ok <;> simpa [recordHeartbeat, hne] using hentry
    · exact h.current

/-- A heartbeat outcome for a Joining node, good or bad, makes it
routable. -/
theorem not_isolated_of_heartbeat {s : RouterSys} (h : s.JoiningHeld) {id : NodeId}
    (hid : s.last id = some .joining) (X : Crates) (ok : Bool) :
    ¬ (s.recordHeartbeat id ok).JoiningIsolated X := by
  intro hiso
  have halive := (hiso id hid).1
  have hentry := h.entry id hid
  cases ok with
  | true =>
      have hnew : (s.recordHeartbeat id true).router.health.nodes.lookup id
          = some ⟨.alive, 0⟩ := by simp [recordHeartbeat]
      rw [HealthMonitor.isAlive_of_lookup hnew] at halive
      cases halive
  | false =>
      have hnew : (s.recordHeartbeat id false).router.health.nodes.lookup id
          = some ⟨.suspect, 1⟩ := by simp [recordHeartbeat, hentry, HealthMonitor.failed]
      rw [HealthMonitor.isAlive_of_lookup hnew] at halive
      cases halive

/-- **Joining isolation at the router**, and its exact condition. In a
run from any ring and health state, nodes last reported Joining stay out
of every preference list exactly when the checker never records an
outcome for a node while it is last reported Joining. -/
theorem joining_isolated_iff (X : Crates) (monitored : List NodeId) (r : Router)
    (es : List RouterEvent) :
    Trace.Throughout (step X monitored) (JoiningIsolated X) (start r) es
      ↔ Trace.Along (step X monitored)
          (fun s e => ∀ id ok, e = .heartbeat id ok → s.last id ≠ some .joining) (start r) es := by
  apply Trace.throughout_iff_along (I := JoiningHeld)
  · intro s h
    exact h.isolated X
  · intro s e t h hprobe hstep
    exact h.step hprobe hstep
  · intro s e t h hprobe hstep
    push Not at hprobe
    obtain ⟨id, ok, rfl, hid⟩ := hprobe
    obtain ⟨_, he, _⟩ | ⟨_, _, he, _⟩ | ⟨_, _, he, _⟩ | ⟨j, ok', he, rfl⟩ := step_cases hstep
    · cases he
    · cases he
    · cases he
    · cases he
      exact not_isolated_of_heartbeat h hid X ok
  · exact ⟨fun id hid => by simp [start] at hid, fun id hid => by simp [start] at hid⟩

/-- A monitored node is reported Joining and then answers a heartbeat:
it is routable, and the primary of the empty key. -/
theorem joining_not_isolated_after_heartbeat :
    ¬ Trace.Throughout (step ThreeNodes.crates [ThreeNodes.a.id])
      (JoiningIsolated ThreeNodes.crates) (start ⟨ThreeNodes.ring, .new⟩)
      [.respond [⟨ThreeNodes.crates.display ThreeNodes.a.id, "a", 3, 0, 0⟩], .nextMember,
        .heartbeat ThreeNodes.a.id true] := by
  rw [Trace.throughout_iff_prefix]
  intro h
  have hlast := h _ List.prefix_rfl _ rfl ThreeNodes.a.id (by decide)
  exact hlast.2 ⟨1, 1⟩ "" ThreeNodes.a (by decide) rfl

end RouterSys

end SelfHealingCache
