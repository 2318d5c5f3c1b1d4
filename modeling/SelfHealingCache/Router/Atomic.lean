import SelfHealingCache.Router.Concurrent

/-!
# Set and get are atomic

A key `k` whose lists all begin at the address `p`, its primary, in a
run where clients only `set` it without a TTL and `get` it (`Quiet`).
Calls may retry, replicas may fail, and everything interleaves.

The invariant `Backed`, which the fleet has to meet at the beginning:
what a replica holds, the primary holds something for too; so a read that
misses at the primary has found the key absent everywhere. What appears
on a replica after that was at the primary first, and since the read
began.
-/

namespace SelfHealingCache

/-! ## Runs in which a key is set and read -/

/-- A set without a TTL, or a read. -/
def RouterRequest.Lasting : RouterRequest → Prop
  | .set req => req.ttlMs = none
  | .get _ => True
  | .delete _ => False

/-- Where a task about `k` stands. -/
def RouterTask.cursor? (k : String) : RouterTask → Option Cursor
  | .set req _ cur => if req.key = k then some cur else none
  | .get key cur | .delete key _ cur => if key = k then some cur else none
  | .done _ => none

namespace RouterCalls

/-- Clients only set `k`, without a TTL, and read it; every list begins
at `p`; the last attempt at the primary is answered; on their own the
nodes neither write nor delete `k`. -/
def Quiet (X : Crates) (cfg : ReplicationConfig) (k p : String) (s : RouterCalls) :
    CallEvent → Prop
  | .call ring health request => request.key = k →
      request.Lasting ∧ (alivePreferenceList X cfg ring health k).head?.map (·.addr) = some p
  | .turn i attempt => ∀ task cur, s.tasks[i]? = some task → task.cursor? k = some cur →
      cur.pos = 0 → cur.left = 1 → attempt.outcome = .answered
  | .node _ _ op => ¬ op.writes k ∧ ¬ op.deletes k

end RouterCalls

/-! ## What the nodes hold -/

/-- Nobody holds `k` unless the primary does, nothing held expires, and
the primary takes writes. -/
structure Fleet.Backed (k p : String) (fleet : Fleet) : Prop where
  accepts : fleet.accepts p = true
  lasting : ∀ a e, fleet.entry a k = some e → e.expiresAt = none
  backed : fleet.entry p k = none → ∀ a, fleet.entry a k = none

section Entries

variable {k p : String} {fleet : Fleet}

theorem Fleet.Backed.readable_eq (h : fleet.Backed k p) (now : Instant) (a : String) :
    fleet.readable now a k = fleet.entry a k := by
  rw [Fleet.readable]
  cases he : fleet.entry a k with
  | none => rfl
  | some e => simp [CacheEntry.live, h.lasting a e he]

/-- A read changes no entry. -/
theorem Fleet.Backed.entry_get (h : fleet.Backed k p) (now : Instant) (addr a : String) :
    Fleet.entry (Function.update fleet addr ((fleet addr).get now k).2) a k
      = fleet.entry a k := by
  rw [Fleet.entry_get, h.readable_eq]
  split_ifs <;> rfl

/-- The node's own doing changes no entry of `k`. -/
theorem Fleet.Backed.entry_node (h : fleet.Backed k p) (addr : String) (now : Instant)
    {op : CacheStore.Op} (hw : ¬ op.writes k) (hd : ¬ op.deletes k) (a : String) :
    Fleet.entry (Function.update fleet addr
        { fleet addr with store := (fleet addr).store.apply now op }) a k
      = fleet.entry a k := by
  rw [Fleet.entry_update]
  split_ifs with ha
  · subst ha
    dsimp only
    cases he : fleet.entry a k with
    | none =>
        rcases CacheStore.lookup_apply_of_unwritten (fleet a).store now hw with hsame | hnone
        · exact hsame.trans he
        · exact hnone
    | some e =>
        obtain ⟨value, expiresAt⟩ := e
        have hlasting : expiresAt = none := h.lasting a _ he
        subst hlasting
        exact CacheStore.lookup_apply_of_untouched hw hd he
  · rfl

theorem Fleet.Backed.congr {fleet' : Fleet} (h : fleet.Backed k p)
    (haccepts : fleet'.accepts p = fleet.accepts p)
    (hentry : ∀ a, fleet'.entry a k = fleet.entry a k) : fleet'.Backed k p where
  accepts := haccepts.trans h.accepts
  lasting a e he := h.lasting a e ((hentry a).symm.trans he)
  backed hnone a := by
    rw [hentry] at hnone ⊢
    exact h.backed hnone a

/-- A write of `k`, at the primary or when the primary has something. -/
theorem Fleet.Backed.write {fleet' : Fleet} (h : fleet.Backed k p) {addr : String} {value : Bytes}
    (hp : addr = p ∨ fleet.entry p k ≠ none) (haccepts : fleet'.accepts p = fleet.accepts p)
    (hentry : ∀ a, fleet'.entry a k
      = if a = addr then some ⟨value, none⟩ else fleet.entry a k) : fleet'.Backed k p where
  accepts := haccepts.trans h.accepts
  lasting a e he := by
    rw [hentry] at he
    split_ifs at he
    · cases he
      rfl
    · exact h.lasting a e he
  backed hnone a := by
    rw [hentry] at hnone
    split_ifs at hnone with ha
    rcases hp with hp | hp
    · exact absurd hp.symm ha
    · exact absurd hnone hp

end Entries

/-! ## One step of one task -/

/-- The list begins at `p`, and the attempts there are not used up. -/
structure Cursor.Starts (p : String) (cur : Cursor) : Prop where
  head : cur.nodes.head?.map (·.addr) = some p
  left : cur.pos = 0 → 0 < cur.left

theorem Cursor.Starts.addr_eq {p : String} {cur : Cursor} (h : cur.Starts p) {node : NodeInfo}
    (hnode : cur.node? = some node) (hpos : cur.pos = 0) : node.addr = p := by
  have hhead := h.head
  rw [node?, hpos, ← List.head?_eq_getElem?] at hnode
  rw [hnode] at hhead
  exact Option.some.inj hhead

theorem Cursor.Starts.pos_of_end {p : String} {cur : Cursor} (h : cur.Starts p)
    (hend : cur.node? = none) : 0 < cur.pos := by
  by_contra hpos
  have hhead := h.head
  rw [node?, show cur.pos = 0 by omega, ← List.head?_eq_getElem?] at hend
  rw [hend] at hhead
  cases hhead

theorem Cursor.Starts.next {p : String} {cur : Cursor} (h : cur.Starts p)
    (cfg : ReplicationConfig) : (cur.next cfg).Starts p :=
  ⟨h.head, fun hpos => absurd hpos (by simp)⟩

theorem Cursor.Starts.retry {p : String} {cur : Cursor} (h : cur.Starts p)
    (hlast : cur.pos = 0 → cur.left ≠ 1) : cur.retry.Starts p := by
  refine ⟨h.head, fun hpos => ?_⟩
  have hleft := h.left hpos
  have hmore := hlast hpos
  show 0 < cur.left - 1
  omega

/-- A task about `k` in a quiet run: a set that has left the primary has
written it. -/
def RouterTask.Sound (k p : String) (fleet : Fleet) : RouterTask → Prop
  | .set req _ cur => req.key = k →
      req.ttlMs = none ∧ cur.Starts p ∧ (0 < cur.pos → fleet.entry p k ≠ none)
  | .get key cur => key = k → cur.Starts p
  | .delete key _ _ => key ≠ k
  | .done _ => True

theorem RouterTask.Sound.mono {k p : String} {fleet fleet' : Fleet} {task : RouterTask}
    (h : task.Sound k p fleet) (hp : fleet.entry p k ≠ none → fleet'.entry p k ≠ none) :
    task.Sound k p fleet' := by
  cases task with
  | set req results cur =>
      intro hkey
      obtain ⟨httl, hstarts, hpos⟩ := h hkey
      exact ⟨httl, hstarts, fun hlt => hp (hpos hlt)⟩
  | get key cur => exact h
  | delete key anyDeleted cur => exact h
  | done answer => trivial

/-- The set at this task writes `k` at `addr`. -/
structure RouterTask.WritesAt (k p : String) (fleet fleet' : Fleet) (task : RouterTask)
    (addr : String) (value : Bytes) : Prop where
  isSet : ∃ req results cur, task = .set req results cur ∧ req.key = k ∧ req.value = value
    ∧ (cur.pos = 0 → addr = p) ∧ (0 < cur.pos → fleet.entry p k ≠ none)
  entries : ∀ a, fleet'.entry a k = if a = addr then some ⟨value, none⟩ else fleet.entry a k

/-- What a step of a task can do in a quiet run. -/
structure RouterTask.Moved (k p : String) (fleet : Fleet) (task : RouterTask) (fleet' : Fleet)
    (task' : RouterTask) : Prop where
  backed : fleet'.Backed k p
  sound : task'.Sound k p fleet'
  entries : (∀ a, fleet'.entry a k = fleet.entry a k)
    ∨ ∃ addr value, task.WritesAt k p fleet fleet' addr value
  /-- A set that is past the primary was so before or has just written it. -/
  sets : ∀ req results' cur', task' = .set req results' cur' → req.key = k → 0 < cur'.pos →
    ∃ results cur, task = .set req results cur
      ∧ (0 < cur.pos ∨ fleet'.entry p k = some ⟨req.value, none⟩)

section Task

variable {cfg : ReplicationConfig} {call : Attempt} {k p : String} {fleet : Fleet}

theorem RouterTask.WritesAt.keeps {fleet' : Fleet} {task : RouterTask} {addr : String}
    {value : Bytes} (h : task.WritesAt k p fleet fleet' addr value)
    (hp : fleet.entry p k ≠ none) : fleet'.entry p k ≠ none := by
  rw [h.entries]
  split_ifs
  · simp
  · exact hp

/-- A set of `k`. -/
theorem RouterTask.moved_set (hb : fleet.Backed k p) {req : SetRequest} {results : List Bool}
    {cur : Cursor} (hkey : req.key = k) (httl : req.ttlMs = none) (hstarts : cur.Starts p)
    (hwritten : 0 < cur.pos → fleet.entry p k ≠ none)
    (hquiet : cur.pos = 0 → cur.left = 1 → call.outcome = .answered)
    {task' : RouterTask} {fleet' : Fleet}
    (hmove : SetMove cfg call fleet req results cur task' fleet') :
    (RouterTask.set req results cur).Moved k p fleet fleet' task' := by
  -- what the call does where the node takes writes
  have hserved : ∀ node : NodeInfo, fleet.accepts node.addr → cur.node? = some node →
      (RouterTask.set req results cur).WritesAt k p fleet
        (Function.update fleet node.addr ((fleet node.addr).set call.time req).2) node.addr
        req.value := by
    intro node haccepts hnode
    refine ⟨⟨req, results, cur, rfl, hkey, rfl, hstarts.addr_eq hnode, hwritten⟩, fun a => ?_⟩
    rw [Fleet.entry_set, SetRequest.entryAt, httl]
    simp [haccepts, hkey]
  have hbacked : ∀ node : NodeInfo, fleet.accepts node.addr → cur.node? = some node →
      Fleet.Backed k p
        (Function.update fleet node.addr ((fleet node.addr).set call.time req).2) := by
    intro node haccepts hnode
    refine hb.write ?_ (Fleet.accepts_set p) (hserved node haccepts hnode).entries
    rcases Nat.eq_zero_or_pos cur.pos with hpos | hpos
    · exact .inl (hstarts.addr_eq hnode hpos)
    · exact .inr (hwritten hpos)
  -- a node that refuses keeps its content
  have hrefused : ∀ node : NodeInfo, fleet.accepts node.addr = false → ∀ a,
      Fleet.entry (Function.update fleet node.addr ((fleet node.addr).set call.time req).2) a k
        = fleet.entry a k := by
    intro node hrefuses a
    rw [Fleet.entry_set, hrefuses]
    simp
  cases hmove with
  | finish hend =>
      refine ⟨hb, trivial, .inl fun _ => rfl, ?_⟩
      intro req' results' cur' htask
      cases htask
  | exhausted hnode hleft =>
      -- the primary is not given up: its last attempt is answered
      have hpos : 0 < cur.pos := by
        by_contra hpos
        have := hstarts.left (by omega)
        omega
      refine ⟨hb, fun _ => ⟨httl, hstarts.next cfg, fun _ => hwritten hpos⟩,
        .inl fun _ => rfl, ?_⟩
      intro req' results' cur' htask _ _
      cases htask
      exact ⟨results, cur, rfl, .inl hpos⟩
  | lost hnode hleft hout =>
      have hretry := hstarts.retry fun hpos hlast => hout (hquiet hpos hlast)
      refine ⟨hb, fun _ => ⟨httl, hretry, hwritten⟩, .inl fun _ => rfl, ?_⟩
      intro req' results' cur' htask _ hlt
      cases htask
      exact ⟨results, cur, rfl, .inl hlt⟩
  | @unheard node hnode hleft hout =>
      have hretry : cur.retry.Starts p := by
        refine hstarts.retry fun hpos hlast => ?_
        refine hout ?_ (hquiet hpos hlast)
        rw [hstarts.addr_eq hnode hpos]
        exact hb.accepts
      -- executed or refused, and the answer was lost either way
      cases haccepts : fleet.accepts node.addr with
      | true =>
          have hwrites := hserved node haccepts hnode
          refine ⟨hbacked node haccepts hnode,
            fun _ => ⟨httl, hretry, fun hlt => hwrites.keeps (hwritten hlt)⟩,
            .inr ⟨_, _, hwrites⟩, ?_⟩
          intro req' results' cur' htask _ hlt
          cases htask
          exact ⟨results, cur, rfl, .inl hlt⟩
      | false =>
          have hsame := hrefused node haccepts
          refine ⟨hb.congr (Fleet.accepts_set p) hsame,
            fun _ => ⟨httl, hretry, fun hlt => ?_⟩, .inl hsame, ?_⟩
          · rw [hsame]
            exact hwritten hlt
          · intro req' results' cur' htask _ hlt
            cases htask
            exact ⟨results, cur, rfl, .inl hlt⟩
  | @answered node hnode hleft haccepts =>
      have hwrites := hserved node haccepts hnode
      have hprimary : cur.pos = 0 → Fleet.entry (Function.update fleet node.addr
          ((fleet node.addr).set call.time req).2) p k = some ⟨req.value, none⟩ := by
        intro hpos
        rw [hwrites.entries, if_pos (hstarts.addr_eq hnode hpos).symm]
      have hheld : Fleet.entry (Function.update fleet node.addr
          ((fleet node.addr).set call.time req).2) p k ≠ none := by
        rcases Nat.eq_zero_or_pos cur.pos with hpos | hpos
        · rw [hprimary hpos]
          simp
        · exact hwrites.keeps (hwritten hpos)
      refine ⟨hbacked node haccepts hnode, fun _ => ⟨httl, hstarts.next cfg, fun _ => hheld⟩,
        .inr ⟨_, _, hwrites⟩, ?_⟩
      intro req' results' cur' htask _ _
      cases htask
      rcases Nat.eq_zero_or_pos cur.pos with hpos | hpos
      · exact ⟨results, cur, rfl, .inr (hprimary hpos)⟩
      · exact ⟨results, cur, rfl, .inl hpos⟩

/-- A read of `k`. -/
theorem RouterTask.moved_get (hb : fleet.Backed k p) {cur : Cursor} (hstarts : cur.Starts p)
    (hquiet : cur.pos = 0 → cur.left = 1 → call.outcome = .answered)
    {task' : RouterTask} {fleet' : Fleet} (hmove : GetMove cfg call fleet k cur task' fleet') :
    (RouterTask.get k cur).Moved k p fleet fleet' task' := by
  have hsame : ∀ addr a, Fleet.entry (Function.update fleet addr
      ((fleet addr).get call.time k).2) a k = fleet.entry a k :=
    fun addr a => hb.entry_get call.time addr a
  have hread : ∀ addr, Fleet.Backed k p (Function.update fleet addr
      ((fleet addr).get call.time k).2) := by
    intro addr
    exact hb.congr ((RouterTask.Served.get k cur addr).accepts p) (hsame addr)
  cases hmove with
  | finish hend =>
      exact ⟨hb, trivial, .inl fun _ => rfl, fun _ _ _ htask => by cases htask⟩
  | exhausted hnode hleft =>
      exact ⟨hb, fun _ => hstarts.next cfg, .inl fun _ => rfl, fun _ _ _ htask => by cases htask⟩
  | lost hnode hleft hout =>
      exact ⟨hb, fun _ => hstarts.retry fun hpos hlast => hout (hquiet hpos hlast),
        .inl fun _ => rfl, fun _ _ _ htask => by cases htask⟩
  | unheard hnode hleft hout =>
      exact ⟨hread _, fun _ => hstarts.retry fun hpos hlast => hout (hquiet hpos hlast),
        .inl (hsame _), fun _ _ _ htask => by cases htask⟩
  | found hnode hfound =>
      exact ⟨hread _, trivial, .inl (hsame _), fun _ _ _ htask => by cases htask⟩
  | missed hnode hmissed =>
      exact ⟨hread _, fun _ => hstarts.next cfg, .inl (hsame _),
        fun _ _ _ htask => by cases htask⟩

/-- A task about another key. -/
theorem RouterTask.moved_other (hb : fleet.Backed k p) {task : RouterTask}
    (hkey : task.key? ≠ some k) :
    task.Moved k p fleet (task.turn cfg call fleet).2 (task.turn cfg call fleet).1 := by
  obtain ⟨hserved, hsame⟩ := task.turn_frame cfg call fleet
  have hkey' : (task.turn cfg call fleet).1.key? ≠ some k := by
    rcases hsame with hsame | ⟨answer, hdone⟩
    · rw [hsame]
      exact hkey
    · rw [hdone]
      exact fun h => by cases h
  refine ⟨hb.congr (hserved.accepts p) (hserved.entry hkey), ?_, .inl (hserved.entry hkey), ?_⟩
  · generalize (task.turn cfg call fleet).1 = task' at hkey'
    cases task' with
    | set req results cur => exact fun h => absurd (congrArg some h) hkey'
    | get key cur => exact fun h => absurd (congrArg some h) hkey'
    | delete key anyDeleted cur => exact fun h => hkey' (congrArg some h)
    | done answer => trivial
  · intro req results' cur' htask hreq
    rw [htask] at hkey'
    exact absurd (congrArg some hreq) hkey'

theorem RouterTask.Sound.moved (hb : fleet.Backed k p) {task : RouterTask}
    (hsound : task.Sound k p fleet)
    (hquiet : ∀ cur, task.cursor? k = some cur → cur.pos = 0 → cur.left = 1 →
      call.outcome = .answered) :
    task.Moved k p fleet (task.turn cfg call fleet).2 (task.turn cfg call fleet).1 := by
  by_cases hkey : task.key? = some k
  · cases task with
    | set req results cur =>
        have hreq : req.key = k := Option.some.inj hkey
        obtain ⟨httl, hstarts, hwritten⟩ := hsound hreq
        exact moved_set hb hreq httl hstarts hwritten
          (hquiet cur (by rw [cursor?, if_pos hreq])) (set_turn req results cur)
    | get key cur =>
        obtain rfl : key = k := Option.some.inj hkey
        exact moved_get hb (hsound rfl) (hquiet cur (by rw [cursor?, if_pos rfl]))
          (get_turn key cur)
    | delete key anyDeleted cur => exact absurd (Option.some.inj hkey) hsound
    | done answer => cases hkey
  · exact moved_other hb hkey

end Task

/-! ## The system -/

namespace RouterCalls

/-- The invariant of a quiet run. -/
structure Sound (k p : String) (s : RouterCalls) : Prop where
  backed : s.fleet.Backed k p
  tasks : ∀ task ∈ s.tasks, task.Sound k p s.fleet

section System

variable {X : Crates} {cfg : ReplicationConfig} {k p : String} {s t : RouterCalls}

theorem Sound.init {fleet : Fleet} (h : fleet.Backed k p) : Sound k p ⟨fleet, []⟩ :=
  ⟨h, by simp⟩

/-- A call that has just arrived. -/
theorem sound_start (hretries : 1 ≤ cfg.maxRetries) {ring : HashRing} {health : HealthMonitor}
    {request : RouterRequest}
    (hquiet : request.key = k → request.Lasting
      ∧ (alivePreferenceList X cfg ring health k).head?.map (·.addr) = some p) (fleet : Fleet) :
    (RouterTask.start cfg (alivePreferenceList X cfg ring health request.key) request).Sound
      k p fleet := by
  have hstarts : request.key = k → Cursor.Starts p
      ⟨alivePreferenceList X cfg ring health request.key, 0, cfg.maxRetries⟩ := by
    intro hkey
    rw [hkey]
    exact ⟨(hquiet hkey).2, fun _ => hretries⟩
  cases request with
  | set req =>
      rw [RouterTask.start]
      split_ifs
      · trivial
      · exact fun hkey => ⟨(hquiet hkey).1, hstarts hkey, fun hpos => absurd hpos (by simp)⟩
  | get key =>
      rw [RouterTask.start]
      split_ifs
      · trivial
      · exact hstarts
  | delete key =>
      rw [RouterTask.start]
      split_ifs
      · trivial
      · exact fun hkey => (hquiet hkey).1

/-- What a step of a quiet run does to the entries of `k`: nothing, or
the write of a running set. -/
def KeyStep (k p : String) (s : RouterCalls) (e : CallEvent) (t : RouterCalls) : Prop :=
  (∀ a, t.fleet.entry a k = s.fleet.entry a k)
  ∨ ∃ i attempt task addr value, e = .turn i attempt ∧ s.tasks[i]? = some task
    ∧ task.WritesAt k p s.fleet t.fleet addr value

/-- Where the sets of `k` past the primary come from. -/
def SetStep (k p : String) (s t : RouterCalls) : Prop :=
  ∀ req results' cur', .set req results' cur' ∈ t.tasks → req.key = k → 0 < cur'.pos →
    ∃ results cur, .set req results cur ∈ s.tasks
      ∧ (0 < cur.pos ∨ t.fleet.entry p k = some ⟨req.value, none⟩)

theorem Sound.step (hretries : 1 ≤ cfg.maxRetries) (hs : s.Sound k p) {e : CallEvent}
    (hquiet : s.Quiet X cfg k p e) (hstep : s.step X cfg e = some t) :
    t.Sound k p ∧ KeyStep k p s e t ∧ SetStep k p s t := by
  cases e with
  | call ring health request =>
      cases hstep
      refine ⟨⟨hs.backed, fun task htask => ?_⟩, .inl fun _ => rfl, ?_⟩
      · rcases List.mem_append.mp htask with hold | hnew
        · exact hs.tasks task hold
        · rw [List.mem_singleton.mp hnew]
          exact sound_start hretries hquiet s.fleet
      · intro req results' cur' htask hkey hpos
        rcases List.mem_append.mp htask with hold | hnew
        · exact ⟨results', cur', hold, .inl hpos⟩
        -- a task that has just started stands at the primary
        · exfalso
          have hstart := List.mem_singleton.mp hnew
          cases request with
          | set req =>
              rw [RouterTask.start] at hstart
              split_ifs at hstart
              cases hstart
              exact absurd hpos (by simp)
          | get key =>
              rw [RouterTask.start] at hstart
              split_ifs at hstart
          | delete key =>
              rw [RouterTask.start] at hstart
              split_ifs at hstart
  | turn i attempt =>
      obtain ⟨task, htask, rfl⟩ := Option.map_eq_some_iff.mp hstep
      have hmem : task ∈ s.tasks := List.mem_of_getElem? htask
      have hmoved := @RouterTask.Sound.moved cfg attempt k p s.fleet hs.backed task
        (hs.tasks task hmem) fun cur hcur => hquiet task cur htask hcur
      refine ⟨⟨hmoved.backed, fun other hother => ?_⟩, ?_, ?_⟩
      -- the other tasks see at most one write, and that leaves `k` held
      · rcases List.mem_or_eq_of_mem_set hother with hold | rfl
        · apply (hs.tasks other hold).mono
          rcases hmoved.entries with hsame | ⟨addr, value, hwrites⟩
          · rw [hsame]
            exact id
          · exact hwrites.keeps
        · exact hmoved.sound
      · rcases hmoved.entries with hsame | ⟨addr, value, hwrites⟩
        · exact .inl hsame
        · exact .inr ⟨i, attempt, task, addr, value, rfl, htask, hwrites⟩
      · intro req results' cur' hset hkey hpos
        rcases List.mem_or_eq_of_mem_set hset with hold | hnew
        · exact ⟨results', cur', hold, .inl hpos⟩
        · obtain ⟨results, cur, rfl, hcases⟩ := hmoved.sets req results' cur' hnew.symm hkey hpos
          exact ⟨results, cur, hmem, hcases⟩
  | node addr now op =>
      cases hstep
      have hsame := hs.backed.entry_node addr now hquiet.1 hquiet.2
      refine ⟨⟨hs.backed.congr ?_ hsame, fun task htask => ?_⟩, .inl hsame, ?_⟩
      · simp only [Fleet.accepts, Function.update_apply]
        split_ifs with ha
        · rw [ha]
        · rfl
      · apply (hs.tasks task htask).mono
        rw [hsame]
        exact id
      · intro req results' cur' hset _ hpos
        exact ⟨results', cur', hset, .inl hpos⟩

/-! ## Following one read -/

/-- Every value of `k` anywhere, or on its way to a replica, has been
seen at the primary. -/
structure Follows (k : String) (seen : Bytes → Prop) (s : RouterCalls) : Prop where
  entries : ∀ a e, s.fleet.entry a k = some e → seen e.value
  sets : ∀ req results cur, .set req results cur ∈ s.tasks → req.key = k → 0 < cur.pos →
    seen req.value

/-- Where the primary has nothing, there is nothing to follow. -/
theorem Sound.follows (hs : s.Sound k p) (hnone : s.fleet.entry p k = none)
    (seen : Bytes → Prop) : s.Follows k seen where
  entries a e he := by
    rw [hs.backed.backed hnone a] at he
    cases he
  sets req results cur htask hkey hpos :=
    absurd hnone ((hs.tasks _ htask hkey).2.2 hpos)

theorem Follows.step {seen : Bytes → Prop} (h : s.Follows k seen) {e : CallEvent}
    (hkey : KeyStep k p s e t) (hsets : SetStep k p s t) :
    t.Follows k fun v => seen v ∨ t.content p k = some v where
  entries a entry he := by
    rcases hkey with hsame | ⟨i, attempt, task, addr, value, _, htask, hwrites⟩
    · rw [hsame] at he
      exact .inl (h.entries a entry he)
    · rw [hwrites.entries] at he
      split_ifs at he with ha
      · cases he
        obtain ⟨req, results, cur, rfl, hreq, rfl, hzero, _⟩ := hwrites.isSet
        rcases Nat.eq_zero_or_pos cur.pos with hpos | hpos
        · refine .inr ?_
          rw [content, hwrites.entries, if_pos (hzero hpos).symm]
          rfl
        · exact .inl (h.sets req results cur (List.mem_of_getElem? htask) hreq hpos)
      · exact .inl (h.entries a entry he)
  sets req results' cur' htask hreq hpos := by
    obtain ⟨results, cur, hold, hcases⟩ := hsets req results' cur' htask hreq hpos
    rcases hcases with hpast | hnow
    · exact .inl (h.sets req results cur hold hreq hpast)
    · refine .inr ?_
      rw [content, hnow]
      rfl

theorem Follows.mono {seen seen' : Bytes → Prop} (h : s.Follows k seen)
    (hsub : ∀ v, seen v → seen' v) : s.Follows k seen' where
  entries a e he := hsub _ (h.entries a e he)
  sets req results cur htask hkey hpos := hsub _ (h.sets req results cur htask hkey hpos)

/-- The `i`-th call is a read of `k`: at the primary, or past it since the
primary had nothing, or done with an answer seen at the primary. -/
def Reading (k : String) (i : Nat) (seen : Option Bytes → Prop) (s : RouterCalls) : Prop :=
  (∃ cur, s.tasks[i]? = some (.get k cur)
    ∧ (0 < cur.pos → seen none ∧ s.Follows k fun v => seen (some v)))
  ∨ ∃ value, s.tasks[i]? = some (.done (.get (.ok ⟨value, value.isSome⟩))) ∧ seen value

/-- What is seen one step later. -/
def SeenNext (p k : String) (seen : Option Bytes → Prop) (t : RouterCalls) (value : Option Bytes) :
    Prop :=
  seen value ∨ t.content p k = value

/-- A step of another call, or of a node. -/
theorem Reading.other {i : Nat} {seen : Option Bytes → Prop} (h : s.Reading k i seen)
    {e : CallEvent} (hkey : KeyStep k p s e t) (hsets : SetStep k p s t)
    (hsame : ∀ task, s.tasks[i]? = some task → t.tasks[i]? = some task) :
    t.Reading k i (SeenNext p k seen t) := by
  rcases h with ⟨cur, htask, hpast⟩ | ⟨value, htask, hseen⟩
  · refine .inl ⟨cur, hsame _ htask, fun hpos => ?_⟩
    obtain ⟨hnone, hfollows⟩ := hpast hpos
    exact ⟨.inl hnone, hfollows.step hkey hsets⟩
  · exact .inr ⟨value, hsame _ htask, .inl hseen⟩

/-- A step of the read itself. -/
theorem Reading.get (hs : s.Sound k p) {i : Nat} {seen : Option Bytes → Prop}
    (hnow : seen (s.content p k)) {attempt : Attempt} {cur : Cursor}
    (htask : s.tasks[i]? = some (.get k cur))
    (hpast : 0 < cur.pos → seen none ∧ s.Follows k fun v => seen (some v))
    (hkey : KeyStep k p s (.turn i attempt) t) (hsets : SetStep k p s t) {task' : RouterTask}
    (htask' : t.tasks[i]? = some task') (hmove : GetMove cfg attempt s.fleet k cur task' t.fleet) :
    t.Reading k i (SeenNext p k seen t) := by
  have hstarts : cur.Starts p := hs.tasks _ (List.mem_of_getElem? htask) rfl
  -- past the primary the read goes on following the values
  have hgoes : 0 < cur.pos → SeenNext p k seen t none
      ∧ t.Follows k fun v => SeenNext p k seen t (some v) := by
    intro hpos
    obtain ⟨hnone, hfollows⟩ := hpast hpos
    exact ⟨.inl hnone, hfollows.step hkey hsets⟩
  generalize t.fleet = fleet' at hmove
  cases hmove with
  | finish hend => exact .inr ⟨none, htask', .inl (hpast (hstarts.pos_of_end hend)).1⟩
  | exhausted hnode hleft =>
      have hpos : 0 < cur.pos := by
        by_contra hpos
        have := hstarts.left (by omega)
        omega
      exact .inl ⟨_, htask', fun _ => hgoes hpos⟩
  | lost hnode hleft hout | unheard hnode hleft hout => exact .inl ⟨_, htask', hgoes⟩
  | @found node e hnode hread =>
      rw [hs.backed.readable_eq] at hread
      refine .inr ⟨some e.value, htask', .inl ?_⟩
      rcases Nat.eq_zero_or_pos cur.pos with hpos | hpos
      · rw [hstarts.addr_eq hnode hpos] at hread
        rwa [content, hread] at hnow
      · exact (hpast hpos).2.entries _ e hread
  | @missed node hnode hread =>
      rw [hs.backed.readable_eq] at hread
      refine .inl ⟨_, htask', fun _ => ?_⟩
      rcases Nat.eq_zero_or_pos cur.pos with hpos | hpos
      · rw [hstarts.addr_eq hnode hpos] at hread
        rw [content, hread] at hnow
        exact ⟨.inl hnow, (hs.follows hread _).step hkey hsets⟩
      · exact hgoes hpos

theorem Reading.step (hretries : 1 ≤ cfg.maxRetries) (hs : s.Sound k p) {i : Nat}
    {seen : Option Bytes → Prop} (hnow : seen (s.content p k)) (h : s.Reading k i seen)
    {e : CallEvent} (hquiet : s.Quiet X cfg k p e) (hstep : s.step X cfg e = some t) :
    t.Reading k i (SeenNext p k seen t) := by
  obtain ⟨_, hkey, hsets⟩ := hs.step hretries hquiet hstep
  cases e with
  | call ring health request =>
      cases hstep
      refine h.other hkey hsets fun task htask => ?_
      rw [List.getElem?_append_left (List.getElem?_eq_some_iff.mp htask).1]
      exact htask
  | node addr now op =>
      cases hstep
      exact h.other hkey hsets fun _ htask => htask
  | turn j attempt =>
      obtain ⟨task, htask, rfl⟩ := Option.map_eq_some_iff.mp hstep
      by_cases hj : j = i
      · subst hj
        have hset : ∀ task' : RouterTask, (s.tasks.set j task')[j]? = some task' :=
          fun _ => List.getElem?_set_self (List.getElem?_eq_some_iff.mp htask).1
        rcases h with ⟨cur, hget, hpast⟩ | ⟨value, hdone, hseen⟩
        · obtain rfl : task = .get k cur := Option.some.inj (htask.symm.trans hget)
          exact Reading.get hs hnow hget hpast hkey hsets (hset _) (get_turn k cur)
        · obtain rfl : task = _ := Option.some.inj (htask.symm.trans hdone)
          exact .inr ⟨value, hset _, .inl hseen⟩
      · exact h.other hkey hsets fun task' htask' => by rwa [List.getElem?_set_ne hj]

theorem Reading.mono {i : Nat} {seen seen' : Option Bytes → Prop} (h : s.Reading k i seen)
    (hsub : ∀ value, seen value → seen' value) : s.Reading k i seen' := by
  rcases h with ⟨cur, htask, hpast⟩ | ⟨value, htask, hseen⟩
  · refine .inl ⟨cur, htask, fun hpos => ?_⟩
    obtain ⟨hnone, hfollows⟩ := hpast hpos
    exact ⟨hsub none hnone, hfollows.mono fun v => hsub (some v)⟩
  · exact .inr ⟨value, htask, hsub value hseen⟩

/-! ## Following one set -/

/-- The `i`-th call sets `k`: at the primary, or past it with its value
seen there, or done and acknowledged. -/
def Writing (req : SetRequest) (i : Nat) (seen : Option Bytes → Prop) (s : RouterCalls) : Prop :=
  (∃ results cur, s.tasks[i]? = some (.set req results cur) ∧ (cur.pos = 0 → results = [])
    ∧ (0 < cur.pos → results.head? = some true ∧ seen (some req.value)))
  ∨ (s.tasks[i]? = some (.done (.set (.ok ⟨true⟩))) ∧ seen (some req.value))

theorem Writing.mono {req : SetRequest} {i : Nat} {seen seen' : Option Bytes → Prop}
    (h : s.Writing req i seen) (hsub : ∀ value, seen value → seen' value) :
    s.Writing req i seen' := by
  rcases h with ⟨results, cur, htask, hzero, hpast⟩ | ⟨htask, hseen⟩
  · exact .inl ⟨results, cur, htask, hzero, fun hpos => ⟨(hpast hpos).1, hsub _ (hpast hpos).2⟩⟩
  · exact .inr ⟨htask, hsub _ hseen⟩

/-- A step of the set itself. -/
theorem Writing.set (hs : s.Sound k p) {req : SetRequest} (hreq : req.key = k) {i : Nat}
    {seen : Option Bytes → Prop} {attempt : Attempt} {results : List Bool} {cur : Cursor}
    (htask : s.tasks[i]? = some (.set req results cur)) (hzero : cur.pos = 0 → results = [])
    (hpast : 0 < cur.pos → results.head? = some true ∧ seen (some req.value))
    {task' : RouterTask} (htask' : t.tasks[i]? = some task')
    (hmove : SetMove cfg attempt s.fleet req results cur task' t.fleet) :
    t.Writing req i (SeenNext p k seen t) := by
  obtain ⟨_, hstarts, _⟩ := hs.tasks _ (List.mem_of_getElem? htask) hreq
  generalize hfleet : t.fleet = fleet' at hmove
  cases hmove with
  | finish hend =>
      obtain ⟨hhead, hseen⟩ := hpast (hstarts.pos_of_end hend)
      rw [hhead] at htask'
      exact .inr ⟨htask', .inl hseen⟩
  | exhausted hnode hleft =>
      have hpos : 0 < cur.pos := by
        by_contra hpos
        have := hstarts.left (by omega)
        omega
      obtain ⟨hhead, hseen⟩ := hpast hpos
      refine .inl ⟨_, _, htask', fun hnext => absurd hnext (by simp), fun _ => ⟨?_, .inl hseen⟩⟩
      rw [List.head?_append, hhead]
      rfl
  | lost hnode hleft hout | unheard hnode hleft hout =>
      exact .inl ⟨_, _, htask', hzero, fun hpos => ⟨(hpast hpos).1, .inl (hpast hpos).2⟩⟩
  | @answered node hnode hleft haccepts =>
      refine .inl ⟨_, _, htask', fun hnext => absurd hnext (by simp), fun _ => ?_⟩
      rcases Nat.eq_zero_or_pos cur.pos with hpos | hpos
      · rw [hzero hpos]
        refine ⟨rfl, .inr ?_⟩
        rw [content, hfleet, Fleet.entry_set,
          if_pos ⟨haccepts, (hstarts.addr_eq hnode hpos).symm, hreq.symm⟩]
        rfl
      · obtain ⟨hhead, hseen⟩ := hpast hpos
        refine ⟨?_, .inl hseen⟩
        rw [List.head?_append, hhead]
        rfl

theorem Writing.step (hs : s.Sound k p) {req : SetRequest} (hreq : req.key = k) {i : Nat}
    {seen : Option Bytes → Prop} (h : s.Writing req i seen) {e : CallEvent}
    (hstep : s.step X cfg e = some t) : t.Writing req i (SeenNext p k seen t) := by
  have hother : (∀ task, s.tasks[i]? = some task → t.tasks[i]? = some task) →
      t.Writing req i (SeenNext p k seen t) := by
    intro hsame
    rcases h with ⟨results, cur, htask, hzero, hpast⟩ | ⟨htask, hseen⟩
    · exact .inl ⟨results, cur, hsame _ htask, hzero,
        fun hpos => ⟨(hpast hpos).1, .inl (hpast hpos).2⟩⟩
    · exact .inr ⟨hsame _ htask, .inl hseen⟩
  cases e with
  | call ring health request =>
      cases hstep
      refine hother fun task htask => ?_
      rw [List.getElem?_append_left (List.getElem?_eq_some_iff.mp htask).1]
      exact htask
  | node addr now op =>
      cases hstep
      exact hother fun _ htask => htask
  | turn j attempt =>
      obtain ⟨task, htask, rfl⟩ := Option.map_eq_some_iff.mp hstep
      by_cases hj : j = i
      · subst hj
        have hset : ∀ task' : RouterTask, (s.tasks.set j task')[j]? = some task' :=
          fun _ => List.getElem?_set_self (List.getElem?_eq_some_iff.mp htask).1
        rcases h with ⟨results, cur, hold, hzero, hpast⟩ | ⟨hdone, hseen⟩
        · obtain rfl : task = .set req results cur := Option.some.inj (htask.symm.trans hold)
          exact Writing.set hs hreq hold hzero hpast (hset _) (set_turn req results cur)
        · obtain rfl : task = _ := Option.some.inj (htask.symm.trans hdone)
          exact .inr ⟨hset _, .inl hseen⟩
      · exact hother fun task' htask' => by rwa [List.getElem?_set_ne hj]

/-! ## Whole runs -/

/-- What one step carries on about a call, with the values seen so far, a
run carries on, with the values the primary passes through. -/
theorem follow_run (hretries : 1 ≤ cfg.maxRetries)
    {I : (Option Bytes → Prop) → RouterCalls → Prop}
    (hmono : ∀ {u seen seen'}, I seen u → (∀ value, seen value → seen' value) → I seen' u)
    (hI : ∀ {u u' e seen}, u.Sound k p → seen (u.content p k) → I seen u →
      u.Quiet X cfg k p e → u.step X cfg e = some u' → I (SeenNext p k seen u') u')
    {during : List CallEvent} (hs : s.Sound k p) (hstart : I (fun value => s.content p k = value) s)
    (hquiet : Trace.Along (step X cfg) (Quiet X cfg k p) s during)
    (hrun : Trace.exec (step X cfg) s during = some t) :
    I (fun value => Trace.Visits (step X cfg) (fun u => u.content p k = value) s during) t := by
  refine (Trace.exec_history (C := Quiet X cfg k p)
    (I := fun past u => Trace.exec (step X cfg) s past = some u ∧ u.Sound k p
      ∧ I (fun value => Trace.Visits (step X cfg) (fun v => v.content p k = value) s past) u)
    (fun past u e u' hu hq hstep => ?_) [] ⟨rfl, hs, ?_⟩ hquiet hrun).2.2
  · obtain ⟨hpast, hsound, hIu⟩ := hu
    have hpast' := Trace.exec_concat hpast hstep
    refine ⟨hpast', (hsound.step hretries hq hstep).1, ?_⟩
    have hnow : Trace.Visits (RouterCalls.step X cfg) (fun v => v.content p k = u.content p k) s
        past := Trace.visits_of_exec hpast rfl
    refine hmono (hI hsound hnow hIu hq hstep) fun value hseen => ?_
    rcases hseen with hseen | hnow
    · exact hseen.append [e]
    · exact Trace.visits_of_exec hpast' hnow
  · exact hmono hstart fun value hvalue => Trace.visits_of_exec rfl hvalue

/-- A quiet run splits at a call. -/
theorem quiet_split (hretries : 1 ≤ cfg.maxRetries) {fleet : Fleet} (hfleet : fleet.Backed k p)
    {before during : List CallEvent} {e : CallEvent} {s₀ : RouterCalls}
    (hquiet : Trace.Along (RouterCalls.step X cfg) (Quiet X cfg k p) ⟨fleet, []⟩
      (before ++ e :: during))
    (hbefore : Trace.exec (RouterCalls.step X cfg) ⟨fleet, []⟩ before = some s₀)
    (harrives : s₀.step X cfg e = some s) :
    s₀.Quiet X cfg k p e ∧ s.Sound k p
      ∧ Trace.Along (RouterCalls.step X cfg) (Quiet X cfg k p) s during := by
  obtain ⟨hfirst, hrest⟩ := Trace.along_append hbefore hquiet
  obtain ⟨hcall, hlater⟩ := Trace.along_cons.mp hrest s harrives
  have hsound : s₀.Sound k p := Trace.exec_invariant
    (fun _ _ _ hu hq hstep => (Sound.step hretries hu hq hstep).1) (Sound.init hfleet) hfirst
    hbefore
  exact ⟨hcall, (hsound.step hretries hcall harrives).1, hlater⟩

/-- **A read is atomic.** In a quiet run from a fleet that is `Backed`
(the primary takes writes, holds something for `k` if anybody does, and
no copy expires) a finished `get` of `k`, whatever ran beside it, answers
with what the primary held at some instant between the call and the
answer; in particular it does not fail. -/
theorem get_is_atomic (X : Crates) (hretries : 1 ≤ cfg.maxRetries) {fleet : Fleet}
    (hfleet : fleet.Backed k p) {before during : List CallEvent} {ring : HashRing}
    {health : HealthMonitor} {s₀ : RouterCalls} {answer : ClientAnswer}
    (hquiet : Trace.Along (RouterCalls.step X cfg) (Quiet X cfg k p) ⟨fleet, []⟩
      (before ++ .call ring health (.get k) :: during))
    (hbefore : Trace.exec (RouterCalls.step X cfg) ⟨fleet, []⟩ before = some s₀)
    (harrives : s₀.step X cfg (.call ring health (.get k)) = some s)
    (hduring : Trace.exec (RouterCalls.step X cfg) s during = some t)
    (hdone : t.tasks[s₀.tasks.length]? = some (.done answer)) :
    ∃ value, answer = .get (.ok ⟨value, value.isSome⟩)
      ∧ Trace.Visits (RouterCalls.step X cfg) (fun u => u.content p k = value) s during := by
  obtain ⟨hcall, hsound, hlater⟩ := quiet_split hretries hfleet hquiet hbefore harrives
  have hstart : s.Reading k s₀.tasks.length fun value => s.content p k = value := by
    cases harrives
    refine .inl ⟨⟨alivePreferenceList X cfg ring health k, 0, cfg.maxRetries⟩, ?_, by simp⟩
    have hlist : alivePreferenceList X cfg ring health k ≠ [] := by
      intro hempty
      have hhead := (hcall rfl).2
      rw [hempty] at hhead
      cases hhead
    simp [RouterTask.start, RouterRequest.key, hlist]
  have hread := follow_run (I := fun seen u => u.Reading k s₀.tasks.length seen) hretries
    (fun h hsub => h.mono hsub)
    (fun hu hnow h hq hstep => h.step hretries hu hnow hq hstep) hsound hstart hlater hduring
  rcases hread with ⟨cur, htask, _⟩ | ⟨value, htask, hseen⟩
  · rw [htask] at hdone
    cases hdone
  · rw [htask] at hdone
    cases hdone
    exact ⟨value, rfl, hseen⟩

/-- **A write is atomic.** In a quiet run from a fleet that is `Backed`
the primary's content changes only by a step of a running `set` of `k`,
to the value of that set; and a finished `set` succeeded, and its value
was the content at some instant between the call and the answer. -/
theorem set_is_atomic (X : Crates) (hretries : 1 ≤ cfg.maxRetries) {fleet : Fleet}
    (hfleet : fleet.Backed k p) {es : List CallEvent}
    (hquiet : Trace.Along (RouterCalls.step X cfg) (Quiet X cfg k p) ⟨fleet, []⟩ es) :
    Trace.Along (RouterCalls.step X cfg) (fun u e => ∀ u', u.step X cfg e = some u' →
        u'.content p k ≠ u.content p k →
        ∃ i attempt req results cur, e = .turn i attempt
          ∧ u.tasks[i]? = some (.set req results cur) ∧ req.key = k
          ∧ u'.content p k = some req.value) ⟨fleet, []⟩ es
    ∧ ∀ before during ring health req s₀ s t answer, req.key = k →
      es = before ++ .call ring health (.set req) :: during →
      Trace.exec (RouterCalls.step X cfg) ⟨fleet, []⟩ before = some s₀ →
      s₀.step X cfg (.call ring health (.set req)) = some s →
      Trace.exec (RouterCalls.step X cfg) s during = some t →
      t.tasks[s₀.tasks.length]? = some (.done answer) →
      answer = .set (.ok ⟨true⟩)
        ∧ Trace.Visits (RouterCalls.step X cfg) (fun u => u.content p k = some req.value) s
          during := by
  constructor
  · have hsound : Trace.Throughout (RouterCalls.step X cfg) (Sound k p) ⟨fleet, []⟩ es :=
      Trace.throughout_of_along (fun _ _ _ hu hq hstep => (Sound.step hretries hu hq hstep).1)
        (Sound.init hfleet) hquiet
    refine ((Trace.along_of_throughout hsound).and hquiet).mono ?_
    intro u e ⟨hu, hq⟩ u' hstep hchange
    obtain ⟨_, hkey, _⟩ := Sound.step hretries hu hq hstep
    rcases hkey with hsame | ⟨i, attempt, task, addr, value, rfl, htask, hwrites⟩
    · exact absurd (by rw [content, content, hsame]) hchange
    · obtain ⟨req, results, cur, rfl, hreq, rfl, _⟩ := hwrites.isSet
      refine ⟨i, attempt, req, results, cur, rfl, htask, hreq, ?_⟩
      have hentry := hwrites.entries p
      split_ifs at hentry
      · rw [content, hentry]
        rfl
      · exact absurd (by rw [content, content, hentry]) hchange
  · intro before during ring health req s₀ s t answer hreq hes hbefore harrives hduring hdone
    rw [hes] at hquiet
    obtain ⟨hcall, hsound, hlater⟩ := quiet_split hretries hfleet hquiet hbefore harrives
    have hstart : s.Writing req s₀.tasks.length fun value => s.content p k = value := by
      cases harrives
      refine .inl ⟨[], ⟨alivePreferenceList X cfg ring health req.key, 0, cfg.maxRetries⟩, ?_,
        fun _ => rfl, by simp⟩
      have hlist : alivePreferenceList X cfg ring health req.key ≠ [] := by
        intro hempty
        have hhead := (hcall hreq).2
        rw [← hreq, hempty] at hhead
        cases hhead
      simp [RouterTask.start, RouterRequest.key, hlist]
    -- along the run the set is still under way, or done and its value was seen
    have hwrite := follow_run (I := fun seen u => u.Writing req s₀.tasks.length seen) hretries
      (fun h hsub => h.mono hsub) (fun hu _ h _ hstep => h.step hu hreq hstep) hsound hstart
      hlater hduring
    rcases hwrite with ⟨results, cur, htask, _⟩ | ⟨htask, hseen⟩
    · rw [htask] at hdone
      cases hdone
    · rw [htask] at hdone
      cases hdone
      exact ⟨rfl, hseen⟩

end System

/-! ## A read overtaken by a write -/

/-- Every list begins at node `a` and every call is answered. -/
theorem quiet_threeNodes {es : List CallEvent}
    (h : ∀ e ∈ es, match e with
      | .call ring health request => ring = ThreeNodes.ring ∧ health = .new ∧ request.Lasting
      | .turn _ attempt => attempt.outcome = .answered
      | .node _ _ _ => False) (s : RouterCalls) :
    Trace.Along (step ThreeNodes.crates ⟨3, 1⟩) (Quiet ThreeNodes.crates ⟨3, 1⟩ "" "a") s es := by
  refine (Trace.along_of_forall h s).mono fun u e he => ?_
  cases e with
  | call ring health request =>
      obtain ⟨rfl, rfl, hlasting⟩ := he
      exact fun _ => ⟨hlasting, by decide⟩
  | turn i attempt => exact fun _ _ _ _ _ _ => he
  | node addr now op => exact he.elim

/-- The read misses at `a`, the write gets to `a` and `b`, the read finds
the value at `b`. -/
def overtaken : List CallEvent :=
  [.turn 0 ⟨.answered, 1⟩, .call ThreeNodes.ring .new (.set ⟨"", [7], none⟩),
    .turn 1 ⟨.answered, 2⟩, .turn 1 ⟨.answered, 3⟩, .turn 0 ⟨.answered, 4⟩]

theorem backed_threeNodes : ThreeNodes.fleet.Backed "" "a" where
  accepts := rfl
  lasting a e he := by cases he
  backed _ a := rfl

theorem get_is_atomic_overtaken :
    ∃ s, Trace.Visits (step ThreeNodes.crates ⟨3, 1⟩) (fun u => u.content "a" "" = some [7]) s
      overtaken := by
  obtain ⟨s, t, harrives, hduring, hdone⟩ : ∃ s t,
      (RouterCalls.mk ThreeNodes.fleet []).step ThreeNodes.crates ⟨3, 1⟩
        (.call ThreeNodes.ring .new (.get "")) = some s
      ∧ Trace.exec (step ThreeNodes.crates ⟨3, 1⟩) s overtaken = some t
      ∧ t.tasks[0]? = some (.done (.get (.ok ⟨some [7], true⟩))) :=
    ⟨_, _, rfl, rfl, rfl⟩
  have hquiet : Trace.Along (step ThreeNodes.crates ⟨3, 1⟩) (Quiet ThreeNodes.crates ⟨3, 1⟩ "" "a")
      ⟨ThreeNodes.fleet, []⟩ ([] ++ .call ThreeNodes.ring .new (.get "") :: overtaken) :=
    quiet_threeNodes (by simp [overtaken, RouterRequest.Lasting]) _
  obtain ⟨value, hanswer, hseen⟩ := get_is_atomic ThreeNodes.crates (by decide) backed_threeNodes
    hquiet rfl harrives hduring hdone
  cases hanswer
  exact ⟨s, hseen⟩

theorem set_is_atomic_threeTurns :
    ∃ s t, Trace.exec (step ThreeNodes.crates ⟨3, 1⟩) s
        [.turn 0 ⟨.answered, 1⟩, .turn 0 ⟨.answered, 2⟩, .turn 0 ⟨.answered, 3⟩,
          .turn 0 ⟨.answered, 4⟩] = some t
      ∧ t.tasks[0]? = some (.done (.set (.ok ⟨true⟩))) := by
  obtain ⟨s, t, answer, harrives, hduring, hdone⟩ : ∃ s t answer,
      (RouterCalls.mk ThreeNodes.fleet []).step ThreeNodes.crates ⟨3, 1⟩
        (.call ThreeNodes.ring .new (.set ⟨"", [7], none⟩)) = some s
      ∧ Trace.exec (step ThreeNodes.crates ⟨3, 1⟩) s
        [.turn 0 ⟨.answered, 1⟩, .turn 0 ⟨.answered, 2⟩, .turn 0 ⟨.answered, 3⟩,
          .turn 0 ⟨.answered, 4⟩] = some t
      ∧ t.tasks[0]? = some (.done answer) :=
    ⟨_, _, _, rfl, rfl, rfl⟩
  have hquiet : Trace.Along (step ThreeNodes.crates ⟨3, 1⟩) (Quiet ThreeNodes.crates ⟨3, 1⟩ "" "a")
      ⟨ThreeNodes.fleet, []⟩ (.call ThreeNodes.ring .new (.set ⟨"", [7], none⟩) ::
        [.turn 0 ⟨.answered, 1⟩, .turn 0 ⟨.answered, 2⟩, .turn 0 ⟨.answered, 3⟩,
          .turn 0 ⟨.answered, 4⟩]) :=
    quiet_threeNodes (by simp [RouterRequest.Lasting]) _
  obtain ⟨_, hsets⟩ := set_is_atomic ThreeNodes.crates (by decide) backed_threeNodes hquiet
  obtain ⟨hok, _⟩ := hsets [] _ _ _ _ _ _ _ _ rfl rfl rfl harrives hduring hdone
  rw [hok] at hdone
  exact ⟨s, t, hduring, hdone⟩

end RouterCalls

end SelfHealingCache
