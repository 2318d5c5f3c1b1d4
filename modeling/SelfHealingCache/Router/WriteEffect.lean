import SelfHealingCache.Router.DeleteEffect

/-!
# What a write through the router leaves behind

`ReplicationCoordinator::set` answers for its PRIMARY alone and retries
each node separately, so what it leaves on the replicas depends on the
fate of every single call: a call whose answer was lost may have been
executed, and the next attempt writes again, with an expiry counted from
a later instant.

`coordinatorSet_effect` gives the whole outcome under any faults: the
answer, and the entry at every address and key. The one quantity is
`executions`, the instants at which a node's handler ran; the last one
decides the entry. `coordinatorGet_after_set` says what a read then
finds, acknowledged or not.
-/

namespace SelfHealingCache

/-- The instants at which a retry loop reaches the handler: every
executed call up to the first one answered, which ends the loop. -/
def executions : List Attempt → List Instant
  | [] => []
  | call :: rest =>
      match call.outcome with
      | .connectError => executions rest
      | .rpcError executed => if executed then call.time :: executions rest else executions rest
      | .answered => [call.time]

/-- The calls `i`, `i + 1`, …, `left` of them. -/
def callsFrom (calls : Nat → Attempt) (i left : Nat) : List Attempt :=
  (List.range' i left).map calls

@[simp] theorem callsFrom_zero (calls : Nat → Attempt) (i : Nat) : callsFrom calls i 0 = [] :=
  rfl

@[simp] theorem callsFrom_succ (calls : Nat → Attempt) (i left : Nat) :
    callsFrom calls i (left + 1) = calls i :: callsFrom calls (i + 1) left := by
  rw [callsFrom, callsFrom, List.range'_succ, List.map_cons]

/-- Some call was answered. -/
def anyAnswered (calls : List Attempt) : Bool :=
  calls.any fun call => call.outcome = .answered

/-- What a request leaves when it is executed at `now`. -/
def SetRequest.entryAt (req : SetRequest) (now : Instant) : CacheEntry :=
  ⟨req.value, (req.ttlMs.map fromMillis).map (now + ·)⟩

/-- The node at this address takes writes. -/
def Fleet.accepts (fleet : Fleet) (addr : String) : Bool :=
  !(fleet addr).table.isSelfJoining

/-! ## One handler call -/

section Call

variable {fleet : Fleet} {addr : String} {now : Instant} {req : SetRequest}

@[simp] theorem Fleet.accepts_set (a : String) :
    Fleet.accepts (Function.update fleet addr ((fleet addr).set now req).2) a
      = fleet.accepts a := by
  rw [accepts, accepts, Function.update_apply]
  by_cases ha : a = addr
  · rw [if_pos ha, ha, CacheService.set]
    split_ifs <;> rfl
  · rw [if_neg ha]

theorem Fleet.entry_set (a k : String) :
    Fleet.entry (Function.update fleet addr ((fleet addr).set now req).2) a k
      = if fleet.accepts addr ∧ a = addr ∧ k = req.key then some (req.entryAt now)
        else fleet.entry a k := by
  rw [Fleet.entry_update, Fleet.accepts]
  by_cases ha : a = addr
  · subst ha
    cases hjoining : (fleet a).table.isSelfJoining with
    | true => simp [CacheService.set, hjoining, Fleet.entry]
    | false =>
        by_cases hk : k = req.key
        · simp [CacheService.set, hjoining, hk, SetRequest.entryAt]
        · simp [CacheService.set, hjoining, hk, Fleet.entry]
  · simp [ha]

theorem Fleet.set_fst :
    ((fleet addr).set now req).1
      = if fleet.accepts addr then .ok ⟨true⟩ else .error .joining := by
  rw [Fleet.accepts, CacheService.set]
  cases (fleet addr).table.isSelfJoining <;> rfl

end Call

/-! ## The retry loop at one node -/

section Node

variable {req : SetRequest} {addr : String} {calls : Nat → Attempt}

theorem accepts_setNode (a : String) (left i : Nat) (fleet : Fleet) :
    (setNode req addr calls left i fleet).2.accepts a = fleet.accepts a :=
  setNode_preserves (fun f => f.accepts a = fleet.accepts a)
    (fun _ _ hf => (Fleet.accepts_set a).trans hf) rfl

/-- A node that takes writes acknowledges exactly when it can answer. -/
theorem setNode_fst (left i : Nat) (fleet : Fleet) :
    (setNode req addr calls left i fleet).1
      = (fleet.accepts addr && anyAnswered (callsFrom calls i left)) := by
  induction left generalizing i fleet with
  | zero => simp [setNode, anyAnswered]
  | succ left ih =>
      rw [setNode, callsFrom_succ, anyAnswered, List.any_cons]
      cases hout : (calls i).outcome with
      | connectError =>
          dsimp only
          rw [ih]
          simp [anyAnswered]
      | rpcError executed =>
          dsimp only
          rw [ih]
          cases executed <;> simp [anyAnswered]
      | answered =>
          dsimp only
          rw [Fleet.set_fst]
          cases haccepts : fleet.accepts addr with
          | true => simp
          | false =>
              simp only [Bool.false_eq_true, if_false]
              rw [ih]
              simp [haccepts]

/-- **One node after its retry loop**: it holds what the last executed
call wrote. -/
theorem entry_setNode (a k : String) (left i : Nat) (fleet : Fleet) :
    (setNode req addr calls left i fleet).2.entry a k
      = if fleet.accepts addr ∧ a = addr ∧ k = req.key
        then ((executions (callsFrom calls i left)).getLast?.map req.entryAt).or (fleet.entry a k)
        else fleet.entry a k := by
  induction left generalizing i fleet with
  | zero => simp [setNode, executions]
  | succ left ih =>
      by_cases hhere : fleet.accepts addr ∧ a = addr ∧ k = req.key
      · have hserved := @Fleet.entry_set fleet addr (calls i).time req a k
        rw [if_pos hhere] at hserved
        rw [if_pos hhere, setNode, callsFrom_succ, executions]
        cases hout : (calls i).outcome with
        | connectError =>
            dsimp only
            rw [ih, if_pos hhere]
        | rpcError executed =>
            cases executed with
            | true =>
                simp only [if_true]
                rw [ih, Fleet.accepts_set, if_pos hhere, hserved, List.getLast?_cons]
                -- a later executed call hides this one
                cases (executions (callsFrom calls (i + 1) left)).getLast? <;> rfl
            | false =>
                simp only [Bool.false_eq_true, if_false]
                rw [ih, if_pos hhere]
        -- the loop ends at the first answer
        | answered =>
            dsimp only
            rw [Fleet.set_fst, if_pos hhere.1]
            exact hserved
      · rw [if_neg hhere]
        exact setNode_preserves
          (fun f => f.accepts addr = fleet.accepts addr ∧ f.entry a k = fleet.entry a k)
          (fun f now hf => by
            rw [Fleet.accepts_set, Fleet.entry_set, if_neg (by rw [hf.1]; exact hhere)]
            exact hf)
          ⟨rfl, rfl⟩ |>.2

end Node

/-! ## All the chosen nodes -/

section Nodes

variable {cfg : ReplicationConfig} {req : SetRequest} {faults : Faults}

/-- The instants at which the handler at address `a` runs, over all the
chosen nodes listening there, in order. -/
def writesAt (cfg : ReplicationConfig) (faults : Faults) (nodes : List NodeInfo) (a : String) :
    List Instant :=
  (nodes.filter fun n => n.addr = a).flatMap
    fun n => executions (callsFrom (faults n) 0 cfg.maxRetries)

theorem writesAt_cons (node : NodeInfo) (rest : List NodeInfo) (a : String) :
    writesAt cfg faults (node :: rest) a
      = (if node.addr = a then executions (callsFrom (faults node) 0 cfg.maxRetries) else [])
        ++ writesAt cfg faults rest a := by
  rw [writesAt, writesAt, List.filter_cons]
  by_cases ha : node.addr = a
  · simp [ha]
  · simp [ha]

theorem entry_setNodes (a k : String) (nodes : List NodeInfo) (fleet : Fleet) :
    (setNodes cfg req faults nodes fleet).2.entry a k
      = if fleet.accepts a ∧ k = req.key
        then ((writesAt cfg faults nodes a).getLast?.map req.entryAt).or (fleet.entry a k)
        else fleet.entry a k := by
  induction nodes generalizing fleet with
  | nil => simp [setNodes, writesAt]
  | cons node rest ih =>
      rw [setNodes, writesAt_cons]
      dsimp only
      rw [ih, accepts_setNode, entry_setNode]
      by_cases hk : fleet.accepts a ∧ k = req.key
      · by_cases ha : a = node.addr
        · have hhere : fleet.accepts node.addr ∧ a = node.addr ∧ k = req.key :=
            ⟨ha ▸ hk.1, ha, hk.2⟩
          rw [if_pos hk, if_pos hk, if_pos hhere, if_pos ha.symm, List.getLast?_append]
          cases (writesAt cfg faults rest a).getLast? <;> simp
        · have hthere : ¬ (fleet.accepts node.addr ∧ a = node.addr ∧ k = req.key) :=
            fun h => ha h.2.1
          rw [if_pos hk, if_pos hk, if_neg hthere, if_neg (Ne.symm ha), List.nil_append]
      · have hthere : ¬ (fleet.accepts node.addr ∧ a = node.addr ∧ k = req.key) := by
          intro h
          apply hk
          rw [h.2.1]
          exact ⟨h.1, h.2.2⟩
        rw [if_neg hk, if_neg hk, if_neg hthere]

/-- A read whose calls are all answered at `now` returns the first
readable entry, in the order of the list. -/
theorem getNodes_eq_findSome {k : String} {now : Instant} (hretries : 1 ≤ cfg.maxRetries)
    (nodes : List NodeInfo) (fleet : Fleet) :
    (getNodes cfg k (fun _ _ => ⟨.answered, now⟩) nodes fleet).1
      = (nodes.findSome? fun n => fleet.readable now n.addr k).map
          fun e => ⟨some e.value, true⟩ := by
  obtain ⟨left, hleft⟩ : ∃ left, cfg.maxRetries = left + 1 := ⟨cfg.maxRetries - 1, by omega⟩
  induction nodes generalizing fleet with
  | nil => rfl
  | cons node rest ih =>
      rw [getNodes, hleft, getNodeAt, List.findSome?_cons]
      cases hread : fleet.readable now node.addr k with
      | some e =>
          rw [Fleet.get_fst_of_readable hread]
          rfl
      | none =>
          rw [Fleet.get_fst_of_unreadable hread]
          simp only [Bool.false_eq_true, if_false]
          rw [ih]
          simp only [Fleet.readable_get]

end Nodes

/-! ## The coordinator -/

section Coordinator

variable (X : Crates) (cfg : ReplicationConfig) (ring : HashRing) (health : HealthMonitor)

/-- **A write, exactly.** Under any faults the answer is decided by the
primary: it takes writes and one of its calls is answered. And at every
address and key the entry is what it was, except for the key written at
the chosen nodes that take writes: there it is what the last executed
call wrote, whatever the client was told. -/
theorem coordinatorSet_effect (req : SetRequest) (faults : Faults) (fleet : Fleet) :
    (coordinatorSet X cfg ring health req faults fleet).1
      = (match alivePreferenceList X cfg ring health req.key with
        | [] => .error "No alive nodes available for write"
        | primary :: _ =>
            if fleet.accepts primary.addr
              && anyAnswered (callsFrom (faults primary) 0 cfg.maxRetries)
            then .ok ⟨true⟩ else .error "Primary write failed")
    ∧ ∀ a k, (coordinatorSet X cfg ring health req faults fleet).2.entry a k
        = if fleet.accepts a ∧ k = req.key
          then ((writesAt cfg faults (alivePreferenceList X cfg ring health req.key) a).getLast?.map
            req.entryAt).or (fleet.entry a k)
          else fleet.entry a k := by
  rw [coordinatorSet]
  cases hlist : alivePreferenceList X cfg ring health req.key with
  | nil => exact ⟨rfl, by simp [writesAt]⟩
  | cons primary rest =>
      have hentries := fun a k => @entry_setNodes cfg req faults a k (primary :: rest) fleet
      have hhead : (setNodes cfg req faults (primary :: rest) fleet).1.head?.getD false
          = (fleet.accepts primary.addr
            && anyAnswered (callsFrom (faults primary) 0 cfg.maxRetries)) := by
        rw [setNodes]
        exact setNode_fst cfg.maxRetries 0 fleet
      simp only [List.isEmpty_cons, Bool.false_eq_true, if_false, hhead]
      split_ifs
      · exact ⟨rfl, hentries⟩
      · exact ⟨rfl, hentries⟩

/-- A read whose calls are all answered, of a key with a routable
replica. -/
theorem coordinatorGet_answered (k : String) (now : Instant) (hretries : 1 ≤ cfg.maxRetries)
    (fleet : Fleet) (hlist : alivePreferenceList X cfg ring health k ≠ []) :
    (coordinatorGet X cfg ring health k (fun _ _ => ⟨.answered, now⟩) fleet).1
      = .ok (match (alivePreferenceList X cfg ring health k).findSome? fun n =>
            fleet.readable now n.addr k with
          | some e => ⟨some e.value, true⟩
          | none => ⟨none, false⟩) := by
  have hget := @getNodes_eq_findSome cfg k now hretries
    (alivePreferenceList X cfg ring health k) fleet
  simp only [coordinatorGet, List.isEmpty_iff, hlist, if_false]
  cases hout : getNodes cfg k (fun _ _ => ⟨.answered, now⟩)
      (alivePreferenceList X cfg ring health k) fleet with
  | mk answer fleet' =>
      rw [hout] at hget
      dsimp only at hget
      rw [hget]
      cases (alivePreferenceList X cfg ring health k).findSome?
          fun n => fleet.readable now n.addr k with
      | some e => rfl
      | none => rfl

/-- What the last executed call left at `a`, or else what was there. -/
def Fleet.afterWrite (fleet : Fleet) (req : SetRequest) (writes : String → List Instant)
    (a : String) : Option CacheEntry :=
  if fleet.accepts a then ((writes a).getLast?.map req.entryAt).or (fleet.entry a req.key)
  else fleet.entry a req.key

/-- **What a read finds after a write**, acknowledged or not, with the
same ring and health and every call of the read answered at `now`: the
first of the chosen nodes that holds something unexpired, the new value
where a call was executed and the old one where none was. -/
theorem coordinatorGet_after_set (req : SetRequest) (faults : Faults) (fleet : Fleet)
    (now : Instant) (hretries : 1 ≤ cfg.maxRetries)
    (hlist : alivePreferenceList X cfg ring health req.key ≠ []) :
    (coordinatorGet X cfg ring health req.key (fun _ _ => ⟨.answered, now⟩)
        (coordinatorSet X cfg ring health req faults fleet).2).1
      = .ok (match (alivePreferenceList X cfg ring health req.key).findSome? fun n =>
            (fleet.afterWrite req (writesAt cfg faults
              (alivePreferenceList X cfg ring health req.key)) n.addr).filter (·.live now) with
          | some e => ⟨some e.value, true⟩
          | none => ⟨none, false⟩) := by
  have hset : (coordinatorSet X cfg ring health req faults fleet).2
      = (setNodes cfg req faults (alivePreferenceList X cfg ring health req.key) fleet).2 := by
    simp only [coordinatorSet, List.isEmpty_iff, hlist, if_false]
    split_ifs <;> rfl
  have hread : ∀ n : NodeInfo,
      (setNodes cfg req faults (alivePreferenceList X cfg ring health req.key)
        fleet).2.readable now n.addr req.key
      = (fleet.afterWrite req (writesAt cfg faults
          (alivePreferenceList X cfg ring health req.key)) n.addr).filter (·.live now) := by
    intro n
    rw [Fleet.readable, entry_setNodes, Fleet.afterWrite]
    simp
  rw [coordinatorGet_answered X cfg ring health req.key now hretries _ hlist, hset]
  simp only [hread]

end Coordinator

/-- The first replica executes both attempts, at 5 and at 9, and both
answers are lost: the client is told the write failed, and a read finds
the value until the expiry of the SECOND attempt. -/
theorem coordinatorGet_after_set_lostAnswers :
    (coordinatorGet ThreeNodes.crates ⟨3, 2⟩ ThreeNodes.ring .new ""
        (fun _ _ => ⟨.answered, 1000008⟩)
        (coordinatorSet ThreeNodes.crates ⟨3, 2⟩ ThreeNodes.ring .new ⟨"", [7], some 1⟩
          (fun n j => ⟨if n = ThreeNodes.a then .rpcError true else .connectError, 5 + 4 * j⟩)
          ThreeNodes.fleet).2).1
      = .ok ⟨some [7], true⟩ := by
  rw [coordinatorGet_after_set ThreeNodes.crates ⟨3, 2⟩ ThreeNodes.ring .new ⟨"", [7], some 1⟩
    (fun n j => ⟨if n = ThreeNodes.a then .rpcError true else .connectError, 5 + 4 * j⟩)
    ThreeNodes.fleet 1000008 (by decide) (by decide)]
  decide

end SelfHealingCache
