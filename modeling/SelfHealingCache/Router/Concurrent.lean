import SelfHealingCache.Lib.Trace
import SelfHealingCache.Router.SingleMap
import SelfHealingCache.Router.WriteEffect

/-!
# Many clients at once

The coordinator of `crates/router/src/replication/coordinator.rs` with
any number of calls in flight, through any number of routers. A call is
a TASK: two loops, one over the chosen nodes and one over the attempts,
and a step of it is one RPC. Between two steps anything else may
happen. Each call works on the list it took when it arrived.

`runs_alone` says that a task nobody interrupts is the operation of
`Router.Coordinator`; `SetMove` and `GetMove` say what one step of a
task can do.
-/

namespace SelfHealingCache

/-! ## Calls as tasks -/

inductive RouterRequest where
  | set (req : SetRequest)
  | get (key : String)
  | delete (key : String)

def RouterRequest.key : RouterRequest → String
  | .set req => req.key
  | .get key | .delete key => key

/-- Where the two loops stand: the chosen nodes, the one being asked and
the attempts left at it. -/
structure Cursor where
  nodes : List NodeInfo
  pos : Nat
  left : Nat

namespace Cursor

def node? (cur : Cursor) : Option NodeInfo := cur.nodes[cur.pos]?

def next (cfg : ReplicationConfig) (cur : Cursor) : Cursor :=
  ⟨cur.nodes, cur.pos + 1, cfg.maxRetries⟩

def retry (cur : Cursor) : Cursor := { cur with left := cur.left - 1 }

@[simp] theorem next_nodes (cfg : ReplicationConfig) (cur : Cursor) :
    (cur.next cfg).nodes = cur.nodes := rfl

@[simp] theorem next_pos (cfg : ReplicationConfig) (cur : Cursor) :
    (cur.next cfg).pos = cur.pos + 1 := rfl

@[simp] theorem retry_nodes (cur : Cursor) : cur.retry.nodes = cur.nodes := rfl

@[simp] theorem retry_pos (cur : Cursor) : cur.retry.pos = cur.pos := rfl

end Cursor

inductive RouterTask where
  | set (req : SetRequest) (results : List Bool) (cur : Cursor)
  | get (key : String) (cur : Cursor)
  | delete (key : String) (anyDeleted : Bool) (cur : Cursor)
  | done (answer : ClientAnswer)

namespace RouterTask

/-- A call takes its list, and fails at once when there is nobody to
ask. -/
def start (cfg : ReplicationConfig) (nodes : List NodeInfo) : RouterRequest → RouterTask
  | .set req =>
      if nodes.isEmpty then .done (.set (.error "No alive nodes available for write"))
      else .set req [] ⟨nodes, 0, cfg.maxRetries⟩
  | .get key =>
      if nodes.isEmpty then .done (.get (.error "No alive nodes available for read"))
      else .get key ⟨nodes, 0, cfg.maxRetries⟩
  | .delete key =>
      if nodes.isEmpty then .done (.delete (.error "No alive nodes available for delete"))
      else .delete key false ⟨nodes, 0, cfg.maxRetries⟩

/-- One step: an RPC to the node being asked, or the end of a loop. -/
def turn (cfg : ReplicationConfig) (call : Attempt) (fleet : Fleet) :
    RouterTask → RouterTask × Fleet
  | .set req results cur =>
      match cur.node? with
      | none =>
          (.done (.set (if results.head?.getD false then .ok ⟨true⟩
            else .error "Primary write failed")), fleet)
      | some node =>
          if cur.left = 0 then (.set req (results ++ [false]) (cur.next cfg), fleet)
          else
            let served := (fleet node.addr).set call.time req
            let fleet' := Function.update fleet node.addr served.2
            match call.outcome with
            | .connectError => (.set req results cur.retry, fleet)
            | .rpcError executed =>
                (.set req results cur.retry, if executed then fleet' else fleet)
            | .answered =>
                match served.1 with
                | .ok resp => (.set req (results ++ [resp.success]) (cur.next cfg), fleet')
                | .error _ => (.set req results cur.retry, fleet')
  | .get key cur =>
      match cur.node? with
      | none => (.done (.get (.ok ⟨none, false⟩)), fleet)
      | some node =>
          if cur.left = 0 then (.get key (cur.next cfg), fleet)
          else
            let served := (fleet node.addr).get call.time key
            let fleet' := Function.update fleet node.addr served.2
            match call.outcome with
            | .connectError => (.get key cur.retry, fleet)
            | .rpcError executed => (.get key cur.retry, if executed then fleet' else fleet)
            | .answered =>
                match served.1 with
                | .ok inner =>
                    (if inner.found then .done (.get (.ok inner)) else .get key (cur.next cfg),
                      fleet')
                | .error _ => (.get key cur.retry, fleet')
  | .delete key anyDeleted cur =>
      match cur.node? with
      | none => (.done (.delete (.ok ⟨anyDeleted⟩)), fleet)
      | some node =>
          if cur.left = 0 then (.delete key anyDeleted (cur.next cfg), fleet)
          else
            let served := (fleet node.addr).delete key
            let fleet' := Function.update fleet node.addr served.2
            match call.outcome with
            | .connectError => (.delete key anyDeleted (cur.next cfg), fleet)
            | .rpcError executed =>
                (.delete key anyDeleted cur.retry, if executed then fleet' else fleet)
            | .answered =>
                match served.1 with
                | .ok resp => (.delete key (anyDeleted || resp.deleted) (cur.next cfg), fleet')
                | .error _ => (.delete key anyDeleted cur.retry, fleet')
  | .done answer => (.done answer, fleet)

/-- The task and the nodes after several steps in a row. -/
def turns (cfg : ReplicationConfig) (calls : List Attempt) (st : RouterTask × Fleet) :
    RouterTask × Fleet :=
  calls.foldl (fun st call => st.1.turn cfg call st.2) st

theorem turns_append (cfg : ReplicationConfig) (calls more : List Attempt)
    (st : RouterTask × Fleet) :
    turns cfg (calls ++ more) st = turns cfg more (turns cfg calls st) :=
  List.foldl_append

/-- Tasks lead from one state to another without interruption. -/
def Leads (cfg : ReplicationConfig) (st st' : RouterTask × Fleet) : Prop :=
  ∃ calls, turns cfg calls st = st'

theorem Leads.trans {cfg : ReplicationConfig} {st st' st'' : RouterTask × Fleet}
    (h : Leads cfg st st') (h' : Leads cfg st' st'') : Leads cfg st st'' := by
  obtain ⟨calls, rfl⟩ := h
  obtain ⟨more, rfl⟩ := h'
  exact ⟨calls ++ more, turns_append ..⟩

theorem leads_turn (cfg : ReplicationConfig) (call : Attempt) (task : RouterTask)
    (fleet : Fleet) : Leads cfg (task, fleet) (task.turn cfg call fleet) :=
  ⟨[call], rfl⟩

end RouterTask

/-! ## A task nobody interrupts -/

section Alone

variable {cfg : ReplicationConfig} {nodes : List NodeInfo} {pos : Nat} {node : NodeInfo}

open RouterTask

theorem leads_setNode {req : SetRequest} {results : List Bool} (hnode : nodes[pos]? = some node)
    (calls : Nat → Attempt) (left i : Nat) (fleet : Fleet) :
    Leads cfg (.set req results ⟨nodes, pos, left⟩, fleet)
      (.set req (results ++ [(setNode req node.addr calls left i fleet).1])
        ⟨nodes, pos + 1, cfg.maxRetries⟩, (setNode req node.addr calls left i fleet).2) := by
  induction left generalizing i fleet with
  | zero =>
      have hturn := leads_turn cfg (calls i) (.set req results ⟨nodes, pos, 0⟩) fleet
      rwa [turn, Cursor.node?, hnode] at hturn
  | succ left ih =>
      have hturn := leads_turn cfg (calls i) (.set req results ⟨nodes, pos, left + 1⟩) fleet
      rw [turn, Cursor.node?, hnode] at hturn
      simp only [Nat.add_eq_zero_iff, Nat.one_ne_zero, and_false, if_false] at hturn
      rw [setNode]
      cases hout : (calls i).outcome with
      | connectError =>
          rw [hout] at hturn
          exact hturn.trans (ih (i + 1) fleet)
      | rpcError executed =>
          rw [hout] at hturn
          exact hturn.trans (ih (i + 1) _)
      | answered =>
          rw [hout] at hturn
          dsimp only at hturn ⊢
          cases hserved : ((fleet node.addr).set (calls i).time req).1 with
          | ok resp =>
              rw [hserved] at hturn
              exact hturn
          | error e =>
              rw [hserved] at hturn
              exact hturn.trans (ih (i + 1) _)

theorem leads_setNodes {req : SetRequest} (faults : Faults) (rest : List NodeInfo)
    {results : List Bool} (hrest : nodes.drop pos = rest) (fleet : Fleet) :
    Leads cfg (.set req results ⟨nodes, pos, cfg.maxRetries⟩, fleet)
      (.done (.set (if (results ++ (setNodes cfg req faults rest fleet).1).head?.getD false
        then .ok ⟨true⟩ else .error "Primary write failed")),
        (setNodes cfg req faults rest fleet).2) := by
  induction rest generalizing pos results fleet with
  | nil =>
      have hturn := leads_turn cfg ⟨.answered, 0⟩
        (.set req results ⟨nodes, pos, cfg.maxRetries⟩) fleet
      have hend : nodes[pos]? = none := List.getElem?_eq_none (List.drop_eq_nil_iff.mp hrest)
      rw [turn, Cursor.node?, hend] at hturn
      simpa [setNodes] using hturn
  | cons node rest ih =>
      have hnode : nodes[pos]? = some node := by
        rw [← List.head?_drop, hrest]
        rfl
      have hdrop : nodes.drop (pos + 1) = rest := by
        rw [← List.tail_drop, hrest]
        rfl
      have hothers := @ih (pos + 1)
        (results ++ [(setNode req node.addr (faults node) cfg.maxRetries 0 fleet).1]) hdrop
        (setNode req node.addr (faults node) cfg.maxRetries 0 fleet).2
      rw [List.append_assoc] at hothers
      exact (leads_setNode hnode (faults node) cfg.maxRetries 0 fleet).trans hothers

theorem leads_getNodeAt {key : String} (hnode : nodes[pos]? = some node)
    (calls : Nat → Attempt) (left i : Nat) (fleet : Fleet) :
    Leads cfg (.get key ⟨nodes, pos, left⟩, fleet)
      (match (getNodeAt key node.addr calls left i fleet).1 with
        | some inner => .done (.get (.ok inner))
        | none => .get key ⟨nodes, pos + 1, cfg.maxRetries⟩,
        (getNodeAt key node.addr calls left i fleet).2) := by
  induction left generalizing i fleet with
  | zero =>
      have hturn := leads_turn cfg (calls i) (.get key ⟨nodes, pos, 0⟩) fleet
      rwa [turn, Cursor.node?, hnode] at hturn
  | succ left ih =>
      have hturn := leads_turn cfg (calls i) (.get key ⟨nodes, pos, left + 1⟩) fleet
      rw [turn, Cursor.node?, hnode] at hturn
      simp only [Nat.add_eq_zero_iff, Nat.one_ne_zero, and_false, if_false] at hturn
      rw [getNodeAt]
      cases hout : (calls i).outcome with
      | connectError =>
          rw [hout] at hturn
          exact hturn.trans (ih (i + 1) fleet)
      | rpcError executed =>
          rw [hout] at hturn
          exact hturn.trans (ih (i + 1) _)
      | answered =>
          rw [hout] at hturn
          dsimp only at hturn ⊢
          cases hserved : ((fleet node.addr).get (calls i).time key).1 with
          | ok inner =>
              rw [hserved] at hturn
              dsimp only at hturn ⊢
              cases hfound : inner.found with
              | true =>
                  rw [hfound] at hturn
                  exact hturn
              | false =>
                  rw [hfound] at hturn
                  exact hturn
          | error e =>
              rw [hserved] at hturn
              exact hturn.trans (ih (i + 1) _)

theorem leads_getNodes {key : String} (faults : Faults) (rest : List NodeInfo)
    (hrest : nodes.drop pos = rest) (fleet : Fleet) :
    Leads cfg (.get key ⟨nodes, pos, cfg.maxRetries⟩, fleet)
      (.done (.get (.ok ((getNodes cfg key faults rest fleet).1.getD ⟨none, false⟩))),
        (getNodes cfg key faults rest fleet).2) := by
  induction rest generalizing pos fleet with
  | nil =>
      have hturn := leads_turn cfg ⟨.answered, 0⟩ (.get key ⟨nodes, pos, cfg.maxRetries⟩) fleet
      have hend : nodes[pos]? = none := List.getElem?_eq_none (List.drop_eq_nil_iff.mp hrest)
      rw [turn, Cursor.node?, hend] at hturn
      exact hturn
  | cons node rest ih =>
      have hnode : nodes[pos]? = some node := by
        rw [← List.head?_drop, hrest]
        rfl
      have hdrop : nodes.drop (pos + 1) = rest := by
        rw [← List.tail_drop, hrest]
        rfl
      have hone := @leads_getNodeAt cfg nodes pos node key hnode (faults node) cfg.maxRetries 0
        fleet
      rw [getNodes]
      cases hget : getNodeAt key node.addr (faults node) cfg.maxRetries 0 fleet with
      | mk answer fleet' =>
          rw [hget] at hone
          cases answer with
          | some inner => exact hone
          | none => exact hone.trans (ih hdrop fleet')

theorem leads_deleteNode {key : String} {anyDeleted : Bool} (hnode : nodes[pos]? = some node)
    (calls : Nat → Attempt) (left i : Nat) (fleet : Fleet) :
    Leads cfg (.delete key anyDeleted ⟨nodes, pos, left⟩, fleet)
      (.delete key (anyDeleted || (deleteNode key node.addr calls left i fleet).1)
        ⟨nodes, pos + 1, cfg.maxRetries⟩, (deleteNode key node.addr calls left i fleet).2) := by
  induction left generalizing i fleet with
  | zero =>
      have hturn := leads_turn cfg (calls i) (.delete key anyDeleted ⟨nodes, pos, 0⟩) fleet
      rw [turn, Cursor.node?, hnode] at hturn
      simpa [deleteNode, Cursor.next] using hturn
  | succ left ih =>
      have hturn := leads_turn cfg (calls i) (.delete key anyDeleted ⟨nodes, pos, left + 1⟩) fleet
      rw [turn, Cursor.node?, hnode] at hturn
      simp only [Nat.add_eq_zero_iff, Nat.one_ne_zero, and_false, if_false] at hturn
      rw [deleteNode]
      cases hout : (calls i).outcome with
      | connectError =>
          rw [hout] at hturn
          simpa [Cursor.next] using hturn
      | rpcError executed =>
          rw [hout] at hturn
          exact hturn.trans (ih (i + 1) _)
      | answered =>
          rw [hout] at hturn
          dsimp only at hturn ⊢
          cases hserved : ((fleet node.addr).delete key).1 with
          | ok resp =>
              rw [hserved] at hturn
              exact hturn
          | error e =>
              rw [hserved] at hturn
              exact hturn.trans (ih (i + 1) _)

theorem leads_deleteNodes {key : String} (faults : Faults) (rest : List NodeInfo)
    {anyDeleted : Bool} (hrest : nodes.drop pos = rest) (fleet : Fleet) :
    Leads cfg (.delete key anyDeleted ⟨nodes, pos, cfg.maxRetries⟩, fleet)
      (.done (.delete (.ok ⟨anyDeleted || (deleteNodes cfg key faults rest fleet).1⟩)),
        (deleteNodes cfg key faults rest fleet).2) := by
  induction rest generalizing pos anyDeleted fleet with
  | nil =>
      have hturn := leads_turn cfg ⟨.answered, 0⟩
        (.delete key anyDeleted ⟨nodes, pos, cfg.maxRetries⟩) fleet
      have hend : nodes[pos]? = none := List.getElem?_eq_none (List.drop_eq_nil_iff.mp hrest)
      rw [turn, Cursor.node?, hend] at hturn
      simpa [deleteNodes] using hturn
  | cons node rest ih =>
      have hnode : nodes[pos]? = some node := by
        rw [← List.head?_drop, hrest]
        rfl
      have hdrop : nodes.drop (pos + 1) = rest := by
        rw [← List.tail_drop, hrest]
        rfl
      have hothers := @ih (pos + 1)
        (anyDeleted || (deleteNode key node.addr (faults node) cfg.maxRetries 0 fleet).1) hdrop
        (deleteNode key node.addr (faults node) cfg.maxRetries 0 fleet).2
      rw [Bool.or_assoc] at hothers
      exact (leads_deleteNode hnode (faults node) cfg.maxRetries 0 fleet).trans hothers

/-- The operation of `Router.Coordinator` behind a request. -/
def RouterRequest.serve (X : Crates) (cfg : ReplicationConfig) (ring : HashRing)
    (health : HealthMonitor) (faults : Faults) (fleet : Fleet) :
    RouterRequest → ClientAnswer × Fleet
  | .set req =>
      let out := coordinatorSet X cfg ring health req faults fleet
      (.set out.1, out.2)
  | .get key =>
      let out := coordinatorGet X cfg ring health key faults fleet
      (.get out.1, out.2)
  | .delete key =>
      let out := coordinatorDelete X cfg ring health key faults fleet
      (.delete out.1, out.2)

/-- **A task nobody interrupts is the coordinator's operation**: the same
answer and the same nodes, under any faults. -/
theorem runs_alone (X : Crates) (ring : HashRing) (health : HealthMonitor) (faults : Faults)
    (fleet : Fleet) (request : RouterRequest) :
    Leads cfg
      (RouterTask.start cfg (alivePreferenceList X cfg ring health request.key) request, fleet)
      (.done (request.serve X cfg ring health faults fleet).1,
        (request.serve X cfg ring health faults fleet).2) := by
  cases request with
  | set req =>
      simp only [RouterTask.start, RouterRequest.serve, coordinatorSet, RouterRequest.key]
      by_cases hempty : (alivePreferenceList X cfg ring health req.key).isEmpty
      · simp only [hempty, if_true]
        exact ⟨[], rfl⟩
      · simp only [hempty, Bool.false_eq_true, if_false]
        have h := @leads_setNodes cfg _ 0 req faults _ []
          (List.drop_zero (l := alivePreferenceList X cfg ring health req.key)) fleet
        rw [List.nil_append] at h
        split_ifs at h ⊢
        · exact h
        · exact h
  | get key =>
      simp only [RouterTask.start, RouterRequest.serve, coordinatorGet, RouterRequest.key]
      by_cases hempty : (alivePreferenceList X cfg ring health key).isEmpty
      · simp only [hempty, if_true]
        exact ⟨[], rfl⟩
      · simp only [hempty, Bool.false_eq_true, if_false]
        have h := @leads_getNodes cfg _ 0 key faults _
          (List.drop_zero (l := alivePreferenceList X cfg ring health key)) fleet
        cases hget : getNodes cfg key faults (alivePreferenceList X cfg ring health key) fleet with
        | mk answer fleet' =>
            rw [hget] at h
            cases answer with
            | some inner => exact h
            | none => exact h
  | delete key =>
      simp only [RouterTask.start, RouterRequest.serve, coordinatorDelete, RouterRequest.key]
      by_cases hempty : (alivePreferenceList X cfg ring health key).isEmpty
      · simp only [hempty, if_true]
        exact ⟨[], rfl⟩
      · simp only [hempty, Bool.false_eq_true, if_false]
        have h := @leads_deleteNodes cfg _ 0 key faults _ false
          (List.drop_zero (l := alivePreferenceList X cfg ring health key)) fleet
        rwa [Bool.false_or] at h

end Alone

/-! ## What one step can do -/

section Moves

/-- A step of a `set`. -/
inductive SetMove (cfg : ReplicationConfig) (call : Attempt) (fleet : Fleet) (req : SetRequest)
    (results : List Bool) (cur : Cursor) : RouterTask → Fleet → Prop where
  | finish (hend : cur.node? = none) :
      SetMove cfg call fleet req results cur
        (.done (.set (if results.head?.getD false then .ok ⟨true⟩
          else .error "Primary write failed"))) fleet
  | exhausted {node : NodeInfo} (hnode : cur.node? = some node) (hleft : cur.left = 0) :
      SetMove cfg call fleet req results cur (.set req (results ++ [false]) (cur.next cfg)) fleet
  | lost {node : NodeInfo} (hnode : cur.node? = some node) (hleft : 0 < cur.left)
      (hout : call.outcome ≠ .answered) :
      SetMove cfg call fleet req results cur (.set req results cur.retry) fleet
  | unheard {node : NodeInfo} (hnode : cur.node? = some node) (hleft : 0 < cur.left)
      (hout : fleet.accepts node.addr → call.outcome ≠ .answered) :
      SetMove cfg call fleet req results cur (.set req results cur.retry)
        (Function.update fleet node.addr ((fleet node.addr).set call.time req).2)
  | answered {node : NodeInfo} (hnode : cur.node? = some node) (hleft : 0 < cur.left)
      (haccepts : fleet.accepts node.addr) :
      SetMove cfg call fleet req results cur (.set req (results ++ [true]) (cur.next cfg))
        (Function.update fleet node.addr ((fleet node.addr).set call.time req).2)

/-- A step of a `get`. -/
inductive GetMove (cfg : ReplicationConfig) (call : Attempt) (fleet : Fleet) (key : String)
    (cur : Cursor) : RouterTask → Fleet → Prop where
  | finish (hend : cur.node? = none) :
      GetMove cfg call fleet key cur (.done (.get (.ok ⟨none, false⟩))) fleet
  | exhausted {node : NodeInfo} (hnode : cur.node? = some node) (hleft : cur.left = 0) :
      GetMove cfg call fleet key cur (.get key (cur.next cfg)) fleet
  | lost {node : NodeInfo} (hnode : cur.node? = some node) (hleft : 0 < cur.left)
      (hout : call.outcome ≠ .answered) :
      GetMove cfg call fleet key cur (.get key cur.retry) fleet
  | unheard {node : NodeInfo} (hnode : cur.node? = some node) (hleft : 0 < cur.left)
      (hout : call.outcome ≠ .answered) :
      GetMove cfg call fleet key cur (.get key cur.retry)
        (Function.update fleet node.addr ((fleet node.addr).get call.time key).2)
  | found {node : NodeInfo} {e : CacheEntry} (hnode : cur.node? = some node)
      (hread : fleet.readable call.time node.addr key = some e) :
      GetMove cfg call fleet key cur (.done (.get (.ok ⟨some e.value, true⟩)))
        (Function.update fleet node.addr ((fleet node.addr).get call.time key).2)
  | missed {node : NodeInfo} (hnode : cur.node? = some node)
      (hread : fleet.readable call.time node.addr key = none) :
      GetMove cfg call fleet key cur (.get key (cur.next cfg))
        (Function.update fleet node.addr ((fleet node.addr).get call.time key).2)

variable {cfg : ReplicationConfig} {call : Attempt} {fleet : Fleet}

theorem set_turn (req : SetRequest) (results : List Bool) (cur : Cursor) :
    SetMove cfg call fleet req results cur
      ((RouterTask.set req results cur).turn cfg call fleet).1
      ((RouterTask.set req results cur).turn cfg call fleet).2 := by
  rw [RouterTask.turn]
  cases hnode : cur.node? with
  | none => exact .finish hnode
  | some node =>
      dsimp only
      by_cases hleft : cur.left = 0
      · rw [if_pos hleft]
        exact .exhausted hnode hleft
      · have hpos : 0 < cur.left := Nat.pos_of_ne_zero hleft
        rw [if_neg hleft, Fleet.set_fst]
        cases hout : call.outcome with
        | connectError => exact .lost hnode hpos (by simp [hout])
        | rpcError executed =>
            cases executed with
            | true => exact .unheard hnode hpos (by simp [hout])
            | false => exact .lost hnode hpos (by simp [hout])
        | answered =>
            cases haccepts : fleet.accepts node.addr with
            | true => exact .answered hnode hpos haccepts
            | false => exact .unheard hnode hpos (by simp [haccepts])

theorem get_turn (key : String) (cur : Cursor) :
    GetMove cfg call fleet key cur ((RouterTask.get key cur).turn cfg call fleet).1
      ((RouterTask.get key cur).turn cfg call fleet).2 := by
  rw [RouterTask.turn]
  cases hnode : cur.node? with
  | none => exact .finish hnode
  | some node =>
      dsimp only
      by_cases hleft : cur.left = 0
      · rw [if_pos hleft]
        exact .exhausted hnode hleft
      · have hpos : 0 < cur.left := Nat.pos_of_ne_zero hleft
        rw [if_neg hleft]
        cases hout : call.outcome with
        | connectError => exact .lost hnode hpos (by simp [hout])
        | rpcError executed =>
            cases executed with
            | true => exact .unheard hnode hpos (by simp [hout])
            | false => exact .lost hnode hpos (by simp [hout])
        | answered =>
            cases hread : fleet.readable call.time node.addr key with
            | some e =>
                rw [Fleet.get_fst_of_readable hread]
                exact .found hnode hread
            | none =>
                rw [Fleet.get_fst_of_unreadable hread]
                exact .missed hnode hread

/-- The key a task is about. -/
def RouterTask.key? : RouterTask → Option String
  | .set req _ _ => some req.key
  | .get key _ | .delete key _ _ => some key
  | .done _ => none

/-- What a step of a task can do to the nodes: one call of its own
handler at one of them. -/
inductive RouterTask.Served (call : Attempt) (fleet : Fleet) : RouterTask → Fleet → Prop where
  | idle (task : RouterTask) : Served call fleet task fleet
  | set (req : SetRequest) (results : List Bool) (cur : Cursor) (addr : String) :
      Served call fleet (.set req results cur)
        (Function.update fleet addr ((fleet addr).set call.time req).2)
  | get (key : String) (cur : Cursor) (addr : String) :
      Served call fleet (.get key cur)
        (Function.update fleet addr ((fleet addr).get call.time key).2)
  | delete (key : String) (anyDeleted : Bool) (cur : Cursor) (addr : String) :
      Served call fleet (.delete key anyDeleted cur)
        (Function.update fleet addr ((fleet addr).delete key).2)

/-- One step stays with its key, or ends the task. -/
theorem RouterTask.turn_frame (cfg : ReplicationConfig) (call : Attempt) (fleet : Fleet)
    (task : RouterTask) :
    task.Served call fleet (task.turn cfg call fleet).2
    ∧ ((task.turn cfg call fleet).1.key? = task.key?
      ∨ ∃ answer, (task.turn cfg call fleet).1 = .done answer) := by
  cases task with
  | done answer => exact ⟨.idle _, .inl rfl⟩
  | set req results cur =>
      have hmove := @set_turn cfg call fleet req results cur
      generalize (RouterTask.set req results cur).turn cfg call fleet = out at hmove
      obtain ⟨task', fleet'⟩ := out
      cases hmove with
      | finish hend => exact ⟨.idle _, .inr ⟨_, rfl⟩⟩
      | exhausted hnode hleft | lost hnode hleft hlost => exact ⟨.idle _, .inl rfl⟩
      | unheard hnode hleft hlost | answered hnode hleft haccepts =>
          exact ⟨.set req results cur _, .inl rfl⟩
  | get key cur =>
      have hmove := @get_turn cfg call fleet key cur
      generalize (RouterTask.get key cur).turn cfg call fleet = out at hmove
      obtain ⟨task', fleet'⟩ := out
      cases hmove with
      | finish hend => exact ⟨.idle _, .inr ⟨_, rfl⟩⟩
      | exhausted hnode hleft | lost hnode hleft hlost => exact ⟨.idle _, .inl rfl⟩
      | unheard hnode hleft hlost | missed hnode hread => exact ⟨.get key cur _, .inl rfl⟩
      | found hnode hread => exact ⟨.get key cur _, .inr ⟨_, rfl⟩⟩
  | delete key anyDeleted cur =>
      rw [turn]
      cases cur.node? with
      | none => exact ⟨.idle _, .inr ⟨_, rfl⟩⟩
      | some node =>
          dsimp only
          split_ifs
          · exact ⟨.idle _, .inl rfl⟩
          · cases call.outcome with
            | connectError => exact ⟨.idle _, .inl rfl⟩
            | rpcError executed =>
                cases executed with
                | true => exact ⟨.delete key anyDeleted cur node.addr, .inl rfl⟩
                | false => exact ⟨.idle _, .inl rfl⟩
            | answered =>
                dsimp only
                cases ((fleet node.addr).delete key).1 with
                | ok resp => exact ⟨.delete key anyDeleted cur node.addr, .inl rfl⟩
                | error e => exact ⟨.delete key anyDeleted cur node.addr, .inl rfl⟩

section Served

variable {task : RouterTask} {fleet' : Fleet}

/-- No handler changes who takes writes. -/
theorem RouterTask.Served.accepts (h : task.Served call fleet fleet') (a : String) :
    fleet'.accepts a = fleet.accepts a := by
  have hupdate : ∀ addr (srv : CacheService), srv.table = (fleet addr).table →
      Fleet.accepts (Function.update fleet addr srv) a = fleet.accepts a := by
    intro addr srv htable
    rw [Fleet.accepts, Fleet.accepts, Function.update_apply]
    split_ifs with ha
    · rw [htable, ha]
    · rfl
  cases h with
  | idle => rfl
  | set req results cur addr => exact hupdate addr _ (table_set ..)
  | get key cur addr => exact hupdate addr _ (table_get ..)
  | delete key anyDeleted cur addr => exact hupdate addr _ (table_delete ..)

/-- No handler changes the entries of another key. -/
theorem RouterTask.Served.entry (h : task.Served call fleet fleet') {k : String}
    (hkey : task.key? ≠ some k) (a : String) : fleet'.entry a k = fleet.entry a k := by
  cases h with
  | idle => rfl
  | set req results cur addr =>
      rw [Fleet.entry_set, if_neg fun hand => hkey (congrArg some hand.2.2.symm)]
  | get key cur addr =>
      have hk : k ≠ key := fun hk => hkey (congrArg some hk.symm)
      rw [Fleet.entry_update, CacheService.lookup_get, if_neg hk]
      split_ifs with ha
      · rw [ha]
        rfl
      · rfl
  | delete key anyDeleted cur addr =>
      rw [entry_update_delete, if_neg fun hand => hkey (congrArg some hand.1.symm)]

end Served

end Moves

/-! ## The system -/

/-- The nodes, and the calls in order of arrival. -/
structure RouterCalls where
  fleet : Fleet
  tasks : List RouterTask

inductive CallEvent where
  /-- A client calls a router with this ring and health. -/
  | call (ring : HashRing) (health : HealthMonitor) (request : RouterRequest)
  /-- The `i`-th call takes a step. -/
  | turn (i : Nat) (attempt : Attempt)
  /-- A node's own doing: its sweeper, a client of its own, a transfer. -/
  | node (addr : String) (now : Instant) (op : CacheStore.Op)

namespace RouterCalls

def step (X : Crates) (cfg : ReplicationConfig) (s : RouterCalls) : CallEvent → Option RouterCalls
  | .call ring health request =>
      some { s with
        tasks := s.tasks
          ++ [.start cfg (alivePreferenceList X cfg ring health request.key) request] }
  | .turn i attempt =>
      s.tasks[i]?.map fun task =>
        ⟨(task.turn cfg attempt s.fleet).2, s.tasks.set i (task.turn cfg attempt s.fleet).1⟩
  | .node addr now op =>
      some { s with
        fleet := Function.update s.fleet addr
          { s.fleet addr with store := (s.fleet addr).store.apply now op } }

/-- What the node at `p` has for `k`. -/
def content (p k : String) (s : RouterCalls) : Option Bytes :=
  (s.fleet.entry p k).map (·.value)

end RouterCalls

end SelfHealingCache
