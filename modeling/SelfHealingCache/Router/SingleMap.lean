import SelfHealingCache.Lib.Transducer
import SelfHealingCache.Router.Coordinator

/-!
# Many stores, one map

With every call answered and nobody joining, the coordinator over any
number of node stores behaves as ONE key-value map. The relation: every
replica of a key holds what the map holds for it. Replica sets of
different keys overlap and addresses may repeat, so a store is written
several times for one `set`; the relation speaks about one key at a time
and does not notice.
-/

namespace SelfHealingCache

inductive ClientCall where
  | set (key : String) (value : Bytes)
  | get (key : String)
  | delete (key : String)

def ClientCall.key : ClientCall → String
  | .set key _ | .get key | .delete key => key

inductive ClientAnswer where
  | set (result : Except String SetResponse)
  | get (result : Except String GetResponse)
  | delete (result : Except String DeleteResponse)

/-! ## The two machines -/

/-- One call to the coordinator; a `set` carries no TTL. -/
def coordinatorStep (X : Crates) (cfg : ReplicationConfig) (ring : HashRing)
    (health : HealthMonitor) (fleet : Fleet) : ClientCall × Faults → ClientAnswer × Fleet
  | (.set key value, faults) =>
      let out := coordinatorSet X cfg ring health ⟨key, value, none⟩ faults fleet
      (.set out.1, out.2)
  | (.get key, faults) =>
      let out := coordinatorGet X cfg ring health key faults fleet
      (.get out.1, out.2)
  | (.delete key, faults) =>
      let out := coordinatorDelete X cfg ring health key faults fleet
      (.delete out.1, out.2)

/-- The same call on one map. -/
def mapStep (m : String → Option Bytes) : ClientCall → ClientAnswer × (String → Option Bytes)
  | .set key value => (.set (.ok ⟨true⟩), Function.update m key (some value))
  | .get key => (.get (.ok ⟨m key, (m key).isSome⟩), m)
  | .delete key => (.delete (.ok ⟨(m key).isSome⟩), Function.update m key none)

/-! ## Fleets that answer every call -/

/-- No node refuses writes. -/
def Fleet.Accepting (fleet : Fleet) : Prop :=
  ∀ addr, (fleet addr).table.isSelfJoining = false

/-- Every call is answered, whenever it arrives. -/
def Faults.AllAnswered (faults : Faults) : Prop :=
  ∀ n i, (faults n i).outcome = .answered

theorem Fleet.Accepting.update {fleet : Fleet} (h : fleet.Accepting) {addr : String}
    {srv : CacheService} (htable : srv.table = (fleet addr).table) :
    Fleet.Accepting (Function.update fleet addr srv) := by
  intro a
  rw [Function.update_apply]
  split_ifs with ha
  · rw [htable]
    exact h addr
  · exact h a

section Call

variable {fleet : Fleet} {addr : String} {calls : Nat → Attempt}

theorem setNode_answered (addr : String) (haccept : fleet.Accepting)
    (hcall : (calls 0).outcome = .answered) {retries : Nat} (hretries : 1 ≤ retries)
    (req : SetRequest) :
    setNode req addr calls retries 0 fleet
      = (true, Function.update fleet addr ((fleet addr).set (calls 0).time req).2) := by
  obtain ⟨left, rfl⟩ := Nat.exists_eq_add_of_le' hretries
  rw [setNode, hcall]
  simp [CacheService.set, haccept addr]

theorem deleteNode_answered (addr : String) (haccept : fleet.Accepting)
    (hcall : (calls 0).outcome = .answered) {retries : Nat} (hretries : 1 ≤ retries)
    (key : String) :
    deleteNode key addr calls retries 0 fleet
      = ((fleet.entry addr key).isSome,
        Function.update fleet addr ((fleet addr).delete key).2) := by
  obtain ⟨left, rfl⟩ := Nat.exists_eq_add_of_le' hretries
  rw [deleteNode, hcall]
  simp [CacheService.delete, haccept addr, CacheStore.delete, Fleet.entry]

/-- A read of a key stored without expiry, or not at all. -/
theorem getNodeAt_answered {key : String} {held : Option Bytes}
    (hentry : fleet.entry addr key = held.map (⟨·, none⟩))
    (hcall : (calls 0).outcome = .answered) {retries : Nat} (hretries : 1 ≤ retries) :
    getNodeAt key addr calls retries 0 fleet
      = (held.map (⟨some ·, true⟩),
        Function.update fleet addr ((fleet addr).get (calls 0).time key).2) := by
  obtain ⟨left, rfl⟩ := Nat.exists_eq_add_of_le' hretries
  rw [getNodeAt, hcall]
  have hget := CacheService.get_fst (fleet addr) (calls 0).time key
  rw [Fleet.entry] at hentry
  rw [hentry] at hget
  cases held with
  | none => simp_all
  | some v => simp_all [Option.filter, CacheEntry.live]

/-- Such a read leaves every entry as it was. -/
theorem entry_update_get {key : String} {held : Option Bytes}
    (hentry : fleet.entry addr key = held.map (⟨·, none⟩)) (now : Instant) (a k : String) :
    Fleet.entry (Function.update fleet addr ((fleet addr).get now key).2) a k
      = fleet.entry a k := by
  rw [Fleet.entry_update, CacheService.lookup_get]
  split_ifs with ha hk
  · subst ha hk
    rw [Fleet.entry] at hentry ⊢
    rw [hentry]
    cases held with
    | none => rfl
    | some v => simp [Option.filter, CacheEntry.live]
  · rw [ha]
    rfl
  · rfl

theorem entry_update_set (haccept : fleet.Accepting) (now : Instant) (key : String)
    (value : Bytes) (a k : String) :
    Fleet.entry (Function.update fleet addr ((fleet addr).set now ⟨key, value, none⟩).2) a k
      = if k = key ∧ a = addr then some ⟨value, none⟩ else fleet.entry a k := by
  rw [Fleet.entry_update]
  by_cases ha : a = addr
  · by_cases hk : k = key
    · simp [hk, ha, CacheService.set, haccept addr]
    · simp [hk, ha, CacheService.set, haccept addr, Fleet.entry]
  · simp [ha]

theorem entry_update_delete (key a k : String) :
    Fleet.entry (Function.update fleet addr ((fleet addr).delete key).2) a k
      = if k = key ∧ a = addr then none else fleet.entry a k := by
  rw [Fleet.entry_update, CacheService.lookup_delete]
  by_cases ha : a = addr
  · by_cases hk : k = key
    · simp [ha, hk]
    · simp [ha, hk, Fleet.entry]
  · simp [ha]

theorem table_get (srv : CacheService) (now : Instant) (key : String) :
    (srv.get now key).2.table = srv.table := by
  rw [CacheService.get]
  split <;> rfl

theorem table_set (srv : CacheService) (now : Instant) (req : SetRequest) :
    (srv.set now req).2.table = srv.table := by
  rw [CacheService.set]
  split <;> rfl

theorem table_delete (srv : CacheService) (key : String) :
    (srv.delete key).2.table = srv.table := by
  rw [CacheService.delete]
  split <;> rfl

end Call

/-! ## A whole replica list -/

section Replicas

variable {cfg : ReplicationConfig} {faults : Faults} {key : String}

/-- The first replica and then the others: all of them. -/
theorem ite_replicas_cons {node : NodeInfo} {rest : List NodeInfo} {a k : String}
    (written before : Option CacheEntry) :
    (if k = key ∧ a ∈ rest.map (·.addr) then written
      else if k = key ∧ a = node.addr then written else before)
      = if k = key ∧ a ∈ (node :: rest).map (·.addr) then written else before := by
  rw [List.map_cons]
  by_cases hk : k = key
  · by_cases ha : a = node.addr
    · simp [hk, ha]
    · simp [hk, ha]
  · simp [hk]

/-- A write is acknowledged by every replica and changes its key at
their addresses only. -/
theorem setNodes_answered (key : String) (hretries : 1 ≤ cfg.maxRetries)
    (hfaults : faults.AllAnswered) (value : Bytes) (nodes : List NodeInfo) {fleet : Fleet}
    (haccept : fleet.Accepting) :
    (setNodes cfg ⟨key, value, none⟩ faults nodes fleet).1 = nodes.map (fun _ => true)
    ∧ (setNodes cfg ⟨key, value, none⟩ faults nodes fleet).2.Accepting
    ∧ ∀ a k, (setNodes cfg ⟨key, value, none⟩ faults nodes fleet).2.entry a k
        = if k = key ∧ a ∈ nodes.map (·.addr) then some ⟨value, none⟩ else fleet.entry a k := by
  induction nodes generalizing fleet with
  | nil => exact ⟨rfl, haccept, by simp [setNodes]⟩
  | cons node rest ih =>
      have hone := setNode_answered node.addr haccept (hfaults node 0) hretries
        ⟨key, value, none⟩
      obtain ⟨hacks, haccept', hentries⟩ :=
        ih (haccept.update (table_set (fleet node.addr) (faults node 0).time ⟨key, value, none⟩))
      rw [setNodes, hone]
      refine ⟨?_, haccept', ?_⟩
      · rw [List.map_cons, hacks]
      · intro a k
        rw [hentries, entry_update_set haccept, ite_replicas_cons]

/-- A read stops at the first replica when the replicas hold the key, and
asks them all when they do not. -/
theorem getNodes_answered (hretries : 1 ≤ cfg.maxRetries) (hfaults : faults.AllAnswered)
    {held : Option Bytes} {nodes : List NodeInfo} {fleet : Fleet} (haccept : fleet.Accepting)
    (hnodes : ∀ n ∈ nodes, fleet.entry n.addr key = held.map (⟨·, none⟩)) :
    (nodes ≠ [] → (getNodes cfg key faults nodes fleet).1 = held.map (⟨some ·, true⟩))
    ∧ (getNodes cfg key faults nodes fleet).2.Accepting
    ∧ ∀ a k, (getNodes cfg key faults nodes fleet).2.entry a k = fleet.entry a k := by
  induction nodes generalizing fleet with
  | nil => exact ⟨fun h => absurd rfl h, haccept, fun _ _ => rfl⟩
  | cons node rest ih =>
      have hfirst := hnodes node List.mem_cons_self
      have hsame := entry_update_get hfirst (faults node 0).time
      have haccept' := haccept.update (table_get (fleet node.addr) (faults node 0).time key)
      rw [getNodes, getNodeAt_answered hfirst (hfaults node 0) hretries]
      cases held with
      | some v => exact ⟨fun _ => rfl, haccept', hsame⟩
      | none =>
          obtain ⟨hanswer, haccepts, hentries⟩ := ih haccept' fun n hn => by
            rw [hsame]
            exact hnodes n (List.mem_cons_of_mem _ hn)
          refine ⟨fun _ => ?_, haccepts, fun a k => by rw [← hsame a k]; exact hentries a k⟩
          by_cases hrest : rest = []
          · rw [hrest]
            rfl
          · exact hanswer hrest

/-- A delete reports the key when the replicas hold it and takes it away
at their addresses. -/
theorem deleteNodes_answered (key : String) (hretries : 1 ≤ cfg.maxRetries)
    (hfaults : faults.AllAnswered) (nodes : List NodeInfo) {fleet : Fleet}
    (haccept : fleet.Accepting) :
    ((deleteNodes cfg key faults nodes fleet).1 = true
      ↔ ∃ n ∈ nodes, (fleet.entry n.addr key).isSome)
    ∧ (deleteNodes cfg key faults nodes fleet).2.Accepting
    ∧ ∀ a k, (deleteNodes cfg key faults nodes fleet).2.entry a k
        = if k = key ∧ a ∈ nodes.map (·.addr) then none else fleet.entry a k := by
  induction nodes generalizing fleet with
  | nil => exact ⟨by simp [deleteNodes], haccept, by simp [deleteNodes]⟩
  | cons node rest ih =>
      have hone := deleteNode_answered node.addr haccept (hfaults node 0) hretries key
      obtain ⟨hdeleted, haccept', hentries⟩ :=
        ih (haccept.update (table_delete (fleet node.addr) key))
      rw [deleteNodes, hone]
      refine ⟨?_, haccept', ?_⟩
      · rw [Bool.or_eq_true, hdeleted]
        simp only [entry_update_delete, List.mem_cons, exists_eq_or_imp]
        constructor
        · rintro (hhead | ⟨n, hn, hsome⟩)
          · exact .inl hhead
          · split_ifs at hsome with hcond
            · cases hsome
            · exact .inr ⟨n, hn, hsome⟩
        · rintro (hhead | ⟨n, hn, hsome⟩)
          · exact .inl hhead
          · by_cases hn' : n.addr = node.addr
            · exact .inl (by rw [← hn']; exact hsome)
            · exact .inr ⟨n, hn, by simpa [hn'] using hsome⟩
      · intro a k
        rw [hentries, entry_update_delete, ite_replicas_cons]

end Replicas

/-! ## The simulation -/

/-- Every replica of every key holds what the map holds for it, and the
nodes accept writes. -/
structure Replicates (X : Crates) (cfg : ReplicationConfig) (ring : HashRing)
    (health : HealthMonitor) (fleet : Fleet) (m : String → Option Bytes) : Prop where
  accepting : fleet.Accepting
  entries : ∀ key, ∀ n ∈ alivePreferenceList X cfg ring health key,
    fleet.entry n.addr key = (m key).map (⟨·, none⟩)

section Refinement

variable {X : Crates} {cfg : ReplicationConfig} {ring : HashRing} {health : HealthMonitor}

/-- After a write of one key at its replicas the relation holds again. -/
theorem Replicates.write {fleet fleet' : Fleet} {m : String → Option Bytes}
    (h : Replicates X cfg ring health fleet m) {key : String} {held : Option Bytes}
    (haccept : fleet'.Accepting)
    (hentries : ∀ a k, fleet'.entry a k
      = if k = key ∧ a ∈ (alivePreferenceList X cfg ring health key).map (·.addr)
        then held.map (⟨·, none⟩) else fleet.entry a k) :
    Replicates X cfg ring health fleet' (Function.update m key held) := by
  refine ⟨haccept, fun k n hn => ?_⟩
  rw [hentries, Function.update_apply]
  by_cases hk : k = key
  · subst hk
    rw [if_pos ⟨rfl, List.mem_map_of_mem hn⟩, if_pos rfl]
  · rw [if_neg fun hand => hk hand.1, if_neg hk]
    exact h.entries k n hn

section Calls

variable {fleet : Fleet} {m : String → Option Bytes} {faults : Faults} {key : String}

theorem Replicates.coordinatorSet (hR : Replicates X cfg ring health fleet m)
    (hretries : 1 ≤ cfg.maxRetries) (hfaults : faults.AllAnswered)
    (hlist : alivePreferenceList X cfg ring health key ≠ []) (value : Bytes) :
    (coordinatorSet X cfg ring health ⟨key, value, none⟩ faults fleet).1 = .ok ⟨true⟩
    ∧ Replicates X cfg ring health
        (coordinatorSet X cfg ring health ⟨key, value, none⟩ faults fleet).2
        (Function.update m key (some value)) := by
  obtain ⟨hacks, haccept, hentries⟩ := setNodes_answered key hretries hfaults value
    (alivePreferenceList X cfg ring health key) hR.accepting
  have hprimary : (setNodes cfg ⟨key, value, none⟩ faults
      (alivePreferenceList X cfg ring health key) fleet).1.head?.getD false = true := by
    obtain ⟨primary, rest, hcons⟩ := List.exists_cons_of_ne_nil hlist
    rw [hacks, hcons]
    rfl
  rw [SelfHealingCache.coordinatorSet, if_neg (by simpa using hlist), if_pos hprimary]
  exact ⟨rfl, hR.write haccept hentries⟩

theorem Replicates.coordinatorGet (hR : Replicates X cfg ring health fleet m)
    (hretries : 1 ≤ cfg.maxRetries) (hfaults : faults.AllAnswered)
    (hlist : alivePreferenceList X cfg ring health key ≠ []) :
    (coordinatorGet X cfg ring health key faults fleet).1 = .ok ⟨m key, (m key).isSome⟩
    ∧ Replicates X cfg ring health (coordinatorGet X cfg ring health key faults fleet).2 m := by
  obtain ⟨hanswer, haccept, hentries⟩ :=
    getNodes_answered hretries hfaults hR.accepting (hR.entries key)
  have hkept : Replicates X cfg ring health
      (getNodes cfg key faults (alivePreferenceList X cfg ring health key) fleet).2 m := by
    refine ⟨haccept, fun k n hn => ?_⟩
    rw [hentries]
    exact hR.entries k n hn
  have hfirst := hanswer hlist
  rw [SelfHealingCache.coordinatorGet, if_neg (by simpa using hlist)]
  cases hout : getNodes cfg key faults (alivePreferenceList X cfg ring health key) fleet with
  | mk answer fleet' =>
      rw [hout] at hfirst hkept
      cases hm : m key with
      | none =>
          rw [hm] at hfirst
          cases hfirst
          exact ⟨rfl, hkept⟩
      | some v =>
          rw [hm] at hfirst
          cases hfirst
          exact ⟨rfl, hkept⟩

theorem Replicates.coordinatorDelete (hR : Replicates X cfg ring health fleet m)
    (hretries : 1 ≤ cfg.maxRetries) (hfaults : faults.AllAnswered)
    (hlist : alivePreferenceList X cfg ring health key ≠ []) :
    (coordinatorDelete X cfg ring health key faults fleet).1 = .ok ⟨(m key).isSome⟩
    ∧ Replicates X cfg ring health (coordinatorDelete X cfg ring health key faults fleet).2
        (Function.update m key none) := by
  obtain ⟨hdeleted, haccept, hentries⟩ := deleteNodes_answered key hretries hfaults
    (alivePreferenceList X cfg ring health key) hR.accepting
  have hflag : (deleteNodes cfg key faults (alivePreferenceList X cfg ring health key) fleet).1
      = (m key).isSome := by
    rw [Bool.eq_iff_iff, hdeleted]
    constructor
    · intro ⟨n, hn, hsome⟩
      rw [hR.entries key n hn] at hsome
      simpa using hsome
    · intro hsome
      obtain ⟨n, hn⟩ := List.exists_mem_of_ne_nil _ hlist
      refine ⟨n, hn, ?_⟩
      rw [hR.entries key n hn]
      simpa using hsome
  rw [SelfHealingCache.coordinatorDelete, if_neg (by simpa using hlist)]
  refine ⟨?_, hR.write haccept hentries⟩
  show Except.ok (DeleteResponse.mk _) = _
  rw [hflag]

end Calls

/-- One call on the coordinator and on the map. -/
theorem simulates_map (hretries : 1 ≤ cfg.maxRetries) :
    Transducer.Simulates (Replicates X cfg ring health)
      (fun c : ClientCall × Faults =>
        alivePreferenceList X cfg ring health c.1.key ≠ [] ∧ c.2.AllAnswered)
      (coordinatorStep X cfg ring health) (fun m c => mapStep m c.1) := by
  intro fleet m ⟨call, faults⟩ hR ⟨hlist, hfaults⟩
  cases call with
  | set key value =>
      obtain ⟨hanswer, hkept⟩ := hR.coordinatorSet hretries hfaults hlist value
      exact ⟨congrArg ClientAnswer.set hanswer, hkept⟩
  | get key =>
      obtain ⟨hanswer, hkept⟩ := hR.coordinatorGet hretries hfaults hlist
      exact ⟨congrArg ClientAnswer.get hanswer, hkept⟩
  | delete key =>
      obtain ⟨hanswer, hkept⟩ := hR.coordinatorDelete hretries hfaults hlist
      exact ⟨congrArg ClientAnswer.delete hanswer, hkept⟩

/-- **The replicated store refines a single map.** Over a fixed ring and
health state, with empty stores at the start, no node joining and every
call answered, the coordinator answers every sequence of calls as one
key-value map does. -/
theorem coordinator_refines_map (hretries : 1 ≤ cfg.maxRetries) {fleet : Fleet}
    (haccept : fleet.Accepting) (hempty : ∀ addr key, fleet.entry addr key = none)
    (calls : List (ClientCall × Faults))
    (hcalls : ∀ c ∈ calls,
      alivePreferenceList X cfg ring health c.1.key ≠ [] ∧ c.2.AllAnswered) :
    Transducer.outputs (coordinatorStep X cfg ring health) fleet calls
      = Transducer.outputs mapStep (fun _ => none) (calls.map (·.1)) := by
  have hstart : Replicates X cfg ring health fleet (fun _ => none) :=
    ⟨haccept, fun key n _ => hempty n.addr key⟩
  rw [(simulates_map hretries).outputs_eq hstart hcalls, Transducer.outputs_map]

end Refinement

/-- Two of the three ids are served by one process. -/
def sharedRing : HashRing where
  ring := ThreeNodes.ring.ring
  nodes := [ThreeNodes.a, ⟨ThreeNodes.b.id, "a"⟩, ThreeNodes.c]
  vnodeCount := 1
  backed := by decide

theorem coordinator_refines_map_sharedRing :
    Transducer.outputs (coordinatorStep ThreeNodes.crates ⟨3, 1⟩ sharedRing .new) ThreeNodes.fleet
        [(.set "" [7], fun _ _ => ⟨.answered, 0⟩), (.get "", fun _ _ => ⟨.answered, 5⟩),
          (.delete "", fun _ _ => ⟨.answered, 9⟩), (.get "", fun _ _ => ⟨.answered, 9⟩)]
      = [.set (.ok ⟨true⟩), .get (.ok ⟨some [7], true⟩), .delete (.ok ⟨true⟩),
          .get (.ok ⟨none, false⟩)] := by
  have hcalls := @coordinator_refines_map ThreeNodes.crates ⟨3, 1⟩ sharedRing .new (by decide)
    ThreeNodes.fleet (fun _ => rfl) (fun _ _ => rfl)
    [(.set "" [7], fun _ _ => ⟨.answered, 0⟩), (.get "", fun _ _ => ⟨.answered, 5⟩),
      (.delete "", fun _ _ => ⟨.answered, 9⟩), (.get "", fun _ _ => ⟨.answered, 9⟩)]
  rw [hcalls]
  · rfl
  · have hlist : alivePreferenceList ThreeNodes.crates ⟨3, 1⟩ sharedRing .new "" ≠ [] := by
      decide
    intro c hc
    simp only [List.mem_cons, List.not_mem_nil, or_false] at hc
    rcases hc with rfl | rfl | rfl | rfl <;> exact ⟨hlist, fun _ _ => rfl⟩

end SelfHealingCache
