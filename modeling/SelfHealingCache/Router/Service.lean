import SelfHealingCache.Router.Gossip
import SelfHealingCache.Router.WriteEffect

/-!
# The front of the router

`crates/router/src/router.rs` and `grpc/service.rs`. A request goes to
the coordinator, or past it: with an explicit target it is ONE call to
that node, not retried, not replicated and unknown to the health
monitor. The gRPC service never names a target.

So a client of the service reads, through the replica list, what others
may have done to a single node. `service_get_after_direct` is what it
then finds: the target is one member of the list or none.
-/

namespace SelfHealingCache

/-- What `Router::set`, `get` and `delete` fail with. -/
inductive RouterError where
  /-- A text of the router's own. -/
  | text (message : String)
  | connect
  | rpc
  /-- What the node answered. -/
  | status (status : Status)

/-- How an error prints; `others` prints the errors of the gRPC library. -/
def RouterError.display (others : RouterError → String) : RouterError → String
  | .text message => message
  | e => others e

/-- An explicit target, and the fate of the one call to it. -/
abbrev Target := NodeId × Attempt

/-- `Router::resolve_addr`. -/
def resolveAddr (ring : HashRing) : Option NodeId → Except RouterError String
  | some id =>
      match ring.nodes.find? fun n => n.id = id with
      | some node => .ok node.addr
      | none => .error (.text "target node not found in ring")
  | none => .error (.text "resolve_addr called without target")

/-- One call to the node at `addr`. -/
def directCall {ρ : Type} (handler : CacheService → Except Status ρ × CacheService)
    (addr : String) (outcome : Outcome) (fleet : Fleet) : Except RouterError ρ × Fleet :=
  let served := handler (fleet addr)
  let fleet' := Function.update fleet addr served.2
  match outcome with
  | .connectError => (.error .connect, fleet)
  | .rpcError executed => (.error .rpc, if executed then fleet' else fleet)
  | .answered => (served.1.mapError .status, fleet')

/-- The shape of the three operations: straight to the target, or what
the coordinator answers. -/
def routed {ρ : Type} (ring : HashRing) (target : Option Target)
    (handler : Instant → CacheService → Except Status ρ × CacheService)
    (replicated : Except String ρ × Fleet) (fleet : Fleet) : Except RouterError ρ × Fleet :=
  match target with
  | some (id, call) =>
      match resolveAddr ring (some id) with
      | .ok addr => directCall (handler call.time) addr call.outcome fleet
      | .error e => (.error e, fleet)
  | none => (replicated.1.mapError .text, replicated.2)

namespace Router

variable (X : Crates) (cfg : ReplicationConfig) (r : Router)

def set (req : SetRequest) (target : Option Target) (faults : Faults) (fleet : Fleet) :
    Except RouterError SetResponse × Fleet :=
  routed r.ring target (fun now srv => srv.set now req)
    (coordinatorSet X cfg r.ring r.health req faults fleet) fleet

def get (key : String) (target : Option Target) (faults : Faults) (fleet : Fleet) :
    Except RouterError GetResponse × Fleet :=
  routed r.ring target (fun now srv => srv.get now key)
    (coordinatorGet X cfg r.ring r.health key faults fleet) fleet

def delete (key : String) (target : Option Target) (faults : Faults) (fleet : Fleet) :
    Except RouterError DeleteResponse × Fleet :=
  routed r.ring target (fun _ srv => srv.delete key)
    (coordinatorDelete X cfg r.ring r.health key faults fleet) fleet

end Router

/-! ## The gRPC service -/

/-- The `tonic::Status` the router's handlers answer with. -/
inductive RouterStatus where
  | internal (message : String)
  deriving DecidableEq

/-- `RouterServiceImpl::get`. -/
def serviceGet (X : Crates) (cfg : ReplicationConfig) (others : RouterError → String)
    (r : Router) (key : String) (faults : Faults) (fleet : Fleet) :
    Except RouterStatus GetResponse × Fleet :=
  let out := r.get X cfg key none faults fleet
  (out.1.mapError fun e => .internal ("router get failed: " ++ e.display others), out.2)

/-! ## What a direct request leaves -/

/-- A request to one node. -/
inductive DirectRequest where
  | set (req : SetRequest)
  | get (key : String)
  | delete (key : String)

namespace DirectRequest

/-- The fleet after the request has gone to its target. -/
def send (X : Crates) (cfg : ReplicationConfig) (r : Router) (target : Target) (faults : Faults)
    (fleet : Fleet) : DirectRequest → Fleet
  | .set req => (r.set X cfg req (some target) faults fleet).2
  | .get key => (r.get X cfg key (some target) faults fleet).2
  | .delete key => (r.delete X cfg key (some target) faults fleet).2

/-- What its handler leaves under `k`. -/
def leaves (srv : CacheService) (now : Instant) (k : String) : DirectRequest → Option CacheEntry
  | .set req =>
      if srv.table.isSelfJoining = false ∧ k = req.key then some (req.entryAt now)
      else srv.store.data.lookup k
  | .get key =>
      if k = key then (srv.store.data.lookup k).filter (·.live now)
      else srv.store.data.lookup k
  | .delete key => if k = key then none else srv.store.data.lookup k

end DirectRequest

/-- The handler has run. -/
def Outcome.runs : Outcome → Bool
  | .connectError => false
  | .rpcError executed => executed
  | .answered => true

/-- The call runs the handler at address `a`. -/
def Target.reaches (ring : HashRing) (target : Target) (a : String) : Bool :=
  target.2.outcome.runs && (resolveAddr ring (some target.1)).toOption = some a

section Direct

variable {ρ : Type} {handler : Instant → CacheService → Except Status ρ × CacheService}
  {ring : HashRing} {replicated : Except String ρ × Fleet}

/-- The one call changes one address. -/
theorem entry_routed_target (target : Target) (fleet : Fleet) (a k : String) :
    (routed ring (some target) handler replicated fleet).2.entry a k
      = if target.reaches ring a
        then (handler target.2.time (fleet a)).2.store.data.lookup k else fleet.entry a k := by
  obtain ⟨id, call⟩ := target
  rw [routed]
  cases hres : resolveAddr ring (some id) with
  | error e => simp [Target.reaches, hres, Except.toOption]
  | ok addr =>
      by_cases ha : a = addr
      · subst ha
        cases hout : call.outcome with
        | connectError => simp [Target.reaches, Outcome.runs, directCall, hout]
        | rpcError executed =>
            cases executed with
            | true =>
                simp [Target.reaches, Outcome.runs, directCall, hres, hout, Except.toOption,
                  Fleet.entry_update]
            | false => simp [Target.reaches, Outcome.runs, directCall, hout]
        | answered =>
            simp [Target.reaches, Outcome.runs, directCall, hres, hout, Except.toOption,
              Fleet.entry_update]
      · have hmiss : Target.reaches ring (id, call) a = false := by
          simp [Target.reaches, hres, Except.toOption, Ne.symm ha]
        rw [hmiss]
        cases call.outcome with
        | connectError => simp [directCall]
        | rpcError executed => cases executed <;> simp [directCall, Fleet.entry_update, ha]
        | answered => simp [directCall, Fleet.entry_update, ha]

end Direct

section Read

variable (X : Crates) (cfg : ReplicationConfig) (others : RouterError → String) (r : Router)

theorem entry_send (c : DirectRequest) (target : Target) (faults : Faults) (fleet : Fleet)
    (a k : String) :
    (c.send X cfg r target faults fleet).entry a k
      = if target.reaches r.ring a then c.leaves (fleet a) target.2.time k
        else fleet.entry a k := by
  cases c with
  | set req =>
      rw [DirectRequest.send, Router.set, entry_routed_target]
      congr 1
      rw [DirectRequest.leaves, CacheService.set]
      cases (fleet a).table.isSelfJoining with
      | true => simp
      | false => simp [SetRequest.entryAt]
  | get key =>
      rw [DirectRequest.send, Router.get, entry_routed_target, CacheService.lookup_get]
      rfl
  | delete key =>
      rw [DirectRequest.send, Router.delete, entry_routed_target, CacheService.lookup_delete]
      rfl

/-- **A direct request, seen through the service.** Whatever request has
gone straight to one node, with whatever fate, a read at the service with
every call answered at `now` finds the first readable entry in the order
of the alive preference list, where the target, if it is listed, holds
what its handler left and every other node what it held before. -/
theorem service_get_after_direct (c : DirectRequest) (target : Target) (faults : Faults)
    (fleet : Fleet) (k : String) (now : Instant) (hretries : 1 ≤ cfg.maxRetries) :
    (serviceGet X cfg others r k (fun _ _ => ⟨.answered, now⟩)
        (c.send X cfg r target faults fleet)).1
      = match alivePreferenceList X cfg r.ring r.health k with
        | [] => .error (.internal "router get failed: No alive nodes available for read")
        | n :: ns =>
            .ok (match (n :: ns).findSome? fun n =>
                (if target.reaches r.ring n.addr then c.leaves (fleet n.addr) target.2.time k
                  else fleet.entry n.addr k).filter (·.live now) with
              | some e => ⟨some e.value, true⟩
              | none => ⟨none, false⟩) := by
  have hread : ∀ m : NodeInfo, (c.send X cfg r target faults fleet).readable now m.addr k
      = (if target.reaches r.ring m.addr then c.leaves (fleet m.addr) target.2.time k
          else fleet.entry m.addr k).filter (·.live now) := by
    intro m
    rw [Fleet.readable, entry_send]
  rw [serviceGet, Router.get, routed]
  cases hlist : alivePreferenceList X cfg r.ring r.health k with
  | nil =>
      rw [coordinatorGet, hlist]
      rfl
  | cons n ns =>
      have hanswer := coordinatorGet_answered X cfg r.ring r.health k now hretries
        (c.send X cfg r target faults fleet) (by rw [hlist]; exact List.cons_ne_nil n ns)
      simp only [hread, hlist] at hanswer
      dsimp only
      rw [hanswer]
      rfl

end Read

/-- Every replica holds the key. A Delete with the first of them as its
target is answered, and a read at the service still finds the value. -/
theorem service_get_after_direct_delete :
    (serviceGet ThreeNodes.crates ⟨3, 1⟩ (fun _ => "") ⟨ThreeNodes.ring, .new⟩ ""
        (fun _ _ => ⟨.answered, 9⟩)
        (DirectRequest.send ThreeNodes.crates ⟨3, 1⟩ ⟨ThreeNodes.ring, .new⟩
          (ThreeNodes.a.id, ⟨.answered, 5⟩) (fun _ _ => ⟨.connectError, 0⟩)
          (fun _ => ⟨CacheStore.new.set 0 "" [7] none, .new 0 ThreeNodes.a.id [], ∅⟩)
          (.delete ""))).1
      = .ok ⟨some [7], true⟩ := by
  rw [service_get_after_direct ThreeNodes.crates ⟨3, 1⟩ (fun _ => "") ⟨ThreeNodes.ring, .new⟩
    (.delete "") (ThreeNodes.a.id, ⟨.answered, 5⟩) (fun _ _ => ⟨.connectError, 0⟩)
    (fun _ => ⟨CacheStore.new.set 0 "" [7] none, .new 0 ThreeNodes.a.id [], ∅⟩) "" 9 (by decide)]
  decide

end SelfHealingCache
