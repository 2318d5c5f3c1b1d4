import SelfHealingCache.Router.Coordinator

/-!
# A replicated write survives crashes

A write without TTL that every chosen replica acknowledged is readable
as long as ONE of them is left: still in the ring, still routable, and
answering. The argument has three parts.

* After the write every replica stores the value (`setNodes_stores`),
  and nothing later that leaves the key alone changes that.
* The read list is stable under removals and lost health
  (`ListWalk.select_stable`): whatever stands ahead of the surviving
  replica was itself a replica.
* So the read either stops at a replica ahead of it, which holds the
  value, or falls through to it (`getNodes_found`).
-/

namespace SelfHealingCache

/-- The address holds `v` for `k`, without expiry. -/
def Fleet.Stores (fleet : Fleet) (addr : String) (k : String) (v : Bytes) : Prop :=
  fleet.entry addr k = some ⟨v, none⟩

/-- Replacing the server at an address by one that stores the value too
loses nothing, there or elsewhere. -/
theorem Fleet.Stores.update {fleet : Fleet} {a addr k : String} {v : Bytes} {srv : CacheService}
    (h : fleet.Stores a k v)
    (hsrv : a = addr → srv.store.data.lookup k = some ⟨v, none⟩) :
    Fleet.Stores (Function.update fleet addr srv) a k v := by
  rw [Fleet.Stores, Fleet.entry_update]
  split_ifs with ha
  · exact hsrv ha
  · exact h

/-! ## The write -/

section Write

variable {k : String} {v : Bytes}

/-- A replica that executes the write, or refuses it, still stores what
it stored of this very write. -/
theorem Fleet.Stores.set {fleet : Fleet} {a : String} (h : fleet.Stores a k v)
    (addr : String) (now : Instant) :
    Fleet.Stores (Function.update fleet addr ((fleet addr).set now ⟨k, v, none⟩).2) a k v := by
  apply h.update
  intro ha
  rcases CacheService.lookup_set (fleet addr) now ⟨k, v, none⟩ k with hsame | ⟨_, hwritten⟩
  · rw [hsame, ← ha]
    exact h
  · exact hwritten

theorem Fleet.stores_of_set_ok {fleet : Fleet} {addr : String} {now : Instant}
    {resp : SetResponse} {srv : CacheService}
    (h : (fleet addr).set now ⟨k, v, none⟩ = (.ok resp, srv)) :
    Fleet.Stores (Function.update fleet addr srv) addr k v := by
  rw [Fleet.Stores, Fleet.entry_update, if_pos rfl, CacheService.store_set_of_ok h]
  simp

theorem setNode_keeps {a addr : String} {calls : Nat → Attempt} {left i : Nat} {fleet : Fleet}
    (h : fleet.Stores a k v) : (setNode ⟨k, v, none⟩ addr calls left i fleet).2.Stores a k v :=
  setNode_preserves (fun f => f.Stores a k v) (fun _ now hf => hf.set addr now) h

/-- An acknowledged replica stores the value. -/
theorem setNode_stores {addr : String} {calls : Nat → Attempt} {left i : Nat} {fleet : Fleet}
    (h : (setNode ⟨k, v, none⟩ addr calls left i fleet).1 = true) :
    (setNode ⟨k, v, none⟩ addr calls left i fleet).2.Stores addr k v := by
  induction left generalizing i fleet with
  | zero => cases h
  | succ left ih =>
      rw [setNode] at h ⊢
      cases hout : (calls i).outcome with
      | connectError =>
          rw [hout] at h
          exact ih h
      | rpcError executed =>
          rw [hout] at h
          exact ih h
      | answered =>
          rw [hout] at h
          dsimp only at h ⊢
          cases hserved : (fleet addr).set (calls i).time ⟨k, v, none⟩ with
          | mk answer srv =>
              rw [hserved] at h
              cases answer with
              | ok resp => exact Fleet.stores_of_set_ok hserved
              | error e => exact ih h

theorem setNodes_keeps {cfg : ReplicationConfig} {a : String} {faults : Faults}
    {nodes : List NodeInfo} {fleet : Fleet} (h : fleet.Stores a k v) :
    (setNodes cfg ⟨k, v, none⟩ faults nodes fleet).2.Stores a k v := by
  induction nodes generalizing fleet with
  | nil => exact h
  | cons node rest ih => exact ih (setNode_keeps h)

/-- **When every replica acknowledged, every replica stores the value.** -/
theorem setNodes_stores {cfg : ReplicationConfig} {faults : Faults} {nodes : List NodeInfo}
    {fleet : Fleet}
    (h : ∀ acked ∈ (setNodes cfg ⟨k, v, none⟩ faults nodes fleet).1, acked = true) :
    ∀ n ∈ nodes, (setNodes cfg ⟨k, v, none⟩ faults nodes fleet).2.Stores n.addr k v := by
  induction nodes generalizing fleet with
  | nil => simp
  | cons node rest ih =>
      have hfirst : (setNode ⟨k, v, none⟩ node.addr (faults node) cfg.maxRetries 0 fleet).1
          = true := h _ (by simp [setNodes])
      intro n hn
      rw [setNodes]
      rcases List.mem_cons.mp hn with rfl | hn
      · exact setNodes_keeps (setNode_stores hfirst)
      · exact ih (fun acked hacked => h acked (by simp [setNodes, hacked])) n hn

end Write

/-! ## The read -/

section Read

variable {k : String} {v : Bytes}

theorem Fleet.Stores.get {fleet : Fleet} {a : String} (h : fleet.Stores a k v)
    (addr : String) (now : Instant) :
    Fleet.Stores (Function.update fleet addr ((fleet addr).get now k).2) a k v := by
  apply h.update
  intro ha
  rw [Fleet.Stores, Fleet.entry, ha] at h
  simp [h, Option.filter, CacheEntry.live]

theorem Fleet.Stores.get_fst {fleet : Fleet} {addr : String} (h : fleet.Stores addr k v)
    (now : Instant) : ((fleet addr).get now k).1 = .ok ⟨some v, true⟩ := by
  rw [Fleet.Stores, Fleet.entry] at h
  simp [CacheService.get_fst, h, Option.filter, CacheEntry.live]

/-- A read at an address that stores the value ends with it or moves on,
and moves on only if no call was answered. -/
theorem getNodeAt_of_stores {addr : String} {fleet : Fleet} (h : fleet.Stores addr k v)
    (calls : Nat → Attempt) (left i : Nat) :
    (getNodeAt k addr calls left i fleet).1 = some ⟨some v, true⟩
      ∨ ((getNodeAt k addr calls left i fleet).1 = none
        ∧ ∀ j < left, (calls (i + j)).outcome ≠ .answered) := by
  induction left generalizing i fleet with
  | zero => exact .inr ⟨rfl, fun j hj => absurd hj (Nat.not_lt_zero j)⟩
  | succ left ih =>
      have hmove : (calls i).outcome ≠ .answered → ∀ fleet' : Fleet,
          (getNodeAt k addr calls (left + 1) i fleet).1
            = (getNodeAt k addr calls left (i + 1) fleet').1 → fleet'.Stores addr k v →
          (getNodeAt k addr calls (left + 1) i fleet).1 = some ⟨some v, true⟩
            ∨ ((getNodeAt k addr calls (left + 1) i fleet).1 = none
              ∧ ∀ j < left + 1, (calls (i + j)).outcome ≠ .answered) := by
        intro hout fleet' heq h'
        rw [heq]
        rcases ih h' (i + 1) with hfound | ⟨hnone, hunanswered⟩
        · exact .inl hfound
        · refine .inr ⟨hnone, fun j hj => ?_⟩
          cases j with
          | zero => exact hout
          | succ j =>
              rw [show i + (j + 1) = i + 1 + j by omega]
              exact hunanswered j (by omega)
      cases hout : (calls i).outcome with
      | connectError => exact hmove (by simp [hout]) fleet (by simp [getNodeAt, hout]) h
      | rpcError executed =>
          cases executed with
          | true =>
              exact hmove (by simp [hout]) _ (by simp [getNodeAt, hout])
                (h.get addr (calls i).time)
          | false => exact hmove (by simp [hout]) fleet (by simp [getNodeAt, hout]) h
      | answered =>
          left
          simp [getNodeAt, hout, h.get_fst]

theorem getNodeAt_keeps {a addr : String} {calls : Nat → Attempt} {left i : Nat} {fleet : Fleet}
    (h : fleet.Stores a k v) : (getNodeAt k addr calls left i fleet).2.Stores a k v :=
  getNodeAt_preserves (fun f => f.Stores a k v) (fun _ now hf => hf.get addr now) h

/-- **The read falls through to the surviving replica**: when it and
everything ahead of it store the value, the read finds the value. -/
theorem getNodes_found {cfg : ReplicationConfig} {faults : Faults} {ahead : List NodeInfo}
    (behind : List NodeInfo) {n : NodeInfo} {fleet : Fleet}
    (hahead : ∀ m ∈ ahead, fleet.Stores m.addr k v) (hn : fleet.Stores n.addr k v)
    (hreach : ∃ j < cfg.maxRetries, (faults n j).outcome = .answered) :
    (getNodes cfg k faults (ahead ++ n :: behind) fleet).1 = some ⟨some v, true⟩ := by
  induction ahead generalizing fleet with
  | nil =>
      obtain ⟨j, hj, hans⟩ := hreach
      have hone := getNodeAt_of_stores hn (faults n) cfg.maxRetries 0
      rw [List.nil_append, getNodes]
      cases hget : getNodeAt k n.addr (faults n) cfg.maxRetries 0 fleet with
      | mk answer fleet' =>
          rw [hget] at hone
          rcases hone with hfound | ⟨_, hunanswered⟩
          · cases hfound
            rfl
          · exact absurd hans (by simpa using hunanswered j hj)
  | cons m ahead ih =>
      have hone := getNodeAt_of_stores (hahead m (by simp)) (faults m) cfg.maxRetries 0
      have hkeeps : ∀ a, fleet.Stores a k v →
          (getNodeAt k m.addr (faults m) cfg.maxRetries 0 fleet).2.Stores a k v :=
        fun a ha => getNodeAt_keeps ha
      rw [List.cons_append, getNodes]
      cases hget : getNodeAt k m.addr (faults m) cfg.maxRetries 0 fleet with
      | mk answer fleet' =>
          rw [hget] at hone hkeeps
          rcases hone with hfound | ⟨hnone, _⟩
          · cases hfound
            rfl
          · cases hnone
            exact ih (fun m' hm' => hkeeps _ (hahead m' (by simp [hm']))) (hkeeps _ hn)

end Read

/-! ## The two together -/

theorem Fleet.Stores.later {fleet fleet' : Fleet} {addr k : String} {v : Bytes}
    (h : fleet.Stores addr k v)
    (hlater : fleet.Later (fun op => ¬ op.writes k ∧ ¬ op.deletes k) fleet') :
    fleet'.Stores addr k v := by
  obtain ⟨ops, hops, hstore⟩ := hlater addr
  rw [Fleet.Stores, Fleet.entry, hstore]
  exact CacheStore.lookup_run_of_untouched (fun op hop => (hops op hop).1)
    (fun op hop => (hops op hop).2) h

/-- **Crash tolerance.** A write every replica acknowledged is found by
a later read, whatever nodes have been removed from the ring or stopped
being routable in between and whatever calls of the read fail, as long
as one replica is still in the ring, routable and answers one call. -/
theorem coordinatorGet_finds_acked_write (X : Crates) {cfg : ReplicationConfig}
    (hreplicas : 1 ≤ cfg.replicationFactor) {ring : HashRing} {health health' : HealthMonitor}
    {k : String} {v : Bytes} {faults faults' : Faults} {fleet fleet' : Fleet}
    {removed : List NodeId} {n : NodeInfo}
    (hacked : ∀ acked ∈ (setNodes cfg ⟨k, v, none⟩ faults
      (alivePreferenceList X cfg ring health k) fleet).1, acked = true)
    (hlater : Fleet.Later (fun op => ¬ op.writes k ∧ ¬ op.deletes k)
      (coordinatorSet X cfg ring health ⟨k, v, none⟩ faults fleet).2 fleet')
    (hhealth : ∀ id, health'.isAlive id → health.isAlive id)
    (hn : n ∈ alivePreferenceList X cfg ring health k)
    (hring : n.id ∉ removed) (halive : health'.isAlive n.id)
    (hreach : ∃ j < cfg.maxRetries, (faults' n j).outcome = .answered) :
    (coordinatorGet X cfg (ring.removeNodes removed) health' k faults' fleet').1
      = .ok ⟨some v, true⟩ := by
  have hne : (alivePreferenceList X cfg ring health k).isEmpty = false := by
    rw [List.isEmpty_eq_false_iff]
    exact List.ne_nil_of_mem hn
  -- every replica of the write still stores the value
  have hstores : ∀ m ∈ alivePreferenceList X cfg ring health k, fleet'.Stores m.addr k v := by
    intro m hm
    apply Fleet.Stores.later _ hlater
    have hset : (coordinatorSet X cfg ring health ⟨k, v, none⟩ faults fleet).2
        = (setNodes cfg ⟨k, v, none⟩ faults
            (alivePreferenceList X cfg ring health k) fleet).2 := by
      rw [coordinatorSet]
      simp only [hne, Bool.false_eq_true, if_false]
      split_ifs <;> rfl
    rw [hset]
    exact setNodes_stores hacked m hm
  -- and everything ahead of `n` in the read list is one of them
  obtain ⟨ahead, behind, hlist, hahead⟩ : ∃ ahead behind,
      alivePreferenceList X cfg (ring.removeNodes removed) health' k = ahead ++ n :: behind
        ∧ ∀ m ∈ ahead, m ∈ alivePreferenceList X cfg ring health k := by
    rw [alivePreferenceList_eq X hreplicas] at hn ⊢
    rw [alivePreferenceList_eq X hreplicas, HashRing.prefOrder_removeNodes]
    exact ListWalk.select_stable (HashRing.prefOrder_nodup X ring k) (fun b hb => hhealth b.id hb)
      hn (by simpa using hring) halive
  have hfound := getNodes_found behind (fun m hm => hstores m (hahead m hm))
    (hstores n hn) hreach
  rw [coordinatorGet]
  simp only [hlist, List.isEmpty_eq_false_iff.mpr (List.append_ne_nil_of_right_ne_nil ahead
    (List.cons_ne_nil n behind)), Bool.false_eq_true, if_false]
  cases hget : getNodes cfg k faults' (ahead ++ n :: behind) fleet' with
  | mk answer fleet'' =>
      rw [hget] at hfound
      cases hfound
      rfl

/-- Three replicas: the first is removed from the ring, the second
cannot be connected to, the third answers. -/
theorem coordinatorGet_finds_acked_write_third_replica :
    (coordinatorGet ThreeNodes.crates ⟨3, 1⟩ (ThreeNodes.ring.removeNodes [ThreeNodes.a.id])
      .new "" (fun n _ => ⟨if n = ThreeNodes.b then .connectError else .answered, 0⟩)
      (coordinatorSet ThreeNodes.crates ⟨3, 1⟩ ThreeNodes.ring .new ⟨"", [7], none⟩
        (fun _ _ => ⟨.answered, 0⟩) ThreeNodes.fleet).2).1 = .ok ⟨some [7], true⟩ :=
  coordinatorGet_finds_acked_write ThreeNodes.crates (n := ThreeNodes.c) (by decide)
    (by decide) (fun _ => ⟨[], by simp, rfl⟩) (fun _ h => h) (by decide)
    (by decide) (by decide) ⟨0, by decide, by decide⟩

end SelfHealingCache
