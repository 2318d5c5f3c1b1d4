import SelfHealingCache.Router.Coordinator

/-!
# When a delete through the router takes effect

`ReplicationCoordinator::delete` answers `Ok` as soon as there is one
node to ask, however many of its calls failed, and gives a node up at
the first failed CONNECTION, where `set` and `get` use all their
attempts. A later read falls through the replicas, so one replica the
delete did not reach is enough to bring the key back.

`coordinatorDelete_effective_iff` is the exact condition: the delete
reached every chosen replica that held an entry. An expired one counts
as well: until a read or the sweeper removes it, an `EXPIRE` brings it
back. "Reached" is `Delivered`: some attempt was executed (answered,
refused by a joining node, or its answer lost) and no connection failed
before it.
-/

namespace SelfHealingCache

/-- The call got through to the node's handler. -/
def Outcome.executes : Outcome → Prop
  | .connectError => False
  | .rpcError executed => executed = true
  | .answered => True

/-- Among the first `attempts` calls one is executed, with no failed
connection before it. -/
def Delivered (attempts : Nat) (calls : Nat → Attempt) : Prop :=
  ∃ j < attempts, (calls j).outcome.executes ∧ ∀ i < j, (calls i).outcome ≠ .connectError

theorem delivered_zero (calls : Nat → Attempt) : ¬ Delivered 0 calls := by
  intro ⟨j, hj, _⟩
  omega

theorem delivered_succ {attempts : Nat} {calls : Nat → Attempt} :
    Delivered (attempts + 1) calls ↔ (calls 0).outcome.executes
      ∨ ((calls 0).outcome ≠ .connectError ∧ Delivered attempts fun i => calls (i + 1)) := by
  constructor
  · intro ⟨j, hj, hexec, hbefore⟩
    cases j with
    | zero => exact .inl hexec
    | succ j =>
        refine .inr ⟨hbefore 0 (by omega), j, by omega, hexec, fun i hi => ?_⟩
        exact hbefore (i + 1) (by omega)
  · intro h
    rcases h with hexec | ⟨hfirst, j, hj, hexec, hbefore⟩
    · exact ⟨0, by omega, hexec, fun i hi => absurd hi (Nat.not_lt_zero i)⟩
    · refine ⟨j + 1, by omega, hexec, fun i hi => ?_⟩
      cases i with
      | zero => exact hfirst
      | succ i => exact hbefore i (by omega)

/-! ## What a delete leaves -/

section Delete

variable {k : String}

theorem Fleet.entry_delete (fleet : Fleet) (addr a : String) :
    Fleet.entry (Function.update fleet addr ((fleet addr).delete k).2) a k
      = if a = addr then none else fleet.entry a k := by
  rw [Fleet.entry_update]
  split_ifs with ha
  · simp
  · rfl

theorem Fleet.entry_delete_of_none {fleet : Fleet} {a : String} (h : fleet.entry a k = none)
    (addr : String) :
    Fleet.entry (Function.update fleet addr ((fleet addr).delete k).2) a k = none := by
  rw [Fleet.entry_delete, h]
  split_ifs <;> rfl

/-- Once the key is gone from an address, the loop does not bring it
back. -/
theorem entry_deleteNode_of_none {addr a : String} {calls : Nat → Attempt} {left i : Nat}
    {fleet : Fleet} (h : fleet.entry a k = none) :
    (deleteNode k addr calls left i fleet).2.entry a k = none := by
  induction left generalizing i fleet with
  | zero => exact h
  | succ left ih =>
      have hserved := Fleet.entry_delete_of_none h addr
      rw [deleteNode]
      cases (calls i).outcome with
      | connectError => exact h
      | rpcError executed =>
          cases executed with
          | true => exact ih hserved
          | false => exact ih h
      | answered =>
          dsimp only
          cases ((fleet addr).delete k).1 with
          | ok resp => exact hserved
          | error e => exact ih hserved

theorem entry_deleteNode_of_delivered {addr : String} {calls : Nat → Attempt} {left i : Nat}
    {fleet : Fleet} (h : Delivered left fun j => calls (i + j)) :
    (deleteNode k addr calls left i fleet).2.entry addr k = none := by
  induction left generalizing i fleet with
  | zero => exact absurd h (delivered_zero _)
  | succ left ih =>
      have hserved : Fleet.entry (Function.update fleet addr ((fleet addr).delete k).2) addr k
          = none := by rw [Fleet.entry_delete, if_pos rfl]
      have hshift : (fun j => calls (i + (j + 1))) = fun j => calls (i + 1 + j) := by
        funext j
        rw [show i + (j + 1) = i + 1 + j by omega]
      have hfirst := delivered_succ.mp h
      rw [hshift] at hfirst
      rw [deleteNode]
      cases hout : (calls i).outcome with
      | connectError => simp [hout, Outcome.executes] at hfirst
      | rpcError executed =>
          cases executed with
          | true => exact entry_deleteNode_of_none hserved
          | false => exact ih (by simpa [hout, Outcome.executes] using hfirst)
      | answered =>
          dsimp only
          cases ((fleet addr).delete k).1 with
          | ok resp => exact hserved
          | error e => exact entry_deleteNode_of_none hserved

/-- An address the loop does not reach keeps its entry. -/
theorem entry_deleteNode_of_not_delivered {addr a : String} {calls : Nat → Attempt}
    {left i : Nat} {fleet : Fleet} (h : a = addr → ¬ Delivered left fun j => calls (i + j)) :
    (deleteNode k addr calls left i fleet).2.entry a k = fleet.entry a k := by
  induction left generalizing i fleet with
  | zero => rfl
  | succ left ih =>
      have hshift : (fun j => calls (i + (j + 1))) = fun j => calls (i + 1 + j) := by
        funext j
        rw [show i + (j + 1) = i + 1 + j by omega]
      have hmiss : (calls i).outcome ≠ .connectError →
          a = addr → ¬ Delivered left fun j => calls (i + 1 + j) := by
        intro hconn ha hdel
        apply h ha
        rw [delivered_succ, hshift]
        exact .inr ⟨hconn, hdel⟩
      have hother : (calls i).outcome.executes →
          Fleet.entry (Function.update fleet addr ((fleet addr).delete k).2) a k
            = fleet.entry a k := by
        intro hexec
        rw [Fleet.entry_delete, if_neg]
        intro ha
        exact h ha (delivered_succ.mpr (.inl hexec))
      rw [deleteNode]
      cases hout : (calls i).outcome with
      | connectError => rfl
      | rpcError executed =>
          cases executed with
          | true =>
              exact (ih (hmiss (by simp [hout]))).trans (hother (by simp [hout, Outcome.executes]))
          | false => exact ih (hmiss (by simp [hout]))
      | answered =>
          dsimp only
          cases ((fleet addr).delete k).1 with
          | ok resp => exact hother (by simp [hout, Outcome.executes])
          | error e =>
              exact (ih (hmiss (by simp [hout]))).trans (hother (by simp [hout, Outcome.executes]))

/-- **What the whole delete leaves**: nothing at the addresses it
reached, and at the others what they had. -/
theorem entry_deleteNodes_of_delivered {cfg : ReplicationConfig} {faults : Faults}
    {nodes : List NodeInfo} {fleet : Fleet} {a : String}
    (h : fleet.entry a k = none ∨ ∃ m ∈ nodes, m.addr = a ∧ Delivered cfg.maxRetries (faults m)) :
    (deleteNodes cfg k faults nodes fleet).2.entry a k = none := by
  induction nodes generalizing fleet with
  | nil => simpa [deleteNodes] using h
  | cons node rest ih =>
      apply ih
      rcases h with hnone | ⟨m, hm, rfl, hdel⟩
      · exact .inl (entry_deleteNode_of_none hnone)
      · rcases List.mem_cons.mp hm with rfl | hm
        · exact .inl (entry_deleteNode_of_delivered (by simpa using hdel))
        · exact .inr ⟨m, hm, rfl, hdel⟩

theorem entry_deleteNodes_of_not_delivered {cfg : ReplicationConfig} {faults : Faults}
    {nodes : List NodeInfo} {fleet : Fleet} {a : String}
    (h : ∀ m ∈ nodes, m.addr = a → ¬ Delivered cfg.maxRetries (faults m)) :
    (deleteNodes cfg k faults nodes fleet).2.entry a k = fleet.entry a k := by
  induction nodes generalizing fleet with
  | nil => rfl
  | cons node rest ih =>
      have hnode : a = node.addr → ¬ Delivered cfg.maxRetries fun j => faults node (0 + j) := by
        intro ha
        simpa using h node (by simp) ha.symm
      exact (ih fun m hm => h m (by simp [hm])).trans (entry_deleteNode_of_not_delivered hnode)

end Delete

/-! ## What a read finds -/

section Read

variable {k : String}

/-- What a read of `k` at this address and time would find. -/
def Fleet.readable (fleet : Fleet) (now : Instant) (addr k : String) : Option CacheEntry :=
  (fleet.entry addr k).filter (·.live now)

theorem Fleet.readable_eq_none {fleet : Fleet} {now : Instant} {addr : String} :
    fleet.readable now addr k = none ↔ ∀ e, fleet.entry addr k = some e → ¬ e.live now := by
  rw [Fleet.readable]
  cases fleet.entry addr k with
  | none => simp
  | some e => simp

theorem Fleet.readable_none_of_le {fleet : Fleet} {now later : Instant} {addr : String}
    (hle : now ≤ later) (h : fleet.readable now addr k = none) :
    fleet.readable later addr k = none := by
  rw [Fleet.readable_eq_none] at h ⊢
  intro e he hlive
  exact h e he (CacheEntry.live_of_le hle hlive)

/-- A read leaves, at every address, the entry or nothing. -/
theorem Fleet.entry_get (fleet : Fleet) (addr a : String) (now : Instant) :
    Fleet.entry (Function.update fleet addr ((fleet addr).get now k).2) a k
      = if a = addr then fleet.readable now a k else fleet.entry a k := by
  rw [Fleet.entry_update]
  split_ifs with ha
  · rw [Fleet.readable, Fleet.entry, ha]
    simp
  · rfl

theorem Fleet.readable_get_of_none {fleet : Fleet} {now : Instant} {a : String}
    (h : fleet.readable now a k = none) (addr : String) (time : Instant) :
    Fleet.readable (Function.update fleet addr ((fleet addr).get time k).2) now a k = none := by
  rw [Fleet.readable_eq_none] at h ⊢
  intro e he
  rw [Fleet.entry_get] at he
  split_ifs at he
  · exact h e (Option.filter_eq_some_iff.mp he).1
  · exact h e he

/-- Reading at `now` takes nothing away that is readable at `now`. -/
theorem Fleet.readable_get (fleet : Fleet) (now : Instant) (a addr : String) :
    Fleet.readable (Function.update fleet addr ((fleet addr).get now k).2) now a k
      = fleet.readable now a k := by
  rw [Fleet.readable, Fleet.entry_get]
  split_ifs
  · rw [Fleet.readable, Option.filter_filter]
    simp
  · rfl

theorem Fleet.get_fst_of_readable {fleet : Fleet} {now : Instant} {addr : String}
    {e : CacheEntry} (h : fleet.readable now addr k = some e) :
    ((fleet addr).get now k).1 = .ok ⟨some e.value, true⟩ := by
  rw [Fleet.readable, Fleet.entry] at h
  rw [CacheService.get_fst, h]

theorem Fleet.get_fst_of_unreadable {fleet : Fleet} {now : Instant} {addr : String}
    (h : fleet.readable now addr k = none) :
    ((fleet addr).get now k).1 = .ok ⟨none, false⟩ := by
  rw [Fleet.readable, Fleet.entry] at h
  rw [CacheService.get_fst, h]

/-- Where nothing is readable, the read moves on. -/
theorem getNodeAt_of_unreadable {addr : String} {now : Instant} {calls : Nat → Attempt}
    {fleet : Fleet} (h : fleet.readable now addr k = none) (htime : ∀ j, now ≤ (calls j).time)
    (left i : Nat) :
    (getNodeAt k addr calls left i fleet).1 = none := by
  induction left generalizing i fleet with
  | zero => rfl
  | succ left ih =>
      have hserved := Fleet.readable_get_of_none h addr (calls i).time
      rw [getNodeAt]
      cases (calls i).outcome with
      | connectError => exact ih h (i + 1)
      | rpcError executed =>
          cases executed with
          | true => exact ih hserved (i + 1)
          | false => exact ih h (i + 1)
      | answered =>
          have hnow := Fleet.readable_none_of_le (htime i) h
          simp [Fleet.get_fst_of_unreadable hnow]

theorem getNodes_of_unreadable {cfg : ReplicationConfig} {now : Instant} {faults : Faults}
    {nodes : List NodeInfo} {fleet : Fleet}
    (h : ∀ n ∈ nodes, fleet.readable now n.addr k = none)
    (htime : ∀ n j, now ≤ (faults n j).time) :
    (getNodes cfg k faults nodes fleet).1 = none := by
  induction nodes generalizing fleet with
  | nil => rfl
  | cons node rest ih =>
      have hnode := getNodeAt_of_unreadable (h node (by simp)) (htime node) cfg.maxRetries 0
      have hrest : ∀ n ∈ rest, (getNodeAt k node.addr (faults node) cfg.maxRetries 0
          fleet).2.readable now n.addr k = none := by
        intro n hn
        exact getNodeAt_preserves (fun f => f.readable now n.addr k = none)
          (fun _ time hf => Fleet.readable_get_of_none hf node.addr time) (h n (by simp [hn]))
      rw [getNodes]
      cases hget : getNodeAt k node.addr (faults node) cfg.maxRetries 0 fleet with
      | mk answer fleet' =>
          rw [hget] at hnode hrest
          cases hnode
          exact ih hrest

/-- A read whose calls are all answered at `now` misses only what is not
there. -/
theorem unreadable_of_getNodes {cfg : ReplicationConfig} {now : Instant}
    (hretries : 1 ≤ cfg.maxRetries) {nodes : List NodeInfo} {fleet : Fleet}
    (h : (getNodes cfg k (fun _ _ => ⟨.answered, now⟩) nodes fleet).1 = none) :
    ∀ n ∈ nodes, fleet.readable now n.addr k = none := by
  induction nodes generalizing fleet with
  | nil => simp
  | cons node rest ih =>
      obtain ⟨left, hleft⟩ : ∃ left, cfg.maxRetries = left + 1 := ⟨cfg.maxRetries - 1, by omega⟩
      cases hread : fleet.readable now node.addr k with
      | some e =>
          simp [getNodes, hleft, getNodeAt, Fleet.get_fst_of_readable hread] at h
      | none =>
          simp only [getNodes, hleft, getNodeAt, Fleet.get_fst_of_unreadable hread,
            Bool.false_eq_true, if_false] at h
          have hrest := ih h
          intro n hn
          rcases List.mem_cons.mp hn with rfl | hn
          · exact hread
          · rw [← Fleet.readable_get fleet now n.addr node.addr]
            exact hrest n hn

theorem getNodes_of_no_retries {cfg : ReplicationConfig} (h : cfg.maxRetries = 0)
    (faults : Faults) (nodes : List NodeInfo) (fleet : Fleet) :
    (getNodes cfg k faults nodes fleet).1 = none := by
  induction nodes generalizing fleet with
  | nil => rfl
  | cons node rest ih =>
      simp only [getNodes, h, getNodeAt]
      exact ih fleet

/-- Only a found entry ends the read early. -/
theorem found_of_getNodeAt {addr : String} {calls : Nat → Attempt} {left i : Nat} {fleet : Fleet}
    {inner : GetResponse} (h : (getNodeAt k addr calls left i fleet).1 = some inner) :
    inner.found = true := by
  induction left generalizing i fleet with
  | zero => cases h
  | succ left ih =>
      rw [getNodeAt] at h
      cases hout : (calls i).outcome with
      | connectError =>
          rw [hout] at h
          exact ih h
      | rpcError executed =>
          rw [hout] at h
          exact ih h
      | answered =>
          rw [hout] at h
          dsimp only at h
          cases hserved : ((fleet addr).get (calls i).time k).1 with
          | ok answer =>
              rw [hserved] at h
              dsimp only at h
              split_ifs at h with hfound
              cases h
              exact hfound
          | error e =>
              rw [hserved] at h
              exact ih h

theorem found_of_getNodes {cfg : ReplicationConfig} {faults : Faults} {nodes : List NodeInfo}
    {fleet : Fleet} {inner : GetResponse}
    (h : (getNodes cfg k faults nodes fleet).1 = some inner) : inner.found = true := by
  induction nodes generalizing fleet with
  | nil => cases h
  | cons node rest ih =>
      rw [getNodes] at h
      cases hget : getNodeAt k node.addr (faults node) cfg.maxRetries 0 fleet with
      | mk answer fleet' =>
          rw [hget] at h
          cases answer with
          | some inner' =>
              cases h
              exact found_of_getNodeAt (congrArg Prod.fst hget)
          | none => exact ih h

end Read

/-! ## The two together -/

/-- If the delete returns `Ok`, every later read returns "not found":
with the same ring and health, any fleet grown from the one the delete
left without a set of `k`, and any calls of its own from `now` on. -/
def EffectiveDelete (X : Crates) (cfg : ReplicationConfig) (ring : HashRing)
    (health : HealthMonitor) (k : String) (faults : Faults) (fleet : Fleet) (now : Instant) :
    Prop :=
  ∀ resp fleet₁, coordinatorDelete X cfg ring health k faults fleet = (.ok resp, fleet₁) →
    ∀ fleet₂, fleet₁.Later (fun op => ¬ op.sets k) fleet₂ →
    ∀ faults₂ : Faults, (∀ n j, now ≤ (faults₂ n j).time) →
      (coordinatorGet X cfg ring health k faults₂ fleet₂).1 = .ok ⟨none, false⟩

theorem Fleet.entry_none_later {fleet fleet' : Fleet} {addr k : String}
    (h : fleet.entry addr k = none) (hlater : fleet.Later (fun op => ¬ op.sets k) fleet') :
    fleet'.entry addr k = none := by
  obtain ⟨ops, hops, hstore⟩ := hlater addr
  rw [Fleet.entry, hstore]
  exact CacheStore.lookup_run_of_unset hops h

theorem Fleet.later_refl (P : CacheStore.Op → Prop) (fleet : Fleet) : fleet.Later P fleet :=
  fun _ => ⟨[], by simp, rfl⟩

/-- Every address has run `EXPIRE k 1` at `now`. -/
def Fleet.revived (fleet : Fleet) (now : Instant) (k : String) : Fleet := fun addr =>
  { fleet addr with store := ((fleet addr).store.expire now k (fromSecs 1)).2 }

theorem Fleet.later_revived (fleet : Fleet) (now : Instant) (k : String) :
    fleet.Later (fun op => ¬ op.sets k) (fleet.revived now k) := by
  intro addr
  exact ⟨[(now, .expire k (fromSecs 1))], by simp [CacheStore.Op.sets], rfl⟩

/-- An `EXPIRE` makes any entry readable, an expired one too. -/
theorem Fleet.entry_of_unreadable_revived {fleet : Fleet} {now : Instant} {addr k : String}
    (h : (fleet.revived now k).readable now addr k = none) : fleet.entry addr k = none := by
  have hentry : (fleet.revived now k).entry addr k
      = (fleet.entry addr k).map fun e => { e with expiresAt := some (now + fromSecs 1) } := by
    rw [Fleet.entry, Fleet.revived, CacheStore.lookup_expire, if_pos rfl]
    rfl
  have hahead : 0 < fromSecs 1 := by decide
  cases hold : fleet.entry addr k with
  | none => rfl
  | some e =>
      rw [Fleet.readable, hentry, hold, Option.map_some, Option.filter_some] at h
      simp [CacheEntry.live, hahead] at h

section Effect

variable {X : Crates} {cfg : ReplicationConfig} {ring : HashRing} {health : HealthMonitor}
  {k : String}

theorem coordinatorDelete_eq (h : alivePreferenceList X cfg ring health k ≠ []) (faults : Faults)
    (fleet : Fleet) :
    coordinatorDelete X cfg ring health k faults fleet
      = (.ok ⟨(deleteNodes cfg k faults (alivePreferenceList X cfg ring health k) fleet).1⟩,
        (deleteNodes cfg k faults (alivePreferenceList X cfg ring health k) fleet).2) := by
  simp [coordinatorDelete, h]

theorem coordinatorGet_notFound_iff (h : alivePreferenceList X cfg ring health k ≠ [])
    (faults : Faults) (fleet : Fleet) :
    (coordinatorGet X cfg ring health k faults fleet).1 = .ok ⟨none, false⟩
      ↔ (getNodes cfg k faults (alivePreferenceList X cfg ring health k) fleet).1 = none := by
  have hfound : ∀ inner, (getNodes cfg k faults (alivePreferenceList X cfg ring health k)
      fleet).1 = some inner → inner.found = true := fun _ hinner => found_of_getNodes hinner
  simp only [coordinatorGet, List.isEmpty_iff, h, if_false]
  cases hget : getNodes cfg k faults (alivePreferenceList X cfg ring health k) fleet with
  | mk answer fleet' =>
      rw [hget] at hfound
      cases answer with
      | none => simp
      | some inner =>
          constructor
          · intro heq
            have htrue := hfound inner rfl
            rw [Except.ok.inj heq] at htrue
            cases htrue
          · intro heq
            cases heq

/-- An address is empty after the delete exactly when it was before, or
the delete reached it. -/
theorem entry_deleteNodes_eq_none_iff {faults : Faults} {nodes : List NodeInfo} {fleet : Fleet}
    {a : String} :
    (deleteNodes cfg k faults nodes fleet).2.entry a k = none
      ↔ fleet.entry a k = none
        ∨ ∃ m ∈ nodes, m.addr = a ∧ Delivered cfg.maxRetries (faults m) := by
  by_cases hdel : ∃ m ∈ nodes, m.addr = a ∧ Delivered cfg.maxRetries (faults m)
  · simp only [entry_deleteNodes_of_delivered (.inr hdel), hdel, or_true]
  · have hkept : (deleteNodes cfg k faults nodes fleet).2.entry a k = fleet.entry a k :=
      entry_deleteNodes_of_not_delivered fun m hm ha hm' => hdel ⟨m, hm, ha, hm'⟩
    simp only [hkept, hdel, or_false]

end Effect

/-- **When a delete takes effect**: exactly when no read is ever made
(no attempts), or the delete reached every chosen replica that held an
entry, expired or not. -/
theorem coordinatorDelete_effective_iff (X : Crates) (cfg : ReplicationConfig) (ring : HashRing)
    (health : HealthMonitor) (k : String) (faults : Faults) (fleet : Fleet) (now : Instant) :
    EffectiveDelete X cfg ring health k faults fleet now
      ↔ cfg.maxRetries = 0 ∨ ∀ n ∈ alivePreferenceList X cfg ring health k,
          (fleet.entry n.addr k).isSome →
          ∃ m ∈ alivePreferenceList X cfg ring health k,
            m.addr = n.addr ∧ Delivered cfg.maxRetries (faults m) := by
  by_cases hempty : alivePreferenceList X cfg ring health k = []
  · -- nobody to ask: the delete is refused, and there is no replica
    simp [EffectiveDelete, coordinatorDelete, hempty]
  constructor
  · intro heffective
    by_cases hretries : cfg.maxRetries = 0
    · exact .inl hretries
    · refine .inr fun n hn hheld => ?_
      -- what is left is made readable, and then read with every call answered
      have hnot := heffective _ _ (coordinatorDelete_eq hempty faults fleet) _
        (Fleet.later_revived _ now k) (fun _ _ => ⟨.answered, now⟩) (fun _ _ => Nat.le_refl now)
      rw [coordinatorGet_notFound_iff hempty] at hnot
      have hgone := Fleet.entry_of_unreadable_revived
        (unreadable_of_getNodes (by omega) hnot n hn)
      rcases entry_deleteNodes_eq_none_iff.mp hgone with hnone | hdelivered
      · rw [hnone] at hheld
        cases hheld
      · exact hdelivered
  · intro hcond resp fleet₁ hdelete fleet₂ hlater faults₂ htime
    rw [coordinatorDelete_eq hempty] at hdelete
    cases hdelete
    rw [coordinatorGet_notFound_iff hempty]
    rcases hcond with hretries | hreached
    · exact getNodes_of_no_retries hretries _ _ _
    · refine getNodes_of_unreadable (fun n hn => ?_) htime
      have hgone : (deleteNodes cfg k faults (alivePreferenceList X cfg ring health k)
          fleet).2.entry n.addr k = none := by
        rw [entry_deleteNodes_eq_none_iff]
        cases hheld : fleet.entry n.addr k with
        | none => exact .inl rfl
        | some e => exact .inr (hreached n hn (by simp [hheld]))
      rw [Fleet.readable, Fleet.entry_none_later hgone hlater]
      rfl

/-- Three replicas hold the key and the connection to the first one
fails: the delete returns `Ok`, and a read finds the key again. -/
theorem coordinatorDelete_not_effective_first_replica :
    ¬ EffectiveDelete ThreeNodes.crates ⟨3, 1⟩ ThreeNodes.ring .new ""
      (fun n _ => ⟨if n = ThreeNodes.a then .connectError else .answered, 0⟩)
      (coordinatorSet ThreeNodes.crates ⟨3, 1⟩ ThreeNodes.ring .new ⟨"", [7], none⟩
        (fun _ _ => ⟨.answered, 0⟩) ThreeNodes.fleet).2 0 := by
  intro h
  have hread := h ⟨true⟩ _ rfl _ (Fleet.later_refl _ _) (fun _ _ => ⟨.answered, 0⟩)
    (fun _ _ => Nat.le_refl 0)
  exact absurd hread (by decide)

end SelfHealingCache
