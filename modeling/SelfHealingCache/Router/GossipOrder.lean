import Mathlib.Algebra.GroupWithZero.Nat
import SelfHealingCache.Router.Gossip

/-!
# The order in which the router hears

The nodes compare incarnations; the router's response loop never reads
them. What it ends with depends on the order its reports come in: the
ring on the LAST Alive or Dead report about a node, the health entry on
the last Alive or Joining report and the failures recorded since.

`Ledger` is that summary of the reports about one node, and `Kept` says
the health monitor agrees with it. The monitor forgets the count once a
node is Dead, so the agreement is a relation and not an equation.
-/

namespace SelfHealingCache

/-! ## Failures on record -/

/-- How many failures the router records for a report. -/
def MemberStatus.failures : MemberStatus → Nat
  | .alive => 0
  | .joining => 0
  | .suspect => 1
  | .dead => 3

/-- Whether the node was last reported Joining rather than Alive, and the
failures recorded since. -/
structure Ledger where
  joining : Bool
  failures : Nat

/-- A node nothing has been recorded about counts as Alive. -/
def Ledger.blank : Ledger := ⟨false, 0⟩

/-- Fewer failures than the threshold, and a Joining node has at least
one: the first failure turns it Suspect. -/
def Ledger.Routable (l : Ledger) : Prop :=
  l.failures < 3 ∧ (l.joining = true → 0 < l.failures)

instance (l : Ledger) : Decidable l.Routable := inferInstanceAs (Decidable (_ ∧ _))

def Ledger.fail (l : Ledger) (count : Nat) : Ledger := ⟨l.joining, l.failures + count⟩

/-- The ledger after one more report. -/
def Ledger.record (l : Ledger) : MemberStatus → Ledger
  | .alive => ⟨false, 0⟩
  | .joining => ⟨true, 0⟩
  | .suspect => l.fail 1
  | .dead => l.fail 3

theorem Ledger.routable_record_alive (l : Ledger) : (l.record .alive).Routable := by
  simp [record, Routable]

/-- Three failures are too many, whatever was on record before. -/
theorem Ledger.not_routable_record_dead (l : Ledger) : ¬ (l.record .dead).Routable := by
  simp [record, fail, Routable]

theorem Ledger.not_routable_record_joining (l : Ledger) : ¬ (l.record .joining).Routable := by
  simp [record, Routable]

/-- The health entry a ledger stands for. -/
def Ledger.Shows (l : Ledger) : Option NodeHealthEntry → Prop
  | none => l = .blank
  | some ⟨.alive, failures⟩ => l = .blank ∧ failures = 0
  | some ⟨.joining, failures⟩ => l = ⟨true, 0⟩ ∧ failures = 0
  | some ⟨.suspect, failures⟩ => l.failures = failures.toNat ∧ 0 < l.failures ∧ l.failures < 3
  | some ⟨.dead, _⟩ => 3 ≤ l.failures

theorem Ledger.Shows.failed {l : Ledger} {entry : Option NodeHealthEntry} (h : l.Shows entry) :
    (l.fail 1).Shows (some (HealthMonitor.failed 3 (entry.getD ⟨.alive, 0⟩))) := by
  match entry, h with
  | none, h =>
      cases h
      exact ⟨rfl, by decide, by decide⟩
  | some ⟨.alive, _⟩, ⟨hl, hzero⟩ =>
      cases hl
      cases hzero
      exact ⟨rfl, by decide, by decide⟩
  | some ⟨.joining, _⟩, ⟨hl, hzero⟩ =>
      cases hl
      cases hzero
      exact ⟨rfl, by decide, by decide⟩
  | some ⟨.suspect, failures⟩, ⟨heq, hpos, hlt⟩ =>
      have hnext : (failures + 1).toNat = l.failures + 1 := by
        rw [heq] at hlt ⊢
        exact HealthMonitor.toNat_next 3 hlt
      have hthree : (3 : UInt32) ≤ failures + 1 ↔ 3 ≤ l.failures + 1 := by
        rw [UInt32.le_iff_toNat_le, hnext]
        rfl
      show (l.fail 1).Shows (some ⟨if 3 ≤ failures + 1 then .dead else .suspect, failures + 1⟩)
      split_ifs with hdead
      · exact hthree.mp hdead
      · refine ⟨hnext.symm, Nat.succ_pos _, ?_⟩
        rw [hthree] at hdead
        exact Nat.lt_of_not_le hdead
  | some ⟨.dead, _⟩, h => exact Nat.le_succ_of_le h

/-- What `is_alive` answers. -/
theorem Ledger.Shows.routable {l : Ledger} {h : HealthMonitor} {id : NodeId}
    (hshows : l.Shows (h.nodes.lookup id)) : h.isAlive id = decide l.Routable := by
  rw [HealthMonitor.isAlive]
  cases hentry : h.nodes.lookup id with
  | none =>
      rw [hentry] at hshows
      cases hshows
      rfl
  | some entry =>
      rw [hentry] at hshows
      obtain ⟨status, failures⟩ := entry
      cases status with
      | alive =>
          cases hshows.1
          rfl
      | joining =>
          cases hshows.1
          rfl
      | suspect =>
          obtain ⟨_, hpos, hlt⟩ := hshows
          simp [Routable, hpos, hlt]
      | dead =>
          have hmany : ¬ l.failures < 3 := Nat.not_lt.mpr hshows
          simp [Routable, hmany]

/-- The monitor agrees with a ledger for every node. -/
structure HealthMonitor.Kept (h : HealthMonitor) (ledger : NodeId → Ledger) : Prop where
  threshold : h.failureThreshold = 3
  shows : ∀ id, (ledger id).Shows (h.nodes.lookup id)

theorem HealthMonitor.kept_new : HealthMonitor.new.Kept fun _ => .blank :=
  ⟨rfl, fun _ => rfl⟩

section Kept

variable {h : HealthMonitor} {ledger : NodeId → Ledger}

theorem HealthMonitor.Kept.markAlive (hk : h.Kept ledger) (id : NodeId) :
    (h.markAlive id).Kept (Function.update ledger id .blank) := by
  refine ⟨hk.threshold, fun j => ?_⟩
  rw [lookup_markAlive, Function.update_apply]
  split_ifs
  · exact ⟨rfl, rfl⟩
  · exact hk.shows j

theorem HealthMonitor.Kept.markJoining (hk : h.Kept ledger) (id : NodeId) :
    (h.markJoining id).Kept (Function.update ledger id ⟨true, 0⟩) := by
  refine ⟨hk.threshold, fun j => ?_⟩
  rw [lookup_markJoining, Function.update_apply]
  split_ifs
  · exact ⟨rfl, rfl⟩
  · exact hk.shows j

theorem HealthMonitor.Kept.recordFailure (hk : h.Kept ledger) (id : NodeId) :
    (h.recordFailure id).Kept (Function.update ledger id ((ledger id).fail 1)) := by
  refine ⟨hk.threshold, fun j => ?_⟩
  rw [lookup_recordFailure, Function.update_apply, hk.threshold]
  split_ifs
  · exact (hk.shows id).failed
  · exact hk.shows j

end Kept

/-! ## One report -/

/-- Whether the ring holds a node after a report about it. -/
def onRingAfter (onRing : Bool) : MemberStatus → Bool
  | .alive => true
  | .dead => false
  | .joining | .suspect => onRing

theorem HashRing.containsNode_addNode (X : Crates) (r : HashRing) (info : NodeInfo) (id : NodeId) :
    (r.addNode X info).containsNode id = (r.containsNode id || decide (info.id = id)) := by
  simp [containsNode, addNode]

theorem HashRing.containsNode_removeNode (r : HashRing) (gone id : NodeId) :
    (r.removeNode gone).containsNode id = (r.containsNode id && decide (id ≠ gone)) := by
  rw [Bool.eq_iff_iff, Bool.and_eq_true]
  simp only [containsNode, removeNode, List.any_filter, List.any_eq_true, Bool.and_eq_true,
    decide_eq_true_eq]
  constructor
  · rintro ⟨n, hn, hne, hid⟩
    exact ⟨⟨n, hn, hid⟩, by rw [← hid]; exact hne⟩
  · rintro ⟨⟨n, hn, hid⟩, hne⟩
    exact ⟨n, hn, by rw [hid]; exact hne, hid⟩

section Report

variable {X : Crates} {r : Router} {ledger : NodeId → Ledger}

theorem Router.containsNode_addNode (X : Crates) (r : Router) (info : NodeInfo) (j : NodeId) :
    (r.apply X (.addNode info)).ring.containsNode j
      = if j = info.id then true else r.ring.containsNode j := by
  rw [apply]
  by_cases hin : r.ring.containsNode info.id = true
  · rw [if_pos hin]
    split_ifs with hj
    · rw [hj, hin]
    · rfl
  · rw [if_neg hin, HashRing.containsNode_addNode]
    by_cases hj : j = info.id
    · simp [hj]
    · simp [hj, Ne.symm hj]

theorem Router.containsNode_removeNode (X : Crates) (r : Router) (id j : NodeId) :
    (r.apply X (.removeNode id)).ring.containsNode j
      = if j = id then false else r.ring.containsNode j := by
  rw [apply]
  by_cases hin : r.ring.containsNode id = true
  · rw [if_pos hin, HashRing.containsNode_removeNode]
    by_cases hj : j = id
    · simp [hj]
    · simp [hj]
  · rw [if_neg hin]
    split_ifs with hj
    · rw [hj]
      simpa using hin
    · rfl

theorem Router.health_addNode (X : Crates) (r : Router) (info : NodeInfo) :
    (r.apply X (.addNode info)).health = r.health := by
  rw [apply]
  split_ifs <;> rfl

theorem Router.health_removeNode (X : Crates) (r : Router) (id : NodeId) :
    (r.apply X (.removeNode id)).health = r.health := by
  rw [apply]
  split_ifs <;> rfl

/-- What one report does to the ring and to the ledger: something for the
node it is about, nothing for the others. -/
theorem exchangeMember_of_observed {m : ProtoMemberEntry} {id : NodeId} {status : MemberStatus}
    (hm : observed X m = some (id, status)) (hk : r.health.Kept ledger) :
    (∀ j, (exchangeMember X r m).ring.containsNode j
      = if j = id then onRingAfter (r.ring.containsNode j) status else r.ring.containsNode j)
    ∧ (exchangeMember X r m).health.Kept
        (Function.update ledger id ((ledger id).record status)) := by
  rw [exchangeMember, hm]
  cases status with
  | alive =>
      refine ⟨Router.containsNode_addNode X { r with health := r.health.markAlive id }
        ⟨id, m.addr⟩, ?_⟩
      show (Router.apply X { r with health := r.health.markAlive id }
        (.addNode ⟨id, m.addr⟩)).health.Kept _
      rw [Router.health_addNode]
      exact hk.markAlive id
  | joining =>
      exact ⟨fun j => by simp [memberUpdates, Router.apply, onRingAfter], hk.markJoining id⟩
  | suspect =>
      exact ⟨fun j => by simp [memberUpdates, Router.apply, onRingAfter], hk.recordFailure id⟩
  | dead =>
      -- three failures, one after the other
      have hthree := ((hk.recordFailure id).recordFailure id).recordFailure id
      simp only [Function.update_self, Function.update_idem] at hthree
      refine ⟨Router.containsNode_removeNode X { r with
        health := ((r.health.recordFailure id).recordFailure id).recordFailure id } id, ?_⟩
      show (Router.apply X { r with
        health := ((r.health.recordFailure id).recordFailure id).recordFailure id }
          (.removeNode id)).health.Kept _
      rw [Router.health_removeNode]
      exact hthree

/-! ## A whole sequence of reports -/

/-- The statuses reported for a node, in the order they are heard. -/
def history (X : Crates) (id : NodeId) (members : List ProtoMemberEntry) : List MemberStatus :=
  members.filterMap fun m =>
    match observed X m with
    | some (j, status) => if j = id then some status else none
    | none => none

theorem history_cons_of_observed {m : ProtoMemberEntry} {j : NodeId} {status : MemberStatus}
    (hm : observed X m = some (j, status)) (id : NodeId) (members : List ProtoMemberEntry) :
    history X id (m :: members)
      = if j = id then status :: history X id members else history X id members := by
  rw [history, List.filterMap_cons, hm]
  dsimp only
  by_cases hj : j = id
  · rw [if_pos hj, if_pos hj]
    rfl
  · rw [if_neg hj, if_neg hj]
    rfl

theorem history_cons_of_skipped {m : ProtoMemberEntry} (hm : observed X m = none) (id : NodeId)
    (members : List ProtoMemberEntry) : history X id (m :: members) = history X id members := by
  rw [history, List.filterMap_cons, hm]
  rfl

/-- **What the router ends with**, node by node, is decided by the reports
about that node. -/
theorem exchangeGossip_history (hk : r.health.Kept ledger) (members : List ProtoMemberEntry) :
    (∀ id, (exchangeGossip X r members).ring.containsNode id
      = (history X id members).foldl onRingAfter (r.ring.containsNode id))
    ∧ (exchangeGossip X r members).health.Kept fun id =>
        (history X id members).foldl Ledger.record (ledger id) := by
  induction members generalizing r ledger with
  | nil => exact ⟨fun _ => rfl, hk⟩
  | cons m members ih =>
      have hfold : exchangeGossip X r (m :: members)
          = exchangeGossip X (exchangeMember X r m) members := rfl
      rw [hfold]
      cases hm : observed X m with
      | none =>
          have hskip : exchangeMember X r m = r := by rw [exchangeMember, hm]
          rw [hskip]
          simp only [history_cons_of_skipped hm]
          exact ih hk
      | some seen =>
          obtain ⟨j, status⟩ := seen
          obtain ⟨hring, hkept⟩ := exchangeMember_of_observed hm hk
          obtain ⟨hring', hkept'⟩ := ih hkept
          constructor
          · intro id
            rw [hring', hring, history_cons_of_observed hm]
            by_cases hj : j = id
            · rw [if_pos hj, if_pos hj.symm]
              rfl
            · rw [if_neg hj, if_neg (Ne.symm hj)]
          · convert hkept' using 2 with id
            rw [history_cons_of_observed hm, Function.update_apply]
            by_cases hj : j = id
            · rw [if_pos hj, if_pos hj.symm, List.foldl_cons, hj]
            · rw [if_neg hj, if_neg (Ne.symm hj)]

end Report

/-! ## Which reports count -/

/-- The last report that changes the ring. -/
def lastRingReport (hist : List MemberStatus) : Option MemberStatus :=
  (hist.filter fun st => st = .alive ∨ st = .dead).getLast?

/-- The last Alive or Joining report. -/
def lastMark (hist : List MemberStatus) : Option MemberStatus :=
  (hist.filter fun st => st.failures = 0).getLast?

/-- The failures recorded after the last Alive or Joining report. -/
def failuresSince (hist : List MemberStatus) : Nat :=
  ((hist.reverse.takeWhile fun st => 0 < st.failures).map MemberStatus.failures).sum

def ledgerAfter (l : Ledger) (hist : List MemberStatus) : Ledger :=
  match lastMark hist with
  | some st => ⟨st = .joining, failuresSince hist⟩
  | none => l.fail (failuresSince hist)

theorem foldl_onRingAfter (onRing : Bool) (hist : List MemberStatus) :
    hist.foldl onRingAfter onRing
      = ((lastRingReport hist).map fun st => decide (st = .alive)).getD onRing := by
  induction hist using List.reverseRecOn with
  | nil => rfl
  | append_singleton hist st ih =>
      rw [List.foldl_append, List.foldl_cons, List.foldl_nil, ih, lastRingReport, lastRingReport,
        List.filter_append]
      cases st <;> simp [onRingAfter]

theorem foldl_record (l : Ledger) (hist : List MemberStatus) :
    hist.foldl Ledger.record l = ledgerAfter l hist := by
  induction hist using List.reverseRecOn with
  | nil => rfl
  | append_singleton hist st ih =>
      rw [List.foldl_append, List.foldl_cons, List.foldl_nil, ih, ledgerAfter, ledgerAfter]
      have hmark : lastMark (hist ++ [st])
          = if st.failures = 0 then some st else lastMark hist := by
        rw [lastMark, lastMark, List.filter_append]
        cases st <;> simp [MemberStatus.failures]
      have hsince : failuresSince (hist ++ [st])
          = if st.failures = 0 then 0 else failuresSince hist + st.failures := by
        rw [failuresSince, failuresSince, List.reverse_append]
        cases st <;> simp [MemberStatus.failures, Nat.add_comm]
      rw [hmark, hsince]
      cases st with
      | alive => rfl
      | joining => rfl
      | suspect =>
          cases lastMark hist <;>
            simp [MemberStatus.failures, Ledger.record, Ledger.fail, Nat.add_assoc]
      | dead =>
          cases lastMark hist <;>
            simp [MemberStatus.failures, Ledger.record, Ledger.fail, Nat.add_assoc]

/-! ## The order and the incarnations -/

/-- No report about the same node has a higher incarnation. -/
def Highest (X : Crates) (members : List ProtoMemberEntry) (m : ProtoMemberEntry) : Prop :=
  ∀ m' ∈ members, ∀ id st st', observed X m = some (id, st) → observed X m' = some (id, st') →
    m'.incarnation ≤ m.incarnation

/-- Ring membership and routability of every reported node are those its
highest-incarnation report alone would have given. -/
def RespectsIncarnations (X : Crates) (r : Router) (responses : List (List ProtoMemberEntry)) :
    Prop :=
  ∀ m ∈ responses.flatten, Highest X responses.flatten m →
    ∀ id st, observed X m = some (id, st) →
      let all := responses.foldl (exchangeGossip X) r
      let alone := exchangeGossip X r [m]
      all.ring.containsNode id = alone.ring.containsNode id
      ∧ all.health.isAlive id = alone.health.isAlive id

/-- The reports about a node come in an order that lets the one with
status `top` prevail: the last Alive or Dead report says the same about
the ring, and the failures since the last Alive or Joining report the
same about routability. -/
def Prevails (onRing : Bool) (l : Ledger) (hist : List MemberStatus) : MemberStatus → Prop
  | .alive => lastRingReport hist = some .alive ∧ (ledgerAfter l hist).Routable
  | .dead => lastRingReport hist = some .dead ∧ ¬ (ledgerAfter l hist).Routable
  | .joining =>
      (∀ st, lastRingReport hist = some st → (st = .alive ↔ onRing = true))
      ∧ ¬ (ledgerAfter l hist).Routable
  | .suspect =>
      (∀ st, lastRingReport hist = some st → (st = .alive ↔ onRing = true))
      ∧ ((ledgerAfter l hist).Routable ↔ (l.fail 1).Routable)

theorem mem_of_lastRingReport {hist : List MemberStatus} {st : MemberStatus}
    (h : lastRingReport hist = some st) : st = .alive ∨ st = .dead := by
  have hmem := (List.mem_filter.mp (List.mem_of_getLast? h)).2
  simpa using hmem

theorem exists_lastRingReport {hist : List MemberStatus} {top : MemberStatus} (htop : top ∈ hist)
    (hring : top = .alive ∨ top = .dead) :
    lastRingReport hist = some .alive ∨ lastRingReport hist = some .dead := by
  have hmem : top ∈ hist.filter fun st => st = .alive ∨ st = .dead :=
    List.mem_filter.mpr ⟨htop, by simpa using hring⟩
  obtain ⟨st, hst⟩ : ∃ st, lastRingReport hist = some st :=
    ⟨_, List.getLast?_eq_some_getLast (List.ne_nil_of_mem hmem)⟩
  rcases mem_of_lastRingReport hst with rfl | rfl
  · exact .inl hst
  · exact .inr hst

/-- A report that says nothing about the ring prevails there when the
last one that does leaves the node where it was. -/
theorem onRing_kept_iff {onRing : Bool} {hist : List MemberStatus} :
    hist.foldl onRingAfter onRing = onRing
      ↔ ∀ st, lastRingReport hist = some st → (st = .alive ↔ onRing = true) := by
  rw [foldl_onRingAfter]
  cases hlast : lastRingReport hist with
  | none => simp
  | some st =>
      rw [Option.map_some, Option.getD_some, Bool.eq_iff_iff, decide_eq_true_eq]
      constructor
      · intro h st' hst'
        cases hst'
        exact h
      · intro h
        exact h st rfl

theorem prevails_iff {onRing : Bool} {l : Ledger} {hist : List MemberStatus} {top : MemberStatus}
    (htop : top ∈ hist) :
    (hist.foldl onRingAfter onRing = onRingAfter onRing top
      ∧ ((hist.foldl Ledger.record l).Routable ↔ (l.record top).Routable))
    ↔ Prevails onRing l hist top := by
  rw [foldl_record]
  cases top with
  | alive =>
      rw [foldl_onRingAfter, Prevails, iff_true_right l.routable_record_alive]
      rcases exists_lastRingReport htop (.inl rfl) with h | h <;> simp [h, onRingAfter]
  | dead =>
      rw [foldl_onRingAfter, Prevails, iff_false_right l.not_routable_record_dead]
      rcases exists_lastRingReport htop (.inr rfl) with h | h <;> simp [h, onRingAfter]
  | joining =>
      rw [Prevails, iff_false_right l.not_routable_record_joining]
      exact and_congr_left fun _ => onRing_kept_iff
  | suspect => exact and_congr_left fun _ => onRing_kept_iff

/-- **When the router's view respects incarnations.** Exactly when, for
every reported node, the reports come in an order that lets the one with
the highest incarnation prevail. -/
theorem respectsIncarnations_iff (X : Crates) {r : Router} {ledger : NodeId → Ledger}
    (hk : r.health.Kept ledger) (responses : List (List ProtoMemberEntry)) :
    RespectsIncarnations X r responses
      ↔ ∀ m ∈ responses.flatten, Highest X responses.flatten m →
        ∀ id st, observed X m = some (id, st) →
          Prevails (r.ring.containsNode id) (ledger id) (history X id responses.flatten) st := by
  have hflat : responses.foldl (exchangeGossip X) r = exchangeGossip X r responses.flatten := by
    rw [exchangeGossip, List.foldl_flatten]
    rfl
  have hone : ∀ m id st, m ∈ responses.flatten → observed X m = some (id, st) →
      (((responses.foldl (exchangeGossip X) r).ring.containsNode id
          = (exchangeGossip X r [m]).ring.containsNode id
        ∧ (responses.foldl (exchangeGossip X) r).health.isAlive id
          = (exchangeGossip X r [m]).health.isAlive id)
      ↔ Prevails (r.ring.containsNode id) (ledger id) (history X id responses.flatten) st) := by
    intro m id st hmem hm
    have hin : st ∈ history X id responses.flatten :=
      List.mem_filterMap.mpr ⟨m, hmem, by rw [hm]; exact if_pos rfl⟩
    have halone : history X id [m] = [st] := by
      rw [history_cons_of_observed hm, if_pos rfl]
      rfl
    obtain ⟨hring, hkept⟩ := exchangeGossip_history (X := X) hk responses.flatten
    obtain ⟨hring', hkept'⟩ := exchangeGossip_history (X := X) hk [m]
    rw [hflat, hring, hring', (hkept.shows id).routable, (hkept'.shows id).routable, halone,
      decide_eq_decide]
    exact prevails_iff hin
  constructor
  · intro h m hmem hhigh id st hm
    exact (hone m id st hmem hm).mp (h m hmem hhigh id st hm)
  · intro h m hmem hhigh id st hm
    exact (hone m id st hmem hm).mpr (h m hmem hhigh id st hm)

/-! ## Every running router keeps a ledger -/

/-- The states of a monitor with the default threshold. -/
inductive HealthMonitor.Reachable : HealthMonitor → Prop where
  | new : Reachable .new
  | markAlive {h : HealthMonitor} (id : NodeId) : h.Reachable → (h.markAlive id).Reachable
  | markJoining {h : HealthMonitor} (id : NodeId) : h.Reachable → (h.markJoining id).Reachable
  | recordFailure {h : HealthMonitor} (id : NodeId) : h.Reachable → (h.recordFailure id).Reachable

/-- Every such state keeps a ledger, in which no counter has outrun its
status. -/
theorem HealthMonitor.Reachable.kept {h : HealthMonitor} (hr : h.Reachable) :
    ∃ ledger, h.Kept ledger := by
  induction hr with
  | new => exact ⟨_, kept_new⟩
  | markAlive id _ ih =>
      obtain ⟨ledger, hk⟩ := ih
      exact ⟨_, hk.markAlive id⟩
  | markJoining id _ ih =>
      obtain ⟨ledger, hk⟩ := ih
      exact ⟨_, hk.markJoining id⟩
  | recordFailure id _ ih =>
      obtain ⟨ledger, hk⟩ := ih
      exact ⟨_, hk.recordFailure id⟩

theorem Router.reachable_apply {X : Crates} {r : Router} (h : r.health.Reachable)
    (u : RouterUpdate) : (r.apply X u).health.Reachable := by
  cases u with
  | markAlive id => exact .markAlive id h
  | markJoining id => exact .markJoining id h
  | recordFailure id => exact .recordFailure id h
  | addNode info =>
      rw [health_addNode]
      exact h
  | removeNode id =>
      rw [health_removeNode]
      exact h

namespace RouterSys

theorem reachable_exec {X : Crates} {monitored : List NodeId} {ring : HashRing}
    {es : List RouterEvent} {s : RouterSys}
    (hrun : Trace.exec (step X monitored) (start ⟨ring, .new⟩) es = some s) :
    s.router.health.Reachable := by
  refine Trace.exec_invariant (I := fun s : RouterSys => s.router.health.Reachable)
    (C := fun _ _ => True) ?_ .new (Trace.along_of_forall (by simp) _) hrun
  intro s e t h _ hstep
  obtain ⟨members, rfl, _, rfl⟩ | ⟨m, rest, rfl, _, _, rfl⟩ | ⟨u, us, rfl, _, rfl⟩
    | ⟨id, ok, rfl, rfl⟩ := step_cases hstep
  · exact h
  · rw [takeUp]
    split
    · exact Router.reachable_apply h _
    · exact h
  · exact Router.reachable_apply h u
  · cases ok with
    | true => exact .markAlive id h
    | false => exact .recordFailure id h

/-- A running router keeps a ledger for every node, whatever it hears and
however the checker's heartbeats fall in between. -/
theorem exists_kept_exec {X : Crates} {monitored : List NodeId} {ring : HashRing}
    {es : List RouterEvent} {s : RouterSys}
    (hrun : Trace.exec (step X monitored) (start ⟨ring, .new⟩) es = some s) :
    ∃ ledger, s.router.health.Kept ledger :=
  (reachable_exec hrun).kept

end RouterSys

/-! ## Two reports about one node -/

/-- A report about node 1. -/
def reportOne (st : MemberStatus) (incarnation : UInt64) : ProtoMemberEntry :=
  ⟨(Crates.hyphenated fun _ => 0).display ⟨1⟩, "a", st.toProto, incarnation, 0⟩

theorem observed_reportOne (st : MemberStatus) (incarnation : UInt64) :
    observed (.hyphenated fun _ => 0) (reportOne st incarnation) = some (⟨1⟩, st) := by
  rw [observed, reportOne, (Crates.hyphenated fun _ => 0).parse_display]
  simp

theorem history_reportOne (first second : MemberStatus) (i j : UInt64) :
    history (.hyphenated fun _ => 0) ⟨1⟩ [reportOne first i, reportOne second j]
      = [first, second] := by
  rw [history_cons_of_observed (observed_reportOne first i), if_pos rfl,
    history_cons_of_observed (observed_reportOne second j), if_pos rfl]
  rfl

/-- At most one status for an id and an incarnation. -/
def OneStatus (X : Crates) (members : List ProtoMemberEntry) : Prop :=
  ∀ m ∈ members, ∀ m' ∈ members, ∀ id st st', observed X m = some (id, st) →
    observed X m' = some (id, st') → m.incarnation = m'.incarnation → st = st'

/-- Alive at incarnation 1, then Dead at incarnation 2: the router ends
with Dead. -/
theorem respectsIncarnations_fresh_dead :
    RespectsIncarnations (.hyphenated fun _ => 0) ⟨.new, .new⟩
      [[reportOne .alive 1], [reportOne .dead 2]] := by
  rw [respectsIncarnations_iff _ HealthMonitor.kept_new]
  intro m hmem hhigh id st hm
  have hlist : ([[reportOne .alive 1], [reportOne .dead 2]] : List (List ProtoMemberEntry)).flatten
      = [reportOne .alive 1, reportOne .dead 2] := rfl
  rw [hlist] at hmem hhigh ⊢
  have hdead : m = reportOne .dead 2 := by
    rcases List.mem_cons.mp hmem with rfl | hmem
    · -- incarnation 1 is not the highest
      have hle := hhigh (reportOne .dead 2) (by simp) ⟨1⟩ .alive .dead (observed_reportOne _ _)
        (observed_reportOne _ _)
      exact absurd hle (by decide)
    · exact List.mem_singleton.mp hmem
  rw [hdead, observed_reportOne] at hm
  cases hm
  rw [history_reportOne]
  exact ⟨rfl, by decide⟩

/-- Dead at incarnation 2, then a stale Alive at incarnation 1: the stale
report brings the node back. -/
theorem not_respectsIncarnations_stale_alive :
    OneStatus (.hyphenated fun _ => 0) [reportOne .dead 2, reportOne .alive 1]
    ∧ ¬ RespectsIncarnations (.hyphenated fun _ => 0) ⟨.new, .new⟩
      [[reportOne .dead 2], [reportOne .alive 1]] := by
  constructor
  · intro m hmem m' hmem' id st st' hm hm' hinc
    simp only [List.mem_cons, List.not_mem_nil, or_false] at hmem hmem'
    rcases hmem with rfl | rfl <;> rcases hmem' with rfl | rfl
    · rw [hm] at hm'
      cases hm'
      rfl
    · exact absurd hinc (by decide)
    · exact absurd hinc (by decide)
    · rw [hm] at hm'
      cases hm'
      rfl
  · intro h
    have hhigh : Highest (.hyphenated fun _ => 0) [reportOne .dead 2, reportOne .alive 1]
        (reportOne .dead 2) := by
      intro m' hm' _ _ _ _ _
      simp only [List.mem_cons, List.not_mem_nil, or_false] at hm'
      rcases hm' with rfl | rfl <;> decide
    have hsame := (h (reportOne .dead 2) (by simp) hhigh ⟨1⟩ .dead (observed_reportOne _ _)).1
    have hall : ([[reportOne .dead 2], [reportOne .alive 1]].foldl
        (exchangeGossip (.hyphenated fun _ => 0)) ⟨.new, .new⟩)
        = exchangeGossip (.hyphenated fun _ => 0) ⟨.new, .new⟩
          [reportOne .dead 2, reportOne .alive 1] := rfl
    have halone : history (.hyphenated fun _ => 0) ⟨1⟩ [reportOne .dead 2] = [.dead] := by
      rw [history_cons_of_observed (observed_reportOne _ _), if_pos rfl]
      rfl
    rw [hall, (exchangeGossip_history HealthMonitor.kept_new _).1,
      (exchangeGossip_history HealthMonitor.kept_new _).1, history_reportOne, halone] at hsame
    cases hsame

end SelfHealingCache
