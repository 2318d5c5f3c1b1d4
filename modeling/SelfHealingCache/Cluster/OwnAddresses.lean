import SelfHealingCache.Cluster.DistinctReplicas

/-!
# The address of a node

`MembershipTable::new` looks for the node's own address among its seeds,
by id. `main` makes up the ids of the seeds, so it finds none and a node's
entry for itself has the empty address. Gossip carries an entry's address
along: in every table, on the wire and at the router an own id comes with
the empty address, a made-up id with an address of a seed list (`Sources`).

A router that learns a node's own id by gossip puts the empty address on
its ring, and `get_client` panics on it (`own_addresses_usable`).
-/

namespace SelfHealingCache

/-! ## A node's entry for itself -/

namespace MembershipTable

/-- The entries about others are the seeds as they are. -/
theorem info_new {now : Instant} {localId j : NodeId} {seeds : List NodeInfo} {e : MemberEntry}
    (h : (new now localId seeds).members.lookup j = some e) (hj : j ≠ localId) :
    e.info ∈ seeds := by
  have hself : ¬ j = (selfInfo localId seeds).id := by
    rw [selfInfo_id]
    exact hj
  rcases seed_of_lookup h with hlook | ⟨_, node, hmem, _, rfl⟩
  · rw [lookup_singleton, if_neg hself] at hlook
    cases hlook
  · exact hmem

theorem selfInfo_of_fresh {localId : NodeId} {seeds : List NodeInfo}
    (h : localId ∉ seeds.map (·.id)) : selfInfo localId seeds = ⟨localId, ""⟩ := by
  have hfind : seeds.find? (fun n => n.id = localId) = none := by
    rw [List.find?_eq_none]
    intro n hn heq
    apply h
    rw [← of_decide_eq_true heq]
    exact List.mem_map_of_mem hn
  rw [selfInfo, hfind]
  rfl

/-- No seed list carries the node's own id, so its entry for itself has
no address. -/
theorem info_localEntry_new (now : Instant) {localId : NodeId} {seeds : List NodeInfo}
    (h : localId ∉ seeds.map (·.id)) : (new now localId seeds).localEntry.info = ⟨localId, ""⟩ := by
  have hlook := lookup_localId (new now localId seeds)
  rw [localId_new] at hlook
  rcases lookup_foldl_addSeed hlook with hself | ⟨hne, _⟩
  · rw [lookup_singleton, if_pos (selfInfo_id localId seeds).symm] at hself
    rw [← Option.some.inj hself]
    exact selfInfo_of_fresh h
  · exact absurd rfl hne

theorem info_localEntry_merge (t : MembershipTable) (now : Instant) (es : List RemoteEntry) :
    (t.merge now es).localEntry.info = t.localEntry.info := by
  induction es generalizing t with
  | nil => rfl
  | cons r es ih =>
      rw [merge_cons, ih, localEntry_mergeEntry, refute]
      split_ifs <;> rfl

theorem info_localEntry_touch (t : MembershipTable) (now : Instant) (id : NodeId) :
    (t.touch now id).localEntry.info = t.localEntry.info := by
  have h := lookup_localId (t.touch now id)
  rw [localId_touch, lookup_touch, lookup_localId] at h
  split_ifs at h <;> rw [← Option.some.inj h]

end MembershipTable

/-- No step of a process gives it an address. -/
theorem NodeSys.NodeMove.info_localEntry {X : Crates} {n n' : NodeSys} {e : NodeEvent}
    (h : NodeMove X n e n') : n'.table.localEntry.info = n.table.localEntry.info := by
  obtain heq | ⟨ge, _, hg⟩ | ⟨_, heq⟩ := h.table_cases
  · rw [heq]
  · obtain heq | ⟨now, fresh, msg, _, heq⟩ | ⟨now, id, heq⟩ | ⟨id, hid, heq | heq⟩ :=
      GossipNode.table_step hg
    · rw [NodeSys.table, heq]
      rfl
    · rw [NodeSys.table, heq, MembershipTable.info_localEntry_merge]
      rfl
    · rw [NodeSys.table, heq, MembershipTable.info_localEntry_touch]
      rfl
    · rw [NodeSys.table, heq, MembershipTable.localEntry_markSuspect hid]
      rfl
    · rw [NodeSys.table, heq, MembershipTable.localEntry_markDead hid]
      rfl
  · rw [heq, MembershipTable.localEntry_markSelfAlive]

/-! ## Where addresses come from -/

theorem parse_of_observed {X : Crates} {m : ProtoMemberEntry} {id : NodeId}
    {status : MemberStatus} (h : observed X m = some (id, status)) :
    X.parse m.nodeId = some id := by
  rw [observed] at h
  split at h
  · rename_i hid _
    cases h
    exact hid
  · cases h

namespace Cluster

section Sources

variable {X : Crates} {monitored : List NodeId} {A : String → Prop} {s t : Cluster}
  {e : ClusterEvent}

/-- A made-up id has an address from a seed list, which `A` holds of; a
node's own id has none. -/
def Source (A : String → Prop) (s : Cluster) (info : NodeInfo) : Prop :=
  (info.id ∈ s.seeded ∧ A info.addr) ∨ ((s.nodes info.id).isSome ∧ info.addr = "")

/-- The seed addresses of a starting node satisfy `A`. -/
def SeedAddrs (A : String → Prop) (_ : Cluster) (e : ClusterEvent) : Prop :=
  ∀ now id seeds, e = .start now id seeds → ∀ info ∈ seeds, A info.addr

/-- Every address in the system, in a table, on the wire or at the
router, has its source. -/
structure Sources (X : Crates) (A : String → Prop) (s : Cluster) : Prop where
  seeded : ∀ j ∈ s.seeded, s.nodes j = none
  own : ∀ id n, s.nodes id = some n → n.table.localEntry.info.addr = ""
  view : s.View X fun _ e => s.Source A e.info
  router : s.router.Told X fun info _ => s.Source A info

theorem Source.move (hmove : Move X monitored s e t) {info : NodeInfo} (h : s.Source A info) :
    t.Source A info := by
  obtain ⟨hseeded, hA⟩ | ⟨hsome, haddr⟩ := h
  · exact .inl ⟨hmove.mem_seeded hseeded, hA⟩
  · exact .inr ⟨hmove.isSome_nodes hsome, haddr⟩

theorem wireRule_source (A : String → Prop) (s : Cluster) :
    WireRule fun _ e => s.Source A e.info where
  touch _ _ _ h := h
  suspect _ _ _ h := h
  dead _ _ _ h := h
  wire _ _ h := h

theorem Sources.own_move (h : s.Sources X A) (hfresh : s.FreshIds e)
    (hmove : Move X monitored s e t) :
    ∀ id n, t.nodes id = some n → n.table.localEntry.info.addr = "" := by
  cases hmove with
  | @start now id seeds hfree =>
      refine forall_nodes_update h.own ?_
      have hid : id ∉ seeds.map (·.id) := fun hmem => (hfresh.2 id hmem).1 rfl
      show (MembershipTable.new now id seeds).localEntry.info.addr = ""
      rw [MembershipTable.info_localEntry_new now hid]
  | @node id e n n' hn hears hmove =>
      refine forall_nodes_update h.own ?_
      rw [hmove.info_localEntry]
      exact h.own id n hn
  | send now hn hlist => exact h.own
  | router hobs hstep => exact h.own

/-- A node's entry for itself has its source. -/
theorem Sources.localEntry (h : s.Sources X A) {id : NodeId} {n : NodeSys}
    (hn : s.nodes id = some n) : s.Source A n.table.localEntry.info := by
  right
  rw [n.table.keyed _ _ n.table.lookup_localId, h.view.localIds id n hn, hn]
  exact ⟨rfl, h.own id n hn⟩

theorem Sources.view_move (h : s.Sources X A) (hseeds : s.SeedAddrs A e)
    (hmove : Move X monitored s e t) : t.View X fun _ e => t.Source A e.info := by
  have hold : s.View X fun _ e => t.Source A e.info := h.view.mono fun _ _ he => he.move hmove
  have hown : ∀ id n, s.nodes id = some n → t.Source A n.table.localEntry.info :=
    fun id n hn => (h.localEntry hn).move hmove
  -- the rule for views says nothing of a seed's address, so a start is apart
  cases e with
  | start now id seeds =>
      cases hmove with
      | start now seeds hfree =>
          refine ⟨forall_nodes_update hold.localIds (MembershipTable.localId_new now id seeds),
            forall_nodes_update hold.others ?_, hold.net⟩
          intro j entry hj hlook
          have hkey := (NodeSys.start now id seeds).table.keyed j entry hlook
          obtain ⟨_, _, hmem⟩ := NodeSys.others_start now id seeds j entry hj hlook
          have hinfo : entry.info ∈ seeds := by
            apply MembershipTable.info_new hlook
            rwa [NodeSys.start, NodeSys.table, MembershipTable.localId_new] at hj
          left
          rw [hkey]
          exact ⟨List.mem_append_left _ hmem, hseeds now id seeds rfl _ hinfo⟩
  | _ => exact hold.move (wireRule_source A t) hmove (by simp) hown

/-- What the router observes has its source. -/
theorem Sources.router_move (h : s.Sources X A) (hmove : Move X monitored s e t) :
    t.router.Told X fun info _ => t.Source A info := by
  have hold : s.router.Told X fun info _ => t.Source A info :=
    h.router.mono fun _ _ hinfo => hinfo.move hmove
  cases hmove with
  | start now seeds hfree => exact hold
  | node hn hears hmove => exact hold
  | send now hn hlist => exact hold
  | router hobs hstep =>
      refine hold.step ?_ hstep
      intro members he m hm id status hobserved
      subst he
      obtain ⟨msg, hmsg, rfl⟩ := List.mem_map.mp hobs
      obtain ⟨entry, hparse, _, _, haddr, hsource⟩ := (h.view.net msg hmsg).member hm
      rw [parse_of_observed hobserved] at hparse
      rw [haddr, Option.some.inj hparse]
      exact hsource

theorem Sources.move (h : s.Sources X A) (hfresh : s.FreshIds e) (hseeds : s.SeedAddrs A e)
    (hmove : Move X monitored s e t) : t.Sources X A where
  seeded := hmove.seeded_none hfresh h.seeded
  own := h.own_move hfresh hmove
  view := h.view_move hseeds hmove
  router := h.router_move hmove

theorem sources_boot (X : Crates) (A : String → Prop) (config : List NodeInfo) :
    (boot X config).Sources X A where
  seeded j hj := by cases hj
  own id n hn := by cases hn
  view := view_init X _ _
  router := ⟨by simp [boot, init, RouterSys.start], by simp [boot, init, RouterSys.start]⟩

/-- What the client adds for a node's own id is at no address. -/
theorem Sources.adds_own (h : s.Sources X A) {info : NodeInfo} (hadds : s.Adds e info)
    (hown : (s.nodes info.id).isSome) : info.addr = "" := by
  obtain ⟨hseeded, _⟩ | ⟨_, haddr⟩ := h.router.current info hadds.2.mem_current
  · rw [h.seeded _ hseeded] at hown
    cases hown
  · exact haddr

/-- What it adds for another id is at a seed address. -/
theorem Sources.adds_seeded (h : s.Sources X A) {info : NodeInfo} (hadds : s.Adds e info)
    (hnone : s.nodes info.id = none) : A info.addr := by
  obtain ⟨_, hA⟩ | ⟨hsome, _⟩ := h.router.current info hadds.2.mem_current
  · exact hA
  · rw [hnone] at hsome
    cases hsome

end Sources

end Cluster

/-! ## The client pool -/

section Pool

variable {Endpoint Client Error : Type}

/-- `Channel::from_shared` takes the URI of this address. -/
def Accepted (fromShared : String → Option Endpoint) (addr : String) : Prop :=
  (fromShared ("http://" ++ addr)).isSome

/-- The clients connected so far. A client is cached only under an
address that `from_shared` has taken. -/
structure NodeClientPool (fromShared : String → Option Endpoint) (Client : Type) where
  clients : Assoc String Client
  accepted : ∀ addr ∈ clients, Accepted fromShared addr

namespace NodeClientPool

variable {fromShared : String → Option Endpoint}

def new : NodeClientPool fromShared Client := ⟨∅, by simp⟩

def insert (pool : NodeClientPool fromShared Client) {addr : String}
    (h : Accepted fromShared addr) (client : Client) : NodeClientPool fromShared Client where
  clients := pool.clients.insert addr client
  accepted := by
    intro a ha
    rcases (AList.mem_insert _).mp ha with rfl | hcached
    · exact h
    · exact pool.accepted a hcached

/-- `none` is the panic of `expect("invalid address")`. `connect` is what
connecting comes to this time. -/
def getClient (connect : Endpoint → Except Error Client) (pool : NodeClientPool fromShared Client)
    (addr : String) : Option (Except Error Client × NodeClientPool fromShared Client) :=
  match pool.clients.lookup addr with
  | some client => some (.ok client, pool)
  | none =>
      match h : fromShared ("http://" ++ addr) with
      -- `expect("invalid address")`
      | none => none
      | some channel =>
          match connect channel with
          | .error e => some (.error e, pool)
          | .ok client =>
              some (.ok client, pool.insert (Option.isSome_of_eq_some h) client)

/-- `get_client` panics exactly on an address that `from_shared` rejects,
whatever is cached. -/
theorem getClient_eq_none_iff (connect : Endpoint → Except Error Client)
    (pool : NodeClientPool fromShared Client) (addr : String) :
    pool.getClient connect addr = none ↔ ¬ Accepted fromShared addr := by
  rw [getClient]
  cases hlook : pool.clients.lookup addr with
  | some client =>
      -- what is cached was accepted once
      have hcached := pool.accepted addr (AList.lookup_isSome.mp (by rw [hlook]; rfl))
      simp [hcached]
  | none =>
      dsimp only
      split
      · rename_i hrejected
        simp [Accepted, hrejected]
      · rename_i channel haccepted
        have htaken : Accepted fromShared addr := by
          rw [Accepted, haccepted]
          rfl
        split <;> simp [htaken]

end NodeClientPool

end Pool

/-! ## Usable addresses -/

/-- The address a node listens on. `main` serves nothing unless it parses,
and the empty text does not. -/
structure ListenAddr where
  text : String
  nonempty : text ≠ ""

namespace Cluster

/-- What `exchange_gossip` adds for a node's own id is at the address the
node listens on. -/
def AddsListening (listen : NodeId → ListenAddr) (s : Cluster) (e : ClusterEvent) : Prop :=
  ∀ info, s.Adds e info → (s.nodes info.id).isSome → info.addr = (listen info.id).text

/-- It adds no node's own id. -/
def AddsNoNode (s : Cluster) (e : ClusterEvent) : Prop :=
  ∀ info, s.Adds e info → s.nodes info.id = none

section Usable

variable {Endpoint Client Error : Type}

/-- What `exchange_gossip` adds for a node's own id has the empty address,
and `get_client` panics on it. -/
def AddsPanicking (fromShared : String → Option Endpoint) (Client Error : Type) (s : Cluster)
    (e : ClusterEvent) : Prop :=
  ∀ info, s.Adds e info → (s.nodes info.id).isSome → info.addr = ""
    ∧ ∀ (connect : Endpoint → Except Error Client) (pool : NodeClientPool fromShared Client),
      pool.getClient connect info.addr = none

/-- `get_client` panics for no node of any preference list. -/
def Connectable (X : Crates) (fromShared : String → Option Endpoint) (Client Error : Type)
    (s : Cluster) : Prop :=
  ∀ key n, ∀ m ∈ s.ring.getPreferenceList X key n,
    ∀ (connect : Endpoint → Except Error Client) (pool : NodeClientPool fromShared Client),
      pool.getClient connect m.addr ≠ none

variable {X : Crates} {monitored : List NodeId} {fromShared : String → Option Endpoint}
  {s t : Cluster} {e : ClusterEvent}

/-- Members of the ring are at addresses that satisfy `A`, as long as only
made-up ids join them. -/
theorem Sources.ring_step {A : String → Prop} (h : s.Sources X A)
    (hring : ∀ info ∈ s.ring.nodes, A info.addr) (hno : s.AddsNoNode e)
    (hstep : s.step X monitored e = some t) : ∀ info ∈ t.ring.nodes, A info.addr := by
  obtain hsame | ⟨added, hadds, hadded⟩ | ⟨id, hremoved⟩ := Cluster.ring_step hstep
  · rw [hsame]
    exact hring
  · intro info hinfo
    rw [hadded, HashRing.addNode, List.mem_append, List.mem_singleton] at hinfo
    rcases hinfo with hold | rfl
    · exact hring info hold
    · exact h.adds_seeded hadds (hno info hadds)
  · intro info hinfo
    rw [hremoved, HashRing.removeNode] at hinfo
    exact hring info (List.mem_filter.mp hinfo).1

theorem connectable_of_accepted (h : ∀ info ∈ s.ring.nodes, Accepted fromShared info.addr) :
    s.Connectable X fromShared Client Error := by
  intro key n m hm connect pool hpanic
  rw [HashRing.getPreferenceList_eq] at hm
  rw [NodeClientPool.getClient_eq_none_iff] at hpanic
  exact hpanic (h m (HashRing.mem_nodes_of_mem_prefOrder (List.mem_of_mem_take hm)))

/-- An own id never comes with the address its node listens on. -/
theorem Sources.addsListening_iff {A : String → Prop} (h : s.Sources X A)
    (listen : NodeId → ListenAddr) : s.AddsListening listen e ↔ s.AddsNoNode e := by
  constructor
  · intro hlisten info hadds
    by_contra hsome
    have hown : (s.nodes info.id).isSome := Option.isSome_iff_ne_none.mpr hsome
    apply (listen info.id).nonempty
    rw [← hlisten info hadds hown]
    exact h.adds_own hadds hown
  · intro hno info hadds hown
    rw [hno info hadds] at hown
    cases hown

/-- **Addresses learnt by gossip.** In every run of nodes started as
`main` does: what `exchange_gossip` adds for a node's own id has the empty
address, on which `get_client` panics whatever it has cached; so the
address added is the one the node listens on exactly as long as no node's
own id is added. As long as none is, and the configuration and the seed
lists hold addresses that `from_shared` takes, `get_client` panics for no
node of any preference list. -/
theorem own_addresses_usable (X : Crates) (monitored : List NodeId)
    (fromShared : String → Option Endpoint) (hempty : fromShared "http://" = none)
    (listen : NodeId → ListenAddr) (config : List NodeInfo) {es : List ClusterEvent}
    (hfresh : Trace.Along (step X monitored) FreshIds (boot X config) es) :
    Trace.Along (step X monitored) (AddsPanicking fromShared Client Error) (boot X config) es
    ∧ (Trace.Along (step X monitored) (AddsListening listen) (boot X config) es
      ↔ Trace.Along (step X monitored) AddsNoNode (boot X config) es)
    ∧ ((∀ info ∈ config, Accepted fromShared info.addr) →
      Trace.Along (step X monitored) (SeedAddrs (Accepted fromShared)) (boot X config) es →
      Trace.Along (step X monitored) AddsNoNode (boot X config) es →
      Trace.Throughout (step X monitored) (Connectable X fromShared Client Error)
        (boot X config) es) := by
  have hany : ∀ s e, SeedAddrs (fun _ => True) s e := fun _ _ _ _ _ _ _ _ => trivial
  refine ⟨?_, ?_, ?_⟩
  -- where the seed addresses do not matter, they satisfy `True`
  · have hsources := Trace.throughout_of_along (I := Sources X fun _ => True)
      (fun s e t hs hf hstep => hs.move hf (hany s e) (move_of_step hstep))
      (sources_boot X _ config) hfresh
    refine (Trace.along_of_throughout hsources).mono fun s e hs info hadds hown => ?_
    have haddr := hs.adds_own hadds hown
    refine ⟨haddr, fun connect pool => ?_⟩
    rw [NodeClientPool.getClient_eq_none_iff, haddr, Accepted, String.append_empty, hempty]
    exact Bool.false_ne_true
  · apply Trace.along_iff_along (I := Sources X fun _ => True) (H := FreshIds)
    · intro s e t hs _ _
      exact hs.addsListening_iff listen
    · intro s e t hs hf _ hstep
      exact hs.move hf (hany s e) (move_of_step hstep)
    · exact sources_boot X _ config
    · exact hfresh
  · intro hconfig hseeds hno
    have hinv := Trace.throughout_of_along
      (I := fun s => s.Sources X (Accepted fromShared)
        ∧ ∀ info ∈ s.ring.nodes, Accepted fromShared info.addr)
      (fun s e t hs hC hstep => ⟨hs.1.move hC.1 hC.2.1 (move_of_step hstep),
        hs.1.ring_step hs.2 hC.2.2 hstep⟩)
      ⟨sources_boot X _ config, by rw [nodes_boot]; exact hconfig⟩
      (hfresh.and (hseeds.and hno))
    exact hinv.mono fun s hs => connectable_of_accepted hs.2

end Usable

/-- A URI needs an authority. -/
def takesAuthority (uri : String) : Option String :=
  if uri = "http://" then none else some uri

/-- Node 1 listens on the first address, node 2 on the second. -/
def twoHosts (id : NodeId) : ListenAddr :=
  if id = ⟨1⟩ then ⟨"10.0.0.1:5001", by decide⟩ else ⟨"10.0.0.2:5001", by decide⟩

/-- The router knows node 2 from its configuration, and gossip adds
nothing. -/
theorem own_addresses_usable_heardRun :
    ∃ s, Trace.exec (step (.hyphenated digitHash) [⟨1⟩])
        (boot (.hyphenated digitHash) [⟨⟨2⟩, "10.0.0.2:5001"⟩]) heardRun = some s
      ∧ (s.nodes ⟨2⟩).isSome
      ∧ s.Connectable (.hyphenated digitHash) takesAuthority Unit Unit := by
  obtain ⟨s, hrun, htwo⟩ : ∃ s, Trace.exec (step (.hyphenated digitHash) [⟨1⟩])
        (boot (.hyphenated digitHash) [⟨⟨2⟩, "10.0.0.2:5001"⟩]) heardRun = some s
      ∧ (s.nodes ⟨2⟩).isSome := ⟨_, rfl, rfl⟩
  have hfresh : Trace.Along (step (.hyphenated digitHash) [⟨1⟩]) FreshIds
      (boot (.hyphenated digitHash) [⟨⟨2⟩, "10.0.0.2:5001"⟩]) heardRun :=
    Trace.along_of_step rfl ⟨by simp [boot, init], by simp⟩ (along_freshIds_of_started (by simp) _)
  obtain ⟨_, _, hall⟩ := own_addresses_usable (.hyphenated digitHash) [⟨1⟩] takesAuthority rfl
    twoHosts [⟨⟨2⟩, "10.0.0.2:5001"⟩] hfresh
  refine ⟨s, hrun, htwo,
    Trace.throughout_iff_prefix.mp (hall ?_ ?_ ?_) _ List.prefix_rfl s hrun⟩
  · intro info hinfo
    rw [List.mem_singleton.mp hinfo]
    rfl
  · refine Trace.along_of_forall ?_ _
    intro e he now id seeds heq
    subst heq
    simp [heardRun] at he
    simp [he]
  · refine along_heardRun (P := fun s info => s.nodes info.id = none) ?_
    intro s hnodes hnew
    rw [HashRing.containsNode, hnodes] at hnew
    cases hnew

/-- The router has put node 2 on its ring at no address, and `get_client`
panics on the list of all its nodes. -/
theorem own_address_unusable_learntRun :
    Trace.Along (step (.hyphenated digitHash) [⟨1⟩]) FreshIds
        (boot (.hyphenated digitHash) [⟨⟨1⟩, "10.0.0.1:5001"⟩]) learntRun
      ∧ ¬ Trace.Along (step (.hyphenated digitHash) [⟨1⟩]) (AddsListening twoHosts)
        (boot (.hyphenated digitHash) [⟨⟨1⟩, "10.0.0.1:5001"⟩]) learntRun
      ∧ ¬ Trace.Throughout (step (.hyphenated digitHash) [⟨1⟩])
        (Connectable (.hyphenated digitHash) takesAuthority Unit Unit)
        (boot (.hyphenated digitHash) [⟨⟨1⟩, "10.0.0.1:5001"⟩]) learntRun := by
  refine ⟨freshIds_learntRun, fun hall => ?_, fun hall => ?_⟩
  · obtain ⟨s, t, hrun, hstep, hadds, hown⟩ :
        ∃ s t, Trace.exec (step (.hyphenated digitHash) [⟨1⟩])
            (boot (.hyphenated digitHash) [⟨⟨1⟩, "10.0.0.1:5001"⟩]) (learntRun.take 8) = some s
          ∧ s.step (.hyphenated digitHash) [⟨1⟩] (.router .nextUpdate) = some t
          ∧ s.Adds (.router .nextUpdate) ⟨⟨2⟩, ""⟩ ∧ (s.nodes ⟨2⟩).isSome :=
      ⟨_, _, rfl, rfl, ⟨rfl, _, rfl, rfl⟩, rfl⟩
    have hadded := Trace.Along.at (learntRun.take 8) hall hrun hstep ⟨⟨2⟩, ""⟩ hadds hown
    exact (twoHosts ⟨2⟩).nonempty hadded.symm
  · obtain ⟨s, hrun, hring⟩ := exec_learntRun
    obtain ⟨hsettled, hnodes⟩ := settled_learntRun hring
    have hlist := hsettled.getPreferenceList_perm (by decide) ""
    have hmem : ⟨⟨2⟩, ""⟩ ∈ s.ring.getPreferenceList (.hyphenated digitHash) ""
        s.ring.nodes.length := by
      rw [hlist.mem_iff, hnodes]
      simp
    apply Trace.throughout_iff_prefix.mp hall _ List.prefix_rfl s hrun "" _ _ hmem
      (fun _ => .error ()) .new
    rw [NodeClientPool.getClient_eq_none_iff]
    exact Bool.false_ne_true

end Cluster

end SelfHealingCache
