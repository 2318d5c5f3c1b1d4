import SelfHealingCache.Lib.Transducer
import SelfHealingCache.Node.RespRoundTrip
import SelfHealingCache.Node.RespServer

/-!
# A session over the wire

From the bytes a client sends to the bytes it gets back. A client that
encodes its commands with the encoder of `crates/node/src/resp` may send
any number of them without waiting for replies, and TCP may cut the
stream anywhere: the connection answers each of them once and in order
(`handleConnection_pipeline`).

Over that, a session of `SET`, `GET`, `DEL` and `EXISTS` is a session
with one key-value map (`session_refines_map`). Keys are texts, values
are any bytes.
-/

namespace SelfHealingCache

/-! ## Pipelining -/

section Pipeline

variable {σ : Type*} (handle : σ → RespValue → Option (Bytes × σ))

/-- The values handed to the handler one after the other. -/
def dispatches : σ → List RespValue → List ConnEvent
  | _, [] => []
  | st, value :: values =>
      match handle st value with
      | none => [.dispatch value none]
      | some (response, st') => .dispatch value (some response) :: dispatches st' values

theorem dispatches_clean (st : σ) (values : List RespValue) (e : String) :
    .protocolError e ∉ dispatches handle st values := by
  induction values generalizing st with
  | nil => simp [dispatches]
  | cons value values ih =>
      rw [dispatches]
      cases handle st value with
      | none => simp
      | some out => simp [ih out.2]

/-- The inner loop takes the values off a buffer that holds them all, of
whatever length it is. -/
theorem drains_encoded (st : σ) (values : List RespValue) (hclean : CleanItems values)
    (hlen : ∀ value ∈ values, (encodeItem value).length < 2 ^ 58) :
    ∃ next, Drains handle st (values.flatMap encodeItem) (dispatches handle st values) next := by
  induction values generalizing st with
  | nil => exact ⟨some (st, []), .wait rfl⟩
  | cons value values ih =>
      obtain ⟨hvalue, hrest⟩ := hclean
      have halone := readsAs_encodeItem value hvalue []
        (by rw [List.append_nil]; exact hlen value List.mem_cons_self)
      rw [List.append_nil] at halone
      have hparse := parseResp_append_eq halone (by simp) (values.flatMap encodeItem)
      rw [List.flatMap_cons, dispatches]
      cases hcall : handle st value with
      | none => exact ⟨none, .crash hparse hcall⟩
      | some out =>
          obtain ⟨next, hnext⟩ := ih out.2 hrest fun v hv => hlen v (List.mem_cons_of_mem _ hv)
          refine ⟨next, .take hparse hcall ?_⟩
          rw [List.drop_left]
          exact hnext

/-- **Pipelining.** However the encoded values are cut into reads, they
are handed to the handler once each and in order. -/
theorem handleConnection_pipeline (st : σ) (values : List RespValue)
    (hclean : CleanItems values) {reads : List Bytes} (hreads : ∀ read ∈ reads, read ≠ [])
    (hstream : reads.flatten = values.flatMap encodeItem)
    (hlen : ∀ value ∈ values, (encodeItem value).length < 2 ^ 58) :
    handleConnection handle st reads = dispatches handle st values := by
  obtain ⟨next, hdrains⟩ := drains_encoded handle st values hclean hlen
  have hkept : upToError (handleConnection handle st reads) = dispatches handle st values := by
    rw [handleConnection, upToError_serve rfl hreads, List.nil_append, hstream, hdrains.eq]
  rw [← hkept]
  refine (upToError_of_clean fun e => ?_).symm
  rw [hkept]
  exact dispatches_clean handle st values e

end Pipeline

/-! ## Sessions with a map -/

inductive MapCommand where
  | set (key : String) (value : Bytes)
  | get (key : String)
  /-- At least one key. -/
  | del (key : String) (keys : List String)
  | exists (key : String)

namespace MapCommand

/-- The command as a client sends it. -/
def request : MapCommand → RespValue
  | .set key value =>
      .array [.bulkString (bytesOf "SET"), .bulkString (bytesOf key), .bulkString value]
  | .get key => .array [.bulkString (bytesOf "GET"), .bulkString (bytesOf key)]
  | .del key keys =>
      .array (.bulkString (bytesOf "DEL") :: (key :: keys).map fun k => .bulkString (bytesOf k))
  | .exists key => .array [.bulkString (bytesOf "EXISTS"), .bulkString (bytesOf key)]

theorem cleanItems_bulkStrings (texts : List String) :
    CleanItems (texts.map fun k => .bulkString (bytesOf k)) := by
  induction texts with
  | nil => trivial
  | cons text texts ih => exact ⟨trivial, ih⟩

theorem clean_request (c : MapCommand) : c.request.Clean := by
  cases c with
  | set key value => exact ⟨trivial, trivial, trivial, trivial⟩
  | get key => exact ⟨trivial, trivial, trivial⟩
  | del key keys => exact ⟨trivial, cleanItems_bulkStrings (key :: keys)⟩
  | «exists» key => exact ⟨trivial, trivial, trivial⟩

theorem cleanItems_requests (commands : List MapCommand) :
    CleanItems (commands.map request) := by
  induction commands with
  | nil => trivial
  | cons c commands ih => exact ⟨c.clean_request, ih⟩

/-- How many of the keys are there, counted while they are taken out. -/
def eraseKeys : List String → Nat → (String → Option Bytes) → Nat × (String → Option Bytes)
  | [], erased, m => (erased, m)
  | key :: keys, erased, m =>
      eraseKeys keys (if (m key).isSome then erased + 1 else erased) (Function.update m key none)

/-- The command on a map, and the reply on the wire. -/
def onMap (m : String → Option Bytes) : MapCommand → Bytes × (String → Option Bytes)
  | .set key value => (encodeSimpleString "OK", Function.update m key (some value))
  | .get key =>
      ((m key).elim encodeNull encodeBulkString, m)
  | .del key keys =>
      let out := eraseKeys (key :: keys) 0 m
      (encodeInteger out.1, out.2)
  | .exists key => (encodeInteger (if (m key).isSome then 1 else 0), m)

end MapCommand

/-! ## The connection as a map -/

/-- The handler of a connection: the store, and the number of commands so
far; the `n`-th command reads the clock `clock n`. -/
def sessionHandler (clock : Nat → Nat → Instant) (st : CacheStore × Nat) (value : RespValue) :
    Option (Bytes × CacheStore × Nat) :=
  let out := handleCommand value st.1 (clock st.2)
  some (out.1, out.2, st.2 + 1)

/-- One command of the session. -/
def sessionStep (clock : Nat → Nat → Instant) (st : CacheStore × Nat) (c : MapCommand) :
    Bytes × CacheStore × Nat :=
  let out := handleCommand c.request st.1 (clock st.2)
  (out.1, out.2, st.2 + 1)

/-- The store holds the map, and nothing in it expires. -/
def HoldsMap (store : CacheStore) (m : String → Option Bytes) : Prop :=
  ∀ k, store.data.lookup k = (m k).map (⟨·, none⟩)

section Session

variable {store : CacheStore} {m : String → Option Bytes}

theorem HoldsMap.get_fst (h : HoldsMap store m) (now : Instant) (key : String) :
    (store.get now key).1 = m key := by
  rw [CacheStore.get_fst, h key]
  cases m key with
  | none => rfl
  | some v => simp [CacheEntry.live, Option.filter]

theorem HoldsMap.get_snd (h : HoldsMap store m) (now : Instant) (key : String) :
    HoldsMap (store.get now key).2 m := by
  intro k
  rw [CacheStore.lookup_get, h k]
  split_ifs
  · cases m k with
    | none => rfl
    | some v => simp [CacheEntry.live, Option.filter]
  · rfl

theorem HoldsMap.set (h : HoldsMap store m) (now : Instant) (key : String) (value : Bytes) :
    HoldsMap (store.set now key value none) (Function.update m key (some value)) := by
  intro k
  rw [CacheStore.lookup_set, Function.update_apply]
  split_ifs
  · rfl
  · exact h k

theorem HoldsMap.delete (h : HoldsMap store m) (key : String) :
    HoldsMap (store.delete key).2 (Function.update m key none) := by
  intro k
  rw [CacheStore.lookup_delete, Function.update_apply]
  split_ifs
  · rfl
  · exact h k

theorem HoldsMap.delete_fst (h : HoldsMap store m) (key : String) :
    (store.delete key).1 = (m key).isSome := by
  rw [CacheStore.delete, h key, Option.isSome_map]

theorem HoldsMap.deleteKeys (h : HoldsMap store m) (keys : List String) (n : Nat) :
    (deleteKeys keys n store).1 = (MapCommand.eraseKeys keys n m).1
    ∧ HoldsMap (deleteKeys keys n store).2 (MapCommand.eraseKeys keys n m).2 := by
  induction keys generalizing n store m with
  | nil => exact ⟨rfl, h⟩
  | cons key keys ih =>
      rw [SelfHealingCache.deleteKeys, MapCommand.eraseKeys, h.delete_fst]
      exact ih (h.delete key) _

theorem extractStr_keys (keys : List String) :
    (keys.map fun k => RespValue.bulkString (bytesOf k)).filterMap extractStr = keys := by
  induction keys with
  | nil => rfl
  | cons key keys ih => rw [List.map_cons, List.filterMap_cons, extractStr_bytesOf, ih]

/-- **One command** on the store and on the map. -/
theorem HoldsMap.command (h : HoldsMap store m) (clock : Nat → Instant) (c : MapCommand) :
    (handleCommand c.request store clock).1 = (c.onMap m).1
    ∧ HoldsMap (handleCommand c.request store clock).2 (c.onMap m).2 := by
  cases c with
  | set key value =>
      have hname : toUppercase "SET" = "SET" := by decide
      have hparse : parseSet [.bulkString (bytesOf "SET"), .bulkString (bytesOf key),
          .bulkString value] = .ok (key, value, none) := by
        simp only [parseSet, extractStr_bytesOf, extractBytes, setOptions]
      simp only [MapCommand.request, handleCommand, extractStr_bytesOf, hname, cmdSet, hparse,
        MapCommand.onMap]
      exact ⟨trivial, h.set (clock 0) key value⟩
  | get key =>
      have hname : toUppercase "GET" = "GET" := by decide
      have hparse : parseKey "get" [.bulkString (bytesOf "GET"), .bulkString (bytesOf key)]
          = .ok key := by
        simp only [parseKey, extractStr_bytesOf]
      simp only [MapCommand.request, handleCommand, extractStr_bytesOf, hname, cmdGet, hparse,
        MapCommand.onMap, h.get_fst]
      cases m key with
      | none => exact ⟨rfl, h.get_snd (clock 0) key⟩
      | some v => exact ⟨rfl, h.get_snd (clock 0) key⟩
  | del key keys =>
      have hname : toUppercase "DEL" = "DEL" := by decide
      have hparse : parseDel (.bulkString (bytesOf "DEL")
          :: (key :: keys).map fun k => .bulkString (bytesOf k)) = .ok (key :: keys) := by
        show Except.ok (((key :: keys).map fun k =>
          RespValue.bulkString (bytesOf k)).filterMap extractStr) = _
        rw [extractStr_keys]
      obtain ⟨hcount, hleft⟩ := h.deleteKeys (key :: keys) 0
      simp only [MapCommand.request, handleCommand, extractStr_bytesOf, hname, cmdDel, hparse,
        MapCommand.onMap, hcount]
      exact ⟨trivial, hleft⟩
  | «exists» key =>
      have hname : toUppercase "EXISTS" = "EXISTS" := by decide
      have hparse : parseKey "exists" [.bulkString (bytesOf "EXISTS"), .bulkString (bytesOf key)]
          = .ok key := by
        simp only [parseKey, extractStr_bytesOf]
      simp only [MapCommand.request, handleCommand, extractStr_bytesOf, hname, cmdExists, hparse,
        CacheStore.containsKey, MapCommand.onMap, h.get_fst]
      exact ⟨trivial, h.get_snd (clock 0) key⟩

end Session

theorem session_simulates (clock : Nat → Nat → Instant) :
    Transducer.Simulates (fun (st : CacheStore × Nat) m => HoldsMap st.1 m) (fun _ => True)
      (sessionStep clock) MapCommand.onMap :=
  fun st _ c h _ => h.command (clock st.2) c

/-- The dispatches of a session are its steps. -/
theorem dispatches_session (clock : Nat → Nat → Instant) (st : CacheStore × Nat)
    (commands : List MapCommand) :
    dispatches (sessionHandler clock) st (commands.map MapCommand.request)
      = (commands.zip (Transducer.outputs (sessionStep clock) st commands)).map
          fun p => .dispatch p.1.request (some p.2) := by
  induction commands generalizing st with
  | nil => rfl
  | cons c commands ih =>
      rw [List.map_cons, dispatches, Transducer.outputs, List.zip_cons_cons, List.map_cons]
      exact congrArg (ConnEvent.dispatch c.request _ :: ·) (ih _)

/-- **A session is a session with a map.** Whatever commands a client
sends without waiting, each shorter than 2^58 bytes, however the stream is
cut, and whatever the clock says: on a fresh store the replies are those
of one key-value map, in order, byte for byte. -/
theorem session_refines_map (clock : Nat → Nat → Instant) (commands : List MapCommand)
    {reads : List Bytes} (hreads : ∀ read ∈ reads, read ≠ [])
    (hstream : reads.flatten = (commands.map MapCommand.request).flatMap encodeItem)
    (hlen : ∀ c ∈ commands, (encodeItem c.request).length < 2 ^ 58) :
    handleConnection (sessionHandler clock) (.new, 0) reads
      = (commands.zip (Transducer.outputs MapCommand.onMap (fun _ => none) commands)).map
          fun p => .dispatch p.1.request (some p.2) := by
  have hempty : HoldsMap CacheStore.new fun _ => none := fun _ => rfl
  rw [handleConnection_pipeline _ _ _ (MapCommand.cleanItems_requests commands) hreads hstream
    (by simpa using hlen), dispatches_session,
    (session_simulates clock).outputs_eq hempty fun _ _ => trivial]

/-- A value with a line ending in it, read back; the second read ends in
the middle of a command. -/
def storeAndLoad : List MapCommand :=
  [.set "k" [13, 10], .get "k", .del "k" ["other"], .get "k"]

theorem session_refines_map_storeAndLoad :
    handleConnection (sessionHandler fun _ _ => 0) (.new, 0)
        [((storeAndLoad.map MapCommand.request).flatMap encodeItem).take 3,
          ((storeAndLoad.map MapCommand.request).flatMap encodeItem).drop 3]
      = [.dispatch (MapCommand.set "k" [13, 10]).request (some (encodeSimpleString "OK")),
          .dispatch (MapCommand.get "k").request (some (encodeBulkString [13, 10])),
          .dispatch (MapCommand.del "k" ["other"]).request (some (encodeInteger 1)),
          .dispatch (MapCommand.get "k").request (some encodeNull)] := by
  have hlen : ((storeAndLoad.map MapCommand.request).flatMap encodeItem).length = 99 := by
    simp only [storeAndLoad, List.map_cons, List.map_nil, MapCommand.request, List.flatMap_cons,
      List.flatMap_nil, encodeItem, encodeItems, encodeCount_eq, encodeBulkString_eq]
    decide +kernel
  rw [session_refines_map (fun _ _ => 0) storeAndLoad]
  · rfl
  · intro read hread
    simp only [List.mem_cons, List.not_mem_nil, or_false] at hread
    rcases hread with rfl | rfl
    · intro hnil
      have hshort := congrArg List.length hnil
      rw [List.length_take, hlen] at hshort
      simp at hshort
    · intro hnil
      have hshort := congrArg List.length hnil
      rw [List.length_drop, hlen] at hshort
      simp at hshort
  · simp
  · -- each of them is part of the whole
    intro c hc
    have hsub : (encodeItem c.request).Sublist
        ((storeAndLoad.map MapCommand.request).flatMap encodeItem) :=
      List.sublist_flatten_of_mem (List.mem_map_of_mem (List.mem_map_of_mem hc))
    exact (hsub.length_le.trans_eq hlen).trans_lt (by decide)

end SelfHealingCache
