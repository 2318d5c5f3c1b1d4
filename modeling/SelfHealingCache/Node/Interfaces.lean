import SelfHealingCache.Node.RespRoundTrip
import SelfHealingCache.Node.RespServer
import SelfHealingCache.Node.Service

/-!
# One store, two interfaces

`main.rs` hands the same store to the gRPC service and to the RESP
server, and the membership table and the tombstones to the former only.
So a write means the same through both as long as the gRPC handler does
not consult what RESP cannot see: while the node is Joining, the handler
refuses writes and records deletes, and RESP does neither.
-/

namespace SelfHealingCache

/-! ## The requests as RESP values -/

/-- `SET key value PX ms`, the number in decimal. -/
def setCommand (key : String) (value : Bytes) (ms : UInt64) : RespValue :=
  .array [.bulkString (bytesOf "SET"), .bulkString (bytesOf key), .bulkString value,
    .bulkString (bytesOf "PX"), .bulkString (bytesOf (toString ms.toNat))]

/-- `DEL key`. -/
def delCommand (key : String) : RespValue :=
  .array [.bulkString (bytesOf "DEL"), .bulkString (bytesOf key)]

/-- The decimal text of a number is read as the number. -/
theorem parseU64_toString (n : UInt64) : parseU64 (toString n.toNat) = some n := by
  have hread : Nat.ofDigitChars 10 (Nat.toDigits 10 n.toNat) 0 = n.toNat :=
    Nat.ofDigitChars_ten_toDigits
  rw [parseU64_eq_some_iff, Nat.toString_eq_repr, Nat.toList_repr]
  nth_rewrite 2 [← hread]
  refine .plain Nat.toDigits_ne_nil ?_ ?_
  · intro c hc
    exact Nat.isDigit_of_mem_toDigits (by decide) (by decide) hc
  · rw [hread]
    exact n.toNat_lt

theorem handleCommand_delCommand (store : CacheStore) (clock : Nat → Instant) (key : String) :
    handleCommand (delCommand key) store clock
      = (encodeInteger (if (store.delete key).1 then 1 else 0), (store.delete key).2) := by
  have hname : toUppercase "DEL" = "DEL" := by decide
  have hparse : parseDel [.bulkString (bytesOf "DEL"), .bulkString (bytesOf key)]
      = .ok [key] := by
    simp only [parseDel, List.filterMap_cons, extractStr_bytesOf, List.filterMap_nil]
  simp only [handleCommand, delCommand, extractStr_bytesOf, hname, cmdDel, hparse, deleteKeys,
    Nat.zero_add]
  split_ifs <;> rfl

/-! ## The answers -/

/-- A command at the RESP port of the node: the store is all it sees. -/
def CacheService.resp (srv : CacheService) (clock : Nat → Instant) (command : RespValue) :
    Bytes × CacheService :=
  let out := handleCommand command srv.store clock
  (out.1, { srv with store := out.2 })

/-- An error reply starts with `-`. -/
def refusedReply (reply : Bytes) : Prop := reply.head? = some 45

/-- The `set` handler answered with a status. -/
def refusedCall (answer : Except Status SetResponse) : Prop := answer.toOption = none

theorem resp_setCommand (srv : CacheService) (clock : Nat → Instant) (key : String)
    (value : Bytes) (ms : UInt64) :
    srv.resp clock (setCommand key value ms)
      = (encodeSimpleString "OK",
        { srv with store := srv.store.set (clock 0) key value (some (fromMillis ms)) }) := by
  have hname : toUppercase "SET" = "SET" := by decide
  have hunit : optionUnit (toUppercase "PX") = some fromMillis := by
    rw [show toUppercase "PX" = "PX" by decide]
    rfl
  have hparse : parseSet [.bulkString (bytesOf "SET"), .bulkString (bytesOf key),
      .bulkString value, .bulkString (bytesOf "PX"),
      .bulkString (bytesOf (toString ms.toNat))] = .ok (key, value, some (fromMillis ms)) := by
    simp only [parseSet, extractStr_bytesOf, extractBytes, setOptions, hunit, Option.bind_some,
      parseU64_toString]
  simp only [CacheService.resp, handleCommand, setCommand, extractStr_bytesOf, hname, cmdSet,
    hparse]

theorem resp_delCommand (srv : CacheService) (clock : Nat → Instant) (key : String) :
    srv.resp clock (delCommand key)
      = (encodeInteger (if (srv.store.delete key).1 then 1 else 0),
        { srv with store := (srv.store.delete key).2 }) := by
  rw [CacheService.resp, handleCommand_delCommand]

theorem not_refusedReply_ok : ¬ refusedReply (encodeSimpleString "OK") := by
  rw [refusedReply, encodeSimpleString_eq]
  decide

/-! ## Agreement -/

section Agreement

variable (srv : CacheService) (clock : Nat → Instant) (key : String)

/-- Both refuse the write, or both accept it and store the same. -/
def SetAgrees (value : Bytes) (ms : UInt64) : Prop :=
  let resp := srv.resp clock (setCommand key value ms)
  let call := srv.set (clock 0) ⟨key, value, some ms⟩
  (refusedReply resp.1 ∧ refusedCall call.1)
    ∨ (¬ refusedReply resp.1 ∧ ¬ refusedCall call.1 ∧ resp.2.store = call.2.store)

/-- The delete leaves the same store and the same tombstones. -/
def DelAgrees : Prop :=
  let resp := srv.resp clock (delCommand key)
  let call := srv.delete key
  resp.2.store = call.2.store ∧ resp.2.tombstones = call.2.tombstones

variable {srv clock key}

theorem setAgrees_iff {value : Bytes} {ms : UInt64} :
    SetAgrees srv clock key value ms ↔ srv.table.isSelfJoining = false := by
  rw [SetAgrees, resp_setCommand, CacheService.set]
  cases hjoin : srv.table.isSelfJoining with
  | true =>
      simp only [if_true]
      constructor
      · -- the RESP port accepts the write, the handler refuses it
        rintro (⟨hrefused, _⟩ | ⟨_, hcall, _⟩)
        · exact absurd hrefused not_refusedReply_ok
        · exact absurd rfl hcall
      · intro hfalse
        cases hfalse
  | false =>
      simp only [Bool.false_eq_true, if_false, iff_true]
      right
      refine ⟨not_refusedReply_ok, ?_, rfl⟩
      intro hrefused
      cases hrefused

theorem delAgrees_iff :
    DelAgrees srv clock key ↔ srv.table.isSelfJoining = false ∨ key ∈ srv.tombstones := by
  rw [DelAgrees, resp_delCommand, CacheService.delete]
  cases hjoin : srv.table.isSelfJoining with
  | true =>
      show (srv.store.delete key).2 = (srv.store.delete key).2
        ∧ srv.tombstones = insert key srv.tombstones ↔ _
      rw [eq_comm (a := srv.tombstones), Finset.insert_eq_self]
      simp
  | false => simp

/-- **The interfaces agree exactly on a node that is not Joining.** On a
joining node the write is always answered differently, and the delete
leaves different tombstones unless the key had one. -/
theorem interfaces_agree_iff (value : Bytes) (ms : UInt64) :
    (SetAgrees srv clock key value ms ∧ DelAgrees srv clock key
      ↔ srv.table.isSelfJoining = false)
    ∧ (DelAgrees srv clock key ↔ srv.table.isSelfJoining = false ∨ key ∈ srv.tombstones) := by
  refine ⟨?_, delAgrees_iff⟩
  rw [setAgrees_iff, delAgrees_iff]
  exact ⟨And.left, fun h => ⟨h, .inl h⟩⟩

end Agreement

/-- A node that has just started with a seed. -/
def joiningService : CacheService := ⟨.new, .new 0 ⟨1⟩ [⟨⟨2⟩, "b"⟩], ∅⟩

/-- RESP stores what gRPC refuses, and loses the delete gRPC records. -/
theorem interfaces_disagree_joining :
    (∃ store, joiningService.resp (fun _ => 1) (setCommand "k" [118] 1000)
        = (encodeSimpleString "OK", ⟨store, joiningService.table, ∅⟩))
      ∧ (joiningService.set 1 ⟨"k", [118], some 1000⟩).1 = .error .joining
      ∧ ¬ SetAgrees joiningService (fun _ => 1) "k" [118] 1000
      ∧ ¬ DelAgrees joiningService (fun _ => 1) "k" := by
  refine ⟨⟨_, resp_setCommand ..⟩, rfl, ?_, ?_⟩
  · rw [setAgrees_iff]
    decide
  · rw [delAgrees_iff]
    decide

end SelfHealingCache
