import SelfHealingCache.Node.RespRoundTrip
import SelfHealingCache.Node.RespServer

/-!
# Replies

Every request gets one reply: what `handle_command` returns, or an error
line for input the parser rejects. Each is one word of the grammar, and
no array, so a client that parses the stream of replies finds one value
for each request. Client bytes only come back inside bulk strings, whose
length line says where they end; every other text is one of the server's
own, and none of them has a `\r` in it.
-/

namespace SelfHealingCache

/-! ## Texts of one line -/

def OneLine (s : String) : Prop := (13 : UInt8) ∉ bytesOf s

theorem oneLine_of {s : String} (h : (13 : UInt8) ∉ s.toByteArray.data.toList) : OneLine s := by
  rwa [OneLine, bytesOf, show s.toUTF8.toList = _ from TextBytes.utf8_eq s]

theorem oneLine_append {s t : String} (hs : OneLine s) (ht : OneLine t) : OneLine (s ++ t) := by
  rw [OneLine, bytesOf_append, List.mem_append, not_or]
  exact ⟨hs, ht⟩

theorem OneLine.noCrlf {s : String} (h : OneLine s) : NoCrlf (bytesOf s) :=
  Delimited.free_of_not_mem h

theorem oneLine_toString (n : Nat) : OneLine (toString n) := by
  intro hmem
  exact absurd (TextBytes.isDigit_of_mem_decimal hmem) (by decide)

/-! ## The parser's errors -/

theorem oneLine_utf8Error (e : Utf8Error) : OneLine e.text := by
  rw [Utf8Error.text]
  split
  · exact oneLine_append (oneLine_append (oneLine_append (oneLine_of (by decide))
      (oneLine_toString _)) (oneLine_of (by decide))) (oneLine_toString _)
  · exact oneLine_append (oneLine_of (by decide)) (oneLine_toString _)

theorem oneLine_parseIntError (e : ParseIntError) : OneLine e.text := by
  cases e <;> exact oneLine_of (by decide)

theorem oneLine_of_fromUtf8 {line : Bytes} {e : String} (h : fromUtf8 line = .error e) :
    OneLine e := by
  rw [fromUtf8] at h
  split at h
  · cases h
  · cases h
    exact oneLine_utf8Error _

/-- A prefixed error: `invalid <what>: <e>`. -/
theorem oneLine_prefixed {start what e : String} (hstart : OneLine start) (hwhat : OneLine what)
    (he : OneLine e) : OneLine (start ++ what ++ ": " ++ e) :=
  oneLine_append (oneLine_append (oneLine_append hstart hwhat) (oneLine_of (by decide))) he

theorem oneLine_of_parseText {make : String → RespValue} {what : String} {buf : Bytes}
    {e : String} (hwhat : OneLine what) (h : parseText make what buf = .error e) : OneLine e := by
  rw [parseText] at h
  split at h
  · split at h
    · cases h
    · rename_i hutf
      cases h
      exact oneLine_prefixed (oneLine_of (by decide)) hwhat (oneLine_of_fromUtf8 hutf)
  · cases h

theorem oneLine_of_readNumber {what : String} {buf : Bytes} {e : String} (hwhat : OneLine what)
    (h : readNumber what buf = .error (.error e)) : OneLine e := by
  rw [readNumber] at h
  split at h
  · split at h
    · split at h
      · cases h
      · cases h
        exact oneLine_prefixed (oneLine_of (by decide)) hwhat (oneLine_parseIntError _)
    · rename_i hutf
      cases h
      exact oneLine_prefixed (oneLine_of (by decide)) hwhat (oneLine_of_fromUtf8 hutf)
  · cases h

theorem oneLine_digitChar : ∀ d < 16,
    (13 : UInt8) ∉ (String.ofList [Nat.digitChar d]).toByteArray.data.toList := by
  decide

theorem oneLine_hexDigits (w n : Nat) : OneLine (String.ofList (hexDigits w n)) := by
  induction w generalizing n with
  | zero =>
      rw [hexDigits]
      exact oneLine_of (by decide)
  | succ w ih =>
      rw [hexDigits, String.ofList_append]
      exact oneLine_append (ih _) (oneLine_of (oneLine_digitChar _ (Nat.mod_lt _ (by decide))))

/-- An error in the element loop is one of an element. -/
theorem error_of_parseItems {parse : Bytes → Option ParseResult} {buf : Bytes}
    {left offset : Nat} {items : List RespValue} {e : String}
    (h : parseItems parse buf left offset items = some (.error e)) :
    ∃ k, offset ≤ k ∧ parse (buf.drop k) = some (.error e) := by
  induction left generalizing offset items with
  | zero => cases h
  | succ left ih =>
      rw [parseItems] at h
      split at h
      · obtain ⟨k, hk, hparse⟩ := ih h
        exact ⟨k, by omega, hparse⟩
      · exact ⟨offset, Nat.le_refl _, h⟩

/-- **No error text of the parser has a line ending.** -/
theorem oneLine_of_parseResp {buf : Bytes} {e : String} (h : parseResp buf = some (.error e)) :
    OneLine e := by
  induction hsize : buf.length using Nat.strongRecOn generalizing buf with
  | ind size ih =>
      rw [parseResp_eq] at h
      unfold parseStep at h
      split at h
      · cases h
      · exact oneLine_of_parseText (oneLine_of (by decide)) (Option.some.inj h)
      · exact oneLine_of_parseText (oneLine_of (by decide)) (Option.some.inj h)
      · have hparse := Option.some.inj h
        rw [parseInteger] at hparse
        split at hparse
        · cases hparse
        · rename_i hnum
          rw [hparse] at hnum
          exact oneLine_of_readNumber (oneLine_of (by decide)) hnum
      · have hparse := Option.some.inj h
        rw [parseBulkString] at hparse
        split at hparse
        · rename_i hnum
          rw [hparse] at hnum
          exact oneLine_of_readNumber (oneLine_of (by decide)) hnum
        · dsimp only at hparse
          split_ifs at hparse
          cases hparse
          exact oneLine_of (by decide)
      · rename_i l
        rw [parseArray] at h
        cases hnum : readNumber "array count" (42 :: l) with
        | error result =>
            rw [hnum] at h
            cases h
            exact oneLine_of_readNumber (oneLine_of (by decide)) hnum
        | ok out =>
            obtain ⟨count, afterCount⟩ := out
            have hafter := (readNumber_within hnum).1
            rw [hnum] at h
            dsimp only at h
            split_ifs at h
            · cases h
            · obtain ⟨k, hk, hparse⟩ := error_of_parseItems h
              refine ih _ ?_ hparse rfl
              rw [← hsize, List.length_drop, List.length_cons]
              omega
      · cases h
        exact oneLine_append (oneLine_of (by decide)) (oneLine_hexDigits _ _)

/-! ## Replies are words -/

/-- One word of the grammar that is not an array. -/
def IsReply (w : Bytes) : Prop := ∃ v : RespValue, Word w v ∧ v.Scalar

theorem isReply_error {msg : String} (h : OneLine msg) : IsReply (encodeError msg) :=
  ⟨_, word_encodeError h.noCrlf, trivial⟩

theorem isReply_simpleString {s : String} (h : OneLine s) : IsReply (encodeSimpleString s) :=
  ⟨_, word_encodeSimpleString h.noCrlf, trivial⟩

theorem isReply_integer (n : Int64) : IsReply (encodeInteger n.toInt) :=
  ⟨_, word_encodeInteger n, trivial⟩

theorem isReply_count {n : Nat} (h : n < 2 ^ 63) : IsReply (encodeInteger n) := by
  obtain ⟨m, hm⟩ := exists_i64 h
  rw [← hm]
  exact isReply_integer m

theorem isReply_bulkString {data : Bytes} (h : data.length < 2 ^ 63) :
    IsReply (encodeBulkString data) :=
  ⟨_, word_encodeBulkString h, trivial⟩

theorem isReply_null : IsReply encodeNull := ⟨_, word_encodeNull, trivial⟩

/-! ## The commands -/

/-- A `Vec` has at most `isize::MAX` bytes. -/
def CacheStore.Fits (store : CacheStore) : Prop :=
  ∀ key entry, store.data.lookup key = some entry → entry.value.length < 2 ^ 63

/-- The arguments of a command, as they exist in memory. -/
structure ArgsFit (args : List RespValue) : Prop where
  count : args.length < 2 ^ 63
  data : ∀ arg ∈ args, ∀ data, extractBytes arg = some data → data.length < 2 ^ 63

theorem oneLine_wrongArguments {command : String} (h : OneLine command) :
    OneLine (wrongArguments command) :=
  oneLine_append (oneLine_append (oneLine_of (by decide)) h) (oneLine_of (by decide))

theorem isReply_cmdPing {args : List RespValue} (h : ArgsFit args) : IsReply (cmdPing args) := by
  unfold cmdPing
  split
  · exact isReply_simpleString (oneLine_of (by decide))
  · split
    · rename_i data hdata
      exact isReply_bulkString (h.data _ (by simp) data hdata)
    · exact isReply_error (oneLine_of (by decide))
  · exact isReply_error (oneLine_wrongArguments (oneLine_of (by decide)))

theorem isReply_cmdEcho {args : List RespValue} (h : ArgsFit args) : IsReply (cmdEcho args) := by
  unfold cmdEcho
  split
  · split
    · rename_i data hdata
      exact isReply_bulkString (h.data _ (by simp) data hdata)
    · exact isReply_error (oneLine_of (by decide))
  · exact isReply_error (oneLine_wrongArguments (oneLine_of (by decide)))

theorem oneLine_of_setOptions {options : List RespValue} {ttl : Option Duration} {msg : String}
    (h : setOptions options ttl = .error msg) : OneLine msg := by
  fun_induction setOptions options ttl
  case case1 => cases h
  case case8 ih => exact ih h
  all_goals
    cases h
    exact oneLine_of (by decide)

theorem oneLine_of_parseSet {args : List RespValue} {msg : String}
    (h : parseSet args = .error msg) : OneLine msg := by
  unfold parseSet at h
  split at h
  · split at h
    · cases h
      exact oneLine_of (by decide)
    · split at h
      · cases h
        exact oneLine_of (by decide)
      · split at h
        · rename_i hoptions
          cases h
          exact oneLine_of_setOptions hoptions
        · cases h
  · cases h
    exact oneLine_of (by decide)

theorem isReply_cmdSet (args : List RespValue) (store : CacheStore) (now : Instant) :
    IsReply (cmdSet args store now).1 := by
  rw [cmdSet]
  split
  · rename_i hparse
    exact isReply_error (oneLine_of_parseSet hparse)
  · exact isReply_simpleString (oneLine_of (by decide))

theorem oneLine_of_parseKey {command : String} {args : List RespValue} {msg : String}
    (hcommand : OneLine command) (h : parseKey command args = .error msg) : OneLine msg := by
  unfold parseKey at h
  split at h
  · split at h
    · cases h
    · cases h
      exact oneLine_of (by decide)
  · cases h
    exact oneLine_wrongArguments hcommand

theorem isReply_cmdGet {store : CacheStore} (hstore : store.Fits) (args : List RespValue)
    (now : Instant) : IsReply (cmdGet args store now).1 := by
  rw [cmdGet]
  split
  · rename_i hparse
    exact isReply_error (oneLine_of_parseKey (oneLine_of (by decide)) hparse)
  · rename_i key _
    dsimp only
    split
    · rename_i val hval
      rw [CacheStore.get_fst, Option.map_eq_some_iff] at hval
      obtain ⟨entry, hentry, rfl⟩ := hval
      exact isReply_bulkString (hstore key entry (Option.filter_eq_some_iff.mp hentry).1)
    · exact isReply_null

theorem deleteKeys_le (keys : List String) (deleted : Nat) (store : CacheStore) :
    (deleteKeys keys deleted store).1 ≤ deleted + keys.length := by
  induction keys generalizing deleted store with
  | nil => exact Nat.le_refl _
  | cons key keys ih =>
      rw [deleteKeys, List.length_cons]
      refine Nat.le_trans (ih _ _) ?_
      split_ifs <;> omega

theorem isReply_cmdDel {args : List RespValue} (h : ArgsFit args) (store : CacheStore) :
    IsReply (cmdDel args store).1 := by
  rw [cmdDel]
  split
  · rename_i msg hparse
    unfold parseDel at hparse
    split at hparse
    · cases hparse
    · cases hparse
      exact isReply_error (oneLine_of (by decide))
  · rename_i keys hparse
    have hle : keys.length ≤ args.length := by
      unfold parseDel at hparse
      split at hparse
      · cases hparse
        exact Nat.le_succ_of_le (List.length_filterMap_le _ _)
      · cases hparse
    have hdeleted := deleteKeys_le keys 0 store
    have hcount := h.count
    exact isReply_count (by omega)

theorem isReply_flag (b : Bool) : IsReply (encodeInteger (if b then 1 else 0)) := by
  cases b
  · exact isReply_count (n := 0) (by decide)
  · exact isReply_count (n := 1) (by decide)

theorem isReply_cmdExists (args : List RespValue) (store : CacheStore) (now : Instant) :
    IsReply (cmdExists args store now).1 := by
  rw [cmdExists]
  split
  · rename_i hparse
    exact isReply_error (oneLine_of_parseKey (oneLine_of (by decide)) hparse)
  · exact isReply_flag _

theorem isReply_cmdTtl (args : List RespValue) (store : CacheStore) (now later : Instant) :
    IsReply (cmdTtl args store now later).1 := by
  rw [cmdTtl]
  split
  · rename_i hparse
    exact isReply_error (oneLine_of_parseKey (oneLine_of (by decide)) hparse)
  · dsimp only
    split_ifs
    · split
      · exact isReply_integer _
      · exact isReply_integer (-1)
    · exact isReply_integer (-2)

theorem isReply_cmdExpire (args : List RespValue) (store : CacheStore) (now : Instant) :
    IsReply (cmdExpire args store now).1 := by
  rw [cmdExpire]
  split
  · rename_i hparse
    unfold parseExpire at hparse
    split at hparse
    · split at hparse
      · cases hparse
        exact isReply_error (oneLine_of (by decide))
      · split at hparse
        · cases hparse
          exact isReply_error (oneLine_of (by decide))
        · cases hparse
    · cases hparse
      exact isReply_error (oneLine_of (by decide))
  · exact isReply_flag _

/-- **Every reply of `handle_command` is one word.** -/
theorem isReply_handleCommand {value : RespValue} {store : CacheStore} (clock : Nat → Instant)
    (hargs : ∀ args, value = .array args → ArgsFit args) (hstore : store.Fits) :
    IsReply (handleCommand value store clock).1 := by
  unfold handleCommand
  split
  · exact isReply_error (oneLine_of (by decide))
  · rename_i name rest
    have hfit := hargs _ rfl
    dsimp only
    split
    · exact isReply_error (oneLine_of (by decide))
    · split
      · exact isReply_cmdPing hfit
      · exact isReply_cmdEcho hfit
      · exact isReply_cmdSet ..
      · exact isReply_cmdGet hstore ..
      · exact isReply_cmdDel hfit _
      · exact isReply_cmdExists ..
      · exact isReply_cmdTtl ..
      · exact isReply_cmdExpire ..
      · exact isReply_error (oneLine_of (by decide))
  · exact isReply_error (oneLine_of (by decide))

/-! ## A stream of replies -/

/-- What a connection answers: a parsed value, with the store and the
clock as its command finds them, or bytes the parser rejects. -/
inductive RespRequest where
  | command (value : RespValue) (store : CacheStore) (clock : Nat → Instant)
  | malformed (buf : Bytes) (e : String) (hparse : parseResp buf = some (.error e))

def RespRequest.reply : RespRequest → Bytes
  | .command value store clock => (handleCommand value store clock).1
  | .malformed _ e _ => encodeError ("ERR " ++ e)

/-- The request exists in memory. -/
def RespRequest.Fits : RespRequest → Prop
  | .command value store _ => (∀ args, value = .array args → ArgsFit args) ∧ store.Fits
  | .malformed .. => True

theorem RespRequest.isReply_reply {r : RespRequest} (h : r.Fits) : IsReply r.reply := by
  cases r with
  | command value store clock => exact isReply_handleCommand clock h.1 h.2
  | malformed buf e hparse =>
      exact isReply_error (oneLine_append (oneLine_of (by decide)) (oneLine_of_parseResp hparse))

/-- `parse_resp` over and over, until nothing is left. -/
def parseAllFuel : Nat → Bytes → Option (List RespValue)
  | 0, buf => if buf.isEmpty then some [] else none
  | fuel + 1, buf =>
      if buf.isEmpty then some []
      else match parseResp buf with
        | some (.complete value consumed) =>
            (parseAllFuel fuel (buf.drop consumed)).map (value :: ·)
        | _ => none

/-- The values of a whole stream; `none` unless it is values throughout. -/
def parseAll (buf : Bytes) : Option (List RespValue) := parseAllFuel buf.length buf

theorem parseAllFuel_words {words : List Bytes} {values : List RespValue} {fuel : Nat}
    (h : List.Forall₂ (fun w v => Word w v ∧ RespValue.Scalar v) words values)
    (hfuel : words.flatten.length ≤ fuel) : parseAllFuel fuel words.flatten = some values := by
  induction h generalizing fuel with
  | nil => cases fuel <;> rfl
  | @cons w v words values hword _ ih =>
      have hpos := hword.1.three_le_length
      rw [List.flatten_cons, List.length_append] at hfuel
      obtain ⟨fuel, rfl⟩ : ∃ k, fuel = k + 1 := ⟨fuel - 1, by omega⟩
      have hne : ¬ (w ++ words.flatten).isEmpty := by
        rw [List.isEmpty_iff, List.append_eq_nil_iff]
        intro hnil
        rw [hnil.1] at hpos
        cases hpos
      rw [List.flatten_cons, parseAllFuel, if_neg hne, parseResp_of_word hword.1 (.inr hword.2)]
      dsimp only
      rw [List.drop_left, ih (by omega)]
      rfl

/-- **One value per request.** The replies to any requests, one after the
other, parse into exactly one value for each, in order, and nothing is
left over. -/
theorem parseAll_replies (requests : List RespRequest) (hfits : ∀ r ∈ requests, r.Fits) :
    ∃ values, parseAll (requests.map RespRequest.reply).flatten = some values
      ∧ List.Forall₂
        (fun (r : RespRequest) v => parseResp r.reply = some (.complete v r.reply.length))
        requests values := by
  have hwords : ∃ values,
      List.Forall₂ (fun (r : RespRequest) v => Word r.reply v ∧ v.Scalar) requests values := by
    induction requests with
    | nil => exact ⟨[], .nil⟩
    | cons r requests ih =>
        obtain ⟨v, hv⟩ := RespRequest.isReply_reply (hfits r List.mem_cons_self)
        obtain ⟨values, hvalues⟩ := ih fun r' hr' => hfits r' (List.mem_cons_of_mem _ hr')
        exact ⟨v :: values, .cons hv hvalues⟩
  obtain ⟨values, hvalues⟩ := hwords
  refine ⟨values, parseAllFuel_words (List.forall₂_map_left_iff.mpr hvalues) (Nat.le_refl _), ?_⟩
  refine hvalues.imp fun r v hv => ?_
  have hparse := parseResp_of_word hv.1 (.inr hv.2) []
  rwa [List.append_nil] at hparse

/-- An echoed line ending and a stray byte. -/
theorem parseAll_replies_echo :
    ∃ values, parseAll (List.map RespRequest.reply
        [.command (.array [.bulkString [69, 67, 72, 79], .bulkString [13, 10, 43]]) .new fun _ => 0,
          .malformed [88] _ rfl]).flatten = some values
      ∧ values.length = 2 := by
  obtain ⟨values, hparse, hvalues⟩ := parseAll_replies
    [.command (.array [.bulkString [69, 67, 72, 79], .bulkString [13, 10, 43]]) .new fun _ => 0,
      .malformed [88] _ rfl] (by
    intro r hr
    simp only [List.mem_cons, List.not_mem_nil, or_false] at hr
    rcases hr with rfl | rfl
    · refine ⟨fun args hargs => ?_, fun key entry hlook => ?_⟩
      · cases hargs
        refine ⟨by decide, fun arg harg data hdata => ?_⟩
        simp only [List.mem_cons, List.not_mem_nil, or_false] at harg
        rcases harg with rfl | rfl <;> cases hdata <;> decide
      · cases hlook
    · trivial)
  exact ⟨values, hparse, hvalues.length_eq.symm⟩

end SelfHealingCache
