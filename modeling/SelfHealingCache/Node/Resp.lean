import Mathlib.Algebra.Group.Nat.Defs
import SelfHealingCache.Lib.TextBytes
import SelfHealingCache.Node.Store

/-!
# The writing RESP commands

`crates/node/src/resp`: the values a RESP client sends, the replies, and
the three commands that change the store (`cmd_set`, `cmd_del`,
`cmd_expire` of `server.rs`). Nothing on this path looks at the
membership table: the RESP server is handed the store alone.
-/

namespace SelfHealingCache

/-- `RespValue`. -/
inductive RespValue where
  | simpleString (s : String)
  | error (s : String)
  | integer (n : Int64)
  | bulkString (data : Bytes)
  | null
  | array (items : List RespValue)

/-! ## Replies -/

def bytesOf (s : String) : Bytes := s.toUTF8.toList

/-- `+<s>\r\n` -/
def encodeSimpleString (s : String) : Bytes := bytesOf ("+" ++ s ++ "\r\n")

/-- `-<msg>\r\n` -/
def encodeError (msg : String) : Bytes := bytesOf ("-" ++ msg ++ "\r\n")

/-- `:<n>\r\n` -/
def encodeInteger (n : Int) : Bytes := bytesOf (":" ++ toString n ++ "\r\n")

/-- `$<len>\r\n<data>\r\n` -/
def encodeBulkString (data : Bytes) : Bytes :=
  bytesOf ("$" ++ toString data.length ++ "\r\n") ++ data ++ bytesOf "\r\n"

/-- `$-1\r\n` -/
def encodeNull : Bytes := bytesOf "$-1\r\n"

/-- The count line of an array: `*<count>\r\n` -/
def encodeCount (count : Nat) : Bytes := bytesOf ("*" ++ toString count ++ "\r\n")

mutual

/-- One element in the loop of `encode_array`. -/
def encodeItem : RespValue → Bytes
  | .simpleString s => encodeSimpleString s
  | .error e => encodeError e
  | .integer n => encodeInteger n.toInt
  | .bulkString d => encodeBulkString d
  | .null => encodeNull
  | .array inner => encodeCount inner.length ++ encodeItems inner

def encodeItems : List RespValue → Bytes
  | [] => []
  | item :: items => encodeItem item ++ encodeItems items

end

def encodeArray (items : List RespValue) : Bytes := encodeCount items.length ++ encodeItems items

/-! ## Arguments -/

/-- The UTF-8 text of a bulk or simple string. -/
def extractStr : RespValue → Option String
  | .bulkString data => String.fromUTF8? ⟨data.toArray⟩
  | .simpleString s => some s
  | _ => none

def extractBytes : RespValue → Option Bytes
  | .bulkString data => some data
  | .simpleString s => some (bytesOf s)
  | _ => none

/-- The uppercase form of a character, for every character whose form
contains an ASCII letter. Any other is left as it is: its form holds no
ASCII character, so it changes no comparison with an option name. -/
def upperChar (c : Char) : List Char :=
  if 'a' ≤ c ∧ c ≤ 'z' then [Char.ofNat (c.toNat - 32)]
  else match c.toNat with
    | 0x00df => ['S', 'S']
    | 0x0131 => ['I']
    | 0x0149 => [Char.ofNat 0x02bc, 'N']
    | 0x017f => ['S']
    | 0x01f0 => ['J', Char.ofNat 0x030c]
    | 0x1e96 => ['H', Char.ofNat 0x0331]
    | 0x1e97 => ['T', Char.ofNat 0x0308]
    | 0x1e98 => ['W', Char.ofNat 0x030a]
    | 0x1e99 => ['Y', Char.ofNat 0x030a]
    | 0x1e9a => ['A', Char.ofNat 0x02be]
    | 0xfb00 => ['F', 'F']
    | 0xfb01 => ['F', 'I']
    | 0xfb02 => ['F', 'L']
    | 0xfb03 => ['F', 'F', 'I']
    | 0xfb04 => ['F', 'F', 'L']
    | 0xfb05 => ['S', 'T']
    | 0xfb06 => ['S', 'T']
    | _ => [c]

/-- `str::to_uppercase`, see `upperChar`. -/
def toUppercase (s : String) : String := String.ofList (s.toList.flatMap upperChar)

/-- `str::parse::<u64>`: an optional plus sign, then digits, in range. -/
def parseU64 (s : String) : Option UInt64 :=
  let digits := match s.toList with
    | '+' :: rest => rest
    | cs => cs
  if digits.isEmpty ∨ ¬ digits.all Char.isDigit then none
  else
    let n := digits.foldl (fun acc c => acc * 10 + (c.toNat - '0'.toNat)) 0
    if n < 2 ^ 64 then some (UInt64.ofNat n) else none

/-! ## What an argument says -/

/-- `IsText v s`: the argument is the text `s`, as a simple string or as
the UTF-8 bytes of a bulk string. -/
inductive IsText : RespValue → String → Prop where
  | simple (s : String) : IsText (.simpleString s) s
  | bulk (s : String) : IsText (.bulkString (bytesOf s)) s

/-- `IsString v data`: the argument is a string of these bytes, text or
not. -/
inductive IsString : RespValue → Bytes → Prop where
  | simple (s : String) : IsString (.simpleString s) (bytesOf s)
  | bulk (data : Bytes) : IsString (.bulkString data) data

/-- `U64Lexeme cs n`: an optional plus sign and at least one digit, and
the number below `2 ^ 64` they denote. -/
inductive U64Lexeme : List Char → Nat → Prop where
  | plain {ds : List Char} (hne : ds ≠ []) (hds : ∀ c ∈ ds, c.isDigit)
      (hfits : Nat.ofDigitChars 10 ds 0 < 2 ^ 64) : U64Lexeme ds (Nat.ofDigitChars 10 ds 0)
  | plus {ds : List Char} (hne : ds ≠ []) (hds : ∀ c ∈ ds, c.isDigit)
      (hfits : Nat.ofDigitChars 10 ds 0 < 2 ^ 64) :
      U64Lexeme ('+' :: ds) (Nat.ofDigitChars 10 ds 0)

theorem U64Lexeme.lt {cs : List Char} {n : Nat} (h : U64Lexeme cs n) : n < 2 ^ 64 := by
  cases h with
  | plain _ _ hfits => exact hfits
  | plus _ _ hfits => exact hfits

theorem extractStr_eq_some_iff {v : RespValue} {s : String} :
    extractStr v = some s ↔ IsText v s := by
  constructor
  · intro h
    cases v with
    | bulkString data =>
        rw [← show bytesOf s = data from TextBytes.decode_eq_some_iff.mp h]
        exact .bulk s
    | simpleString t =>
        cases h
        exact .simple s
    | error t => cases h
    | integer n => cases h
    | null => cases h
    | array items => cases h
  · intro h
    cases h with
    | simple => rfl
    | bulk => exact TextBytes.decode_eq_some_iff.mpr rfl

@[simp] theorem extractStr_bytesOf (s : String) :
    extractStr (.bulkString (bytesOf s)) = some s :=
  extractStr_eq_some_iff.mpr (.bulk s)

theorem extractBytes_eq_some_iff {v : RespValue} {data : Bytes} :
    extractBytes v = some data ↔ IsString v data := by
  constructor
  · intro h
    cases v with
    | bulkString d =>
        cases h
        exact .bulk data
    | simpleString s =>
        cases h
        exact .simple s
    | error t => cases h
    | integer n => cases h
    | null => cases h
    | array items => cases h
  · intro h
    cases h with
    | simple => rfl
    | bulk => rfl

theorem foldl_digits (ds : List Char) :
    ds.foldl (fun acc c => acc * 10 + (c.toNat - '0'.toNat)) 0 = Nat.ofDigitChars 10 ds 0 := by
  rw [Nat.ofDigitChars_eq_foldl]
  simp only [Nat.mul_comm]

/-- What is left of a spelling without its sign, once it is digits. -/
theorem parseU64_of_digits {s : String} {ds : List Char}
    (hs : s.toList = ds ∨ s.toList = '+' :: ds) (hne : ds ≠ []) (hds : ∀ c ∈ ds, c.isDigit)
    (hfits : Nat.ofDigitChars 10 ds 0 < 2 ^ 64) :
    parseU64 s = some (UInt64.ofNat (Nat.ofDigitChars 10 ds 0)) := by
  unfold parseU64
  extract_lets digits value
  have hstrip : digits = ds := by
    unfold digits
    rcases hs with hs | hs
    · rw [hs]
      split
      · -- a digit is no sign
        have hplus : '+'.isDigit := hds '+' List.mem_cons_self
        cases hplus
      · rfl
    · rw [hs]
      rfl
  have hvalue : value = Nat.ofDigitChars 10 ds 0 := by
    unfold value
    rw [hstrip, foldl_digits]
  have hwell : ¬ (digits.isEmpty ∨ ¬ digits.all Char.isDigit) := by
    rw [hstrip]
    rintro (hempty | hother)
    · exact hne (List.isEmpty_iff.mp hempty)
    · exact hother (List.all_eq_true.mpr hds)
  rw [if_neg hwell, hvalue, if_pos hfits]

theorem parseU64_eq_some_iff {s : String} {n : UInt64} :
    parseU64 s = some n ↔ U64Lexeme s.toList n.toNat := by
  constructor
  · intro h
    unfold parseU64 at h
    extract_lets digits value at h
    split_ifs at h with hwell hfits
    rw [not_or, not_not, List.isEmpty_iff, List.all_eq_true] at hwell
    obtain ⟨hne, hds⟩ := hwell
    have hvalue : value = Nat.ofDigitChars 10 digits 0 := foldl_digits digits
    have hn : n.toNat = Nat.ofDigitChars 10 digits 0 := by
      cases h
      rw [← hvalue]
      exact UInt64.toNat_ofNat_of_lt' hfits
    rw [hvalue] at hfits
    have hspelled : s.toList = digits ∨ s.toList = '+' :: digits := by
      unfold digits
      split
      · rename_i rest hplus
        exact .inr hplus
      · exact .inl rfl
    rw [hn]
    rcases hspelled with hs | hs
    · rw [hs]
      exact .plain hne hds hfits
    · rw [hs]
      exact .plus hne hds hfits
  · intro h
    generalize hs : s.toList = cs at h
    generalize hn : n.toNat = m at h
    rw [← UInt64.ofNat_toNat (x := n), hn]
    cases h with
    | plain hne hds hfits => exact parseU64_of_digits (.inl hs) hne hds hfits
    | plus hne hds hfits => exact parseU64_of_digits (.inr hs) hne hds hfits

/-! ## Commands -/

/-- The unit an option of `SET` counts in. -/
def optionUnit (opt : String) : Option (UInt64 → Duration) :=
  if opt = "EX" then some fromSecs
  else if opt = "PX" then some fromMillis
  else none

/-- The option loop of `cmd_set`; a later option overrides an earlier
one. -/
def setOptions : List RespValue → Option Duration → Except String (Option Duration)
  | [], ttl => .ok ttl
  | [arg], _ =>
      match extractStr arg with
      | none => .error "ERR invalid option"
      | some opt =>
          match optionUnit (toUppercase opt) with
          | none => .error "ERR syntax error"
          | some _ => .error "ERR wrong number of arguments for 'set' command"
  | arg :: number :: rest, _ =>
      match extractStr arg with
      | none => .error "ERR invalid option"
      | some opt =>
          match optionUnit (toUppercase opt) with
          | none => .error "ERR syntax error"
          | some unit =>
              match (extractStr number).bind parseU64 with
              | none => .error "ERR value is not an integer or out of range"
              | some n => setOptions rest (some (unit n))

/-- What `SET key value [EX seconds | PX milliseconds]` asks for. -/
def parseSet : List RespValue → Except String (String × Bytes × Option Duration)
  | _ :: keyArg :: valueArg :: options =>
      match extractStr keyArg with
      | none => .error "ERR invalid key"
      | some key =>
          match extractBytes valueArg with
          | none => .error "ERR invalid value"
          | some value =>
              match setOptions options none with
              | .error msg => .error msg
              | .ok ttl => .ok (key, value, ttl)
  | _ => .error "ERR wrong number of arguments for 'set' command"

/-- Reply and store after `SET`. -/
def cmdSet (args : List RespValue) (store : CacheStore) (now : Instant) : Bytes × CacheStore :=
  match parseSet args with
  | .error msg => (encodeError msg, store)
  | .ok (key, value, ttl) => (encodeSimpleString "OK", store.set now key value ttl)

/-- What `DEL key [key ...]` asks for; arguments that are not text are
passed over. -/
def parseDel : List RespValue → Except String (List String)
  | _ :: key :: keys => .ok ((key :: keys).filterMap extractStr)
  | _ => .error "ERR wrong number of arguments for 'del' command"

/-- What `EXPIRE key seconds` asks for. -/
def parseExpire : List RespValue → Except String (String × Duration)
  | [_, keyArg, secsArg] =>
      match extractStr keyArg with
      | none => .error "ERR invalid key"
      | some key =>
          match (extractStr secsArg).bind parseU64 with
          | none => .error "ERR value is not an integer or out of range"
          | some secs => .ok (key, fromSecs secs)
  | _ => .error "ERR wrong number of arguments for 'expire' command"

/-- Reply and store after `EXPIRE`. -/
def cmdExpire (args : List RespValue) (store : CacheStore) (now : Instant) :
    Bytes × CacheStore :=
  match parseExpire args with
  | .error msg => (encodeError msg, store)
  | .ok (key, ttl) =>
      let out := store.expire now key ttl
      (encodeInteger (if out.1 then 1 else 0), out.2)

end SelfHealingCache
