import Mathlib.Algebra.Group.Int.Defs
import SelfHealingCache.Common.NodeId
import SelfHealingCache.Lib.Delimited
import SelfHealingCache.Lib.TextBytes
import SelfHealingCache.Lib.Unfold
import SelfHealingCache.Node.Resp

/-!
# The RESP parser

`crates/node/src/resp/parser.rs`. The parser works on a buffer and on
absolute offsets into it; an array parses its elements from the suffixes
of the same buffer.

What the source takes from the standard library is written out where its
answer is visible to a client: the decimal syntax of `i64` and the texts
of the two error types. `Vec::with_capacity` panics when the requested
bytes exceed `isize::MAX`; a `RespValue` has 32 bytes, so an announced
count of `2 ^ 58` or more is such a panic, and the result is `none`.
(Running out of memory or of stack is not modelled.) Offsets are natural
numbers: every sum in the source stays below `2 ^ 64` for buffers that
exist.

`parseFuel` recurses on a bound; `parseResp_eq` is the equation of the
source, without it.
-/

namespace SelfHealingCache

/-- `ParseResult`. -/
inductive ParseResult where
  | complete (value : RespValue) (consumed : Nat)
  | incomplete
  | error (message : String)

/-! ## Lines -/

/-- The position of the next `\r\n` at or after `offset`. -/
def findCrlf (buf : Bytes) (offset : Nat) : Option Nat :=
  if buf.length < offset + 2 then none
  else (List.range' offset (buf.length - 1 - offset)).find? fun i =>
    buf[i]? = some 13 ∧ buf[i + 1]? = some 10

/-- The line at `offset`, and the position after its `\r\n`. -/
def readLine (buf : Bytes) (offset : Nat) : Option (Bytes × Nat) :=
  (findCrlf buf offset).map fun cr => ((buf.take cr).drop offset, cr + 2)

/-! ## UTF-8 -/

/-- `Utf8Error`. -/
structure Utf8Error where
  validUpTo : Nat
  errorLen : Option Nat

/-- `Display` of `Utf8Error`. -/
def Utf8Error.text (e : Utf8Error) : String :=
  match e.errorLen with
  | some len =>
      "invalid utf-8 sequence of " ++ toString len ++ " bytes from index " ++ toString e.validUpTo
  | none => "incomplete utf-8 byte sequence from index " ++ toString e.validUpTo

/-- The bytes a character with this first byte takes; 0 when no character
starts with it. -/
def utf8CharWidth (b : UInt8) : Nat :=
  if b < 0x80 then 1
  else if 0xC2 ≤ b ∧ b ≤ 0xDF then 2
  else if 0xE0 ≤ b ∧ b ≤ 0xEF then 3
  else if 0xF0 ≤ b ∧ b ≤ 0xF4 then 4
  else 0

def isContinuation (b : UInt8) : Bool := 0x80 ≤ b ∧ b ≤ 0xBF

/-- Whether `second` may follow `first` in a character of three or four
bytes: no overlong form, no surrogate, nothing past U+10FFFF. -/
def secondAllowed (first second : UInt8) : Bool :=
  if first = 0xE0 then 0xA0 ≤ second ∧ second ≤ 0xBF
  else if first = 0xED then 0x80 ≤ second ∧ second ≤ 0x9F
  else if first = 0xF0 then 0x90 ≤ second ∧ second ≤ 0xBF
  else if first = 0xF4 then 0x80 ≤ second ∧ second ≤ 0x8F
  else isContinuation second

/-- The validation loop of `str::from_utf8`, from byte `index` on: where
and how it fails. -/
def utf8Error (index : Nat) : Bytes → Utf8Error
  | [] => ⟨index, none⟩
  | first :: rest =>
      match utf8CharWidth first, rest with
      | 1, rest => utf8Error (index + 1) rest
      | 2, b :: rest => if isContinuation b then utf8Error (index + 2) rest else ⟨index, some 1⟩
      | 3, b :: c :: rest =>
          if ¬ secondAllowed first b then ⟨index, some 1⟩
          else if ¬ isContinuation c then ⟨index, some 2⟩
          else utf8Error (index + 3) rest
      | 3, [b] => ⟨index, if secondAllowed first b then none else some 1⟩
      | 4, b :: c :: d :: rest =>
          if ¬ secondAllowed first b then ⟨index, some 1⟩
          else if ¬ isContinuation c then ⟨index, some 2⟩
          else if ¬ isContinuation d then ⟨index, some 3⟩
          else utf8Error (index + 4) rest
      | 4, [b, c] =>
          ⟨index, if ¬ secondAllowed first b then some 1
            else if ¬ isContinuation c then some 2 else none⟩
      | 4, [b] => ⟨index, if secondAllowed first b then none else some 1⟩
      | 0, _ => ⟨index, some 1⟩
      | _, _ => ⟨index, none⟩

/-- `str::from_utf8`; the error is the text it displays. -/
def fromUtf8 (line : Bytes) : Except String String :=
  match String.fromUTF8? ⟨line.toArray⟩ with
  | some s => .ok s
  | none => .error (utf8Error 0 line).text

/-! ## Numbers -/

/-- `IntErrorKind`. -/
inductive ParseIntError where
  | empty
  | invalidDigit
  | posOverflow
  | negOverflow

/-- `Display` of `ParseIntError`. -/
def ParseIntError.text : ParseIntError → String
  | .empty => "cannot parse integer from empty string"
  | .invalidDigit => "invalid digit found in string"
  | .posOverflow => "number too large to fit in target type"
  | .negOverflow => "number too small to fit in target type"

def InI64 (n : Int) : Prop := -2 ^ 63 ≤ n ∧ n < 2 ^ 63

instance (n : Int) : Decidable (InI64 n) := inferInstanceAs (Decidable (_ ∧ _))

/-- The digit loop of `i64::from_str`: first the digit is checked, then
the multiplication, then the addition (or subtraction). -/
def accumulate (positive : Bool) : Int → Bytes → Except ParseIntError Int
  | acc, [] => .ok acc
  | acc, c :: cs =>
      if ¬ TextBytes.IsDigit c then .error .invalidDigit
      else
        let mul := acc * 10
        let next := if positive then mul + TextBytes.digitValue c else mul - TextBytes.digitValue c
        if InI64 mul ∧ InI64 next then accumulate positive next cs
        else .error (if positive then .posOverflow else .negOverflow)

/-- `str::parse::<i64>`: an optional sign, at least one digit. -/
def parseI64 : Bytes → Except ParseIntError Int64
  | [] => .error .empty
  | [43] => .error .invalidDigit
  | [45] => .error .invalidDigit
  | 43 :: digits => (accumulate true 0 digits).map Int64.ofInt
  | 45 :: digits => (accumulate false 0 digits).map Int64.ofInt
  | digits => (accumulate true 0 digits).map Int64.ofInt

/-! ## Values -/

/-- A line of text after the type byte. -/
def parseText (make : String → RespValue) (what : String) (buf : Bytes) : ParseResult :=
  match readLine buf 1 with
  | some (line, next) =>
      match fromUtf8 line with
      | .ok s => .complete (make s) next
      | .error e => .error ("invalid UTF-8 in " ++ what ++ ": " ++ e)
  | none => .incomplete

def parseSimpleString (buf : Bytes) : ParseResult :=
  parseText .simpleString "simple string" buf

def parseError (buf : Bytes) : ParseResult := parseText .error "error" buf

/-- A number line after the type byte: the number and the position after
the line, or the result that ends the parse. -/
def readNumber (what : String) (buf : Bytes) : Except ParseResult (Int64 × Nat) :=
  match readLine buf 1 with
  | some (line, next) =>
      match fromUtf8 line with
      | .ok s =>
          match parseI64 (bytesOf s) with
          | .ok n => .ok (n, next)
          | .error e => .error (.error ("invalid " ++ what ++ ": " ++ e.text))
      | .error e => .error (.error ("invalid UTF-8 in " ++ what ++ ": " ++ e))
  | none => .error .incomplete

def parseInteger (buf : Bytes) : ParseResult :=
  match readNumber "integer" buf with
  | .ok (n, next) => .complete (.integer n) next
  | .error result => result

def parseBulkString (buf : Bytes) : ParseResult :=
  match readNumber "bulk string length" buf with
  | .error result => result
  | .ok (len, afterLen) =>
      if len.toInt < 0 then .complete .null afterLen
      else
        let dataEnd := afterLen + len.toInt.toNat
        let totalEnd := dataEnd + 2
        if buf.length < totalEnd then .incomplete
        else if buf[dataEnd]? ≠ some 13 ∨ buf[dataEnd + 1]? ≠ some 10 then
          .error "bulk string not terminated by CRLF"
        else .complete (.bulkString ((buf.take dataEnd).drop afterLen)) totalEnd

/-- The element loop of `parse_array`, `left` elements to go. -/
def parseItems (parse : Bytes → Option ParseResult) (buf : Bytes) :
    Nat → Nat → List RespValue → Option ParseResult
  | 0, offset, items => some (.complete (.array items) offset)
  | left + 1, offset, items =>
      match parse (buf.drop offset) with
      | some (.complete value consumed) =>
          parseItems parse buf left (offset + consumed) (items ++ [value])
      | other => other

/-- `isize::MAX / size_of::<RespValue>()`. -/
def maxCapacity : Nat := 2 ^ 58 - 1

def parseArray (parse : Bytes → Option ParseResult) (buf : Bytes) : Option ParseResult :=
  match readNumber "array count" buf with
  | .error result => some result
  | .ok (count, afterCount) =>
      if count.toInt < 0 then some (.complete .null afterCount)
      -- `Vec::with_capacity(count)` panics
      else if maxCapacity < count.toInt.toNat then none
      else parseItems parse buf count.toInt.toNat afterCount []

/-- The body of `parse_resp`, the recursive call being `parse`. -/
def parseStep (parse : Bytes → Option ParseResult) (buf : Bytes) : Option ParseResult :=
  match buf with
  | [] => some .incomplete
  | 43 :: _ => some (parseSimpleString buf)
  | 45 :: _ => some (parseError buf)
  | 58 :: _ => some (parseInteger buf)
  | 36 :: _ => some (parseBulkString buf)
  | 42 :: _ => parseArray parse buf
  | b :: _ => some (.error ("unexpected byte: 0x" ++ String.ofList (hexDigits 2 b.toNat)))

def parseFuel : Nat → Bytes → Option ParseResult
  | 0, _ => some .incomplete
  | fuel + 1, buf => parseStep (parseFuel fuel) buf

/-- `parse_resp`; `none` when it panics. Every nested call is on a
shorter buffer, so the length is bound enough. -/
def parseResp (buf : Bytes) : Option ParseResult := parseFuel (buf.length + 1) buf

/-! ## Lines are cuts -/

theorem findCrlf_one (b : UInt8) (l : Bytes) :
    findCrlf (b :: l) 1 = (Delimited.cut 13 10 l).map fun p => 1 + p.1.length := by
  have hfind : (List.range' 1 ((b :: l).length - 1 - 1)).find?
      (fun i : Nat => (b :: l)[i]? = some 13 ∧ (b :: l)[i + 1]? = some 10)
        = (Delimited.cut 13 10 l).map fun p => 1 + p.1.length := by
    have hshift : ((fun i : Nat => decide ((b :: l)[i]? = some 13 ∧ (b :: l)[i + 1]? = some 10))
        ∘ fun i => 1 + i) = fun i => decide (l[i]? = some 13 ∧ l[i + 1]? = some 10) := by
      funext i
      simp [Nat.add_comm 1 i]
    rw [List.range'_eq_map_range, List.find?_map, hshift, List.length_cons,
      Nat.add_sub_cancel, Delimited.find?_range_eq_cut, Option.map_map]
    rfl
  rw [findCrlf, hfind]
  split_ifs with hshort
  · -- a buffer too short for a line has no position to search
    rw [← hfind, List.length_cons]
    rw [List.length_cons] at hshort
    have hzero : l.length + 1 - 1 - 1 = 0 := by omega
    rw [hzero]
    rfl
  · rfl

/-- **Reading a line cuts the rest of the buffer.** -/
theorem readLine_one (b : UInt8) (l : Bytes) :
    readLine (b :: l) 1
      = (Delimited.cut 13 10 l).map fun p => (p.1, p.1.length + 3) := by
  rw [readLine, findCrlf_one, Option.map_map]
  cases hcut : Delimited.cut 13 10 l with
  | none => rfl
  | some p =>
      obtain ⟨line, rest⟩ := p
      obtain ⟨hl, _⟩ := Delimited.eq_of_cut hcut
      simp only [Option.map_some, Function.comp_apply, Option.some.injEq, Prod.mk.injEq]
      refine ⟨?_, by omega⟩
      rw [hl, Nat.add_comm, List.take_succ_cons, List.drop_succ_cons, List.drop_zero,
        List.take_left]

/-! ## The equation of the source -/

/-- A number line ends behind the type byte and the line's own end, and
inside the buffer. -/
theorem readNumber_within {what : String} {buf : Bytes} {n : Int64} {next : Nat}
    (h : readNumber what buf = .ok (n, next)) : 3 ≤ next ∧ next ≤ buf.length := by
  cases buf with
  | nil => cases h
  | cons b l =>
      rw [readNumber, readLine_one] at h
      cases hcut : Delimited.cut 13 10 l with
      | none =>
          rw [hcut] at h
          cases h
      | some p =>
          obtain ⟨hl, _⟩ := Delimited.eq_of_cut hcut
          rw [hcut] at h
          dsimp only [Option.map_some] at h
          split at h
          · split at h
            · cases h
              rw [hl, List.length_cons, List.length_append, List.length_cons, List.length_cons]
              omega
            · cases h
          · cases h

/-- A number line that cannot be read ends the parse without a value. -/
theorem not_complete_of_readNumber {what : String} {buf : Bytes} {result : ParseResult}
    (h : readNumber what buf = .error result) : result = .incomplete ∨ ∃ e, result = .error e := by
  rw [readNumber] at h
  split at h
  · split at h
    · split at h
      · cases h
      · cases h
        exact .inr ⟨_, rfl⟩
    · cases h
      exact .inr ⟨_, rfl⟩
  · cases h
    exact .inl rfl

theorem parseItems_congr {p q : Bytes → Option ParseResult} {buf : Bytes} {left offset : Nat}
    {items : List RespValue} (h : ∀ k, offset ≤ k → p (buf.drop k) = q (buf.drop k)) :
    parseItems p buf left offset items = parseItems q buf left offset items := by
  induction left generalizing offset items with
  | zero => rfl
  | succ left ih =>
      rw [parseItems, parseItems, h offset (Nat.le_refl _)]
      split
      · exact ih fun k hk => h k (by omega)
      · rfl

/-- The body only calls itself on buffers three bytes shorter: the type
byte and the end of the count line are gone. -/
theorem parseStep_congr {p q : Bytes → Option ParseResult} {buf : Bytes}
    (h : ∀ b : Bytes, b.length + 3 ≤ buf.length → p b = q b) :
    parseStep p buf = parseStep q buf := by
  unfold parseStep
  split
  case h_6 =>
    rename_i l
    rw [parseArray, parseArray]
    cases hnum : readNumber "array count" (42 :: l) with
    | error result => rfl
    | ok out =>
        obtain ⟨count, afterCount⟩ := out
        have hafter := readNumber_within hnum
        dsimp only
        rw [parseItems_congr fun k hk => h _ ?_]
        rw [List.length_drop]
        omega
  all_goals rfl

theorem parseFuel_eq_iterate (fuel : Nat) :
    parseFuel fuel = parseStep^[fuel] fun _ => some .incomplete := by
  induction fuel with
  | zero => rfl
  | succ fuel ih =>
      rw [Function.iterate_succ_apply', ← ih]
      rfl

/-- Enough fuel is enough. -/
theorem parseFuel_eq {fuel fuel' : Nat} {buf : Bytes} (h : buf.length < fuel)
    (h' : buf.length < fuel') : parseFuel fuel buf = parseFuel fuel' buf := by
  have hshrinks : ∀ b : Bytes, Unfold.Shrinks List.length parseStep b :=
    fun b p q hpq => parseStep_congr fun c hc => hpq c (by omega)
  rw [parseFuel_eq_iterate, parseFuel_eq_iterate]
  exact Unfold.iterate_eq_iterate (fun b _ => hshrinks b) _ _ h h'

/-- **`parse_resp` as the source writes it.** -/
theorem parseResp_eq (buf : Bytes) : parseResp buf = parseStep parseResp buf := by
  rw [parseResp, parseFuel]
  apply parseStep_congr
  intro b hb
  exact parseFuel_eq (by omega) (Nat.lt_succ_self _)

end SelfHealingCache
