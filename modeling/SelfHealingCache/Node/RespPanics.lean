import SelfHealingCache.Lib.Checked
import SelfHealingCache.Node.RespGrammar

/-!
# Where the RESP parser panics

`crates/node/src/resp/parser.rs` once more, with every index, every
slice, every `usize` sum and the allocation of `parse_array` written as
the operation that may panic. On buffers that exist none of the indices,
slices and sums does; the one panic left is the allocation, whose size is
the count line of an array, read before any element is.
-/

namespace SelfHealingCache

open Checked

/-! ## The parser, every operation checked -/

/-- The loop of `find_crlf`, `left` positions to go from `i`; the second
byte is looked at only behind a `\r`. -/
def scanCrlfChecked (buf : Bytes) : Nat → Nat → Except Panic (Option Nat)
  | 0, _ => pure none
  | left + 1, i => do
      let first ← index buf i
      if first = 13 then
        let j ← add i 1
        let second ← index buf j
        if second = 10 then pure (some i) else scanCrlfChecked buf left (i + 1)
      else scanCrlfChecked buf left (i + 1)

def findCrlfChecked (buf : Bytes) (offset : Nat) : Except Panic (Option Nat) := do
  let least ← add offset 2
  if buf.length < least then pure none
  else
    let last ← sub buf.length 1
    scanCrlfChecked buf (last - offset) offset

def readLineChecked (buf : Bytes) (offset : Nat) : Except Panic (Option (Bytes × Nat)) := do
  match ← findCrlfChecked buf offset with
  | none => pure none
  | some cr =>
      let line ← slice buf offset cr
      let next ← add cr 2
      pure (some (line, next))

def parseTextChecked (make : String → RespValue) (what : String) (buf : Bytes) :
    Except Panic ParseResult := do
  match ← readLineChecked buf 1 with
  | some (line, next) =>
      match fromUtf8 line with
      | .ok s => pure (.complete (make s) next)
      | .error e => pure (.error ("invalid UTF-8 in " ++ what ++ ": " ++ e))
  | none => pure .incomplete

def readNumberChecked (what : String) (buf : Bytes) :
    Except Panic (Except ParseResult (Int64 × Nat)) := do
  match ← readLineChecked buf 1 with
  | some (line, next) =>
      match fromUtf8 line with
      | .ok s =>
          match parseI64 (bytesOf s) with
          | .ok n => pure (.ok (n, next))
          | .error e => pure (.error (.error ("invalid " ++ what ++ ": " ++ e.text)))
      | .error e => pure (.error (.error ("invalid UTF-8 in " ++ what ++ ": " ++ e)))
  | none => pure (.error .incomplete)

def parseIntegerChecked (buf : Bytes) : Except Panic ParseResult := do
  match ← readNumberChecked "integer" buf with
  | .ok (n, next) => pure (.complete (.integer n) next)
  | .error result => pure result

def parseBulkStringChecked (buf : Bytes) : Except Panic ParseResult := do
  match ← readNumberChecked "bulk string length" buf with
  | .error result => pure result
  | .ok (len, afterLen) =>
      if len.toInt < 0 then pure (.complete .null afterLen)
      else
        let dataEnd ← add afterLen len.toInt.toNat
        let totalEnd ← add dataEnd 2
        if buf.length < totalEnd then pure .incomplete
        else
          -- `buf[data_end] != b'\r' || buf[data_end + 1] != b'\n'`
          let first ← index buf dataEnd
          if first ≠ 13 then pure (.error "bulk string not terminated by CRLF")
          else
            let next ← add dataEnd 1
            let second ← index buf next
            if second ≠ 10 then pure (.error "bulk string not terminated by CRLF")
            else
              let data ← slice buf afterLen dataEnd
              pure (.complete (.bulkString data) totalEnd)

/-- The element loop of `parse_array`, `left` elements to go. -/
def parseItemsChecked (parse : Bytes → Except Panic ParseResult) (buf : Bytes) :
    Nat → Nat → List RespValue → Except Panic ParseResult
  | 0, offset, items => pure (.complete (.array items) offset)
  | left + 1, offset, items => do
      let suffix ← sliceFrom buf offset
      match ← parse suffix with
      | .complete value consumed =>
          let offset ← add offset consumed
          parseItemsChecked parse buf left offset (items ++ [value])
      | .incomplete => pure .incomplete
      | .error e => pure (.error e)

def parseArrayChecked (size : Nat) (parse : Bytes → Except Panic ParseResult) (buf : Bytes) :
    Except Panic ParseResult := do
  match ← readNumberChecked "array count" buf with
  | .error result => pure result
  | .ok (count, afterCount) =>
      if count.toInt < 0 then pure (.complete .null afterCount)
      else
        withCapacity size count.toInt.toNat
        parseItemsChecked parse buf count.toInt.toNat afterCount []

/-- The body of `parse_resp`, the recursive call being `parse`. -/
def parseStepChecked (size : Nat) (parse : Bytes → Except Panic ParseResult) (buf : Bytes) :
    Except Panic ParseResult := do
  if buf.isEmpty then pure .incomplete
  else
    let first ← index buf 0
    if first = 43 then parseTextChecked .simpleString "simple string" buf
    else if first = 45 then parseTextChecked .error "error" buf
    else if first = 58 then parseIntegerChecked buf
    else if first = 36 then parseBulkStringChecked buf
    else if first = 42 then parseArrayChecked size parse buf
    else pure (.error ("unexpected byte: 0x" ++ String.ofList (hexDigits 2 first.toNat)))

def parseFuelChecked (size : Nat) : Nat → Bytes → Except Panic ParseResult
  | 0, _ => pure .incomplete
  | fuel + 1, buf => parseStepChecked size (parseFuelChecked size fuel) buf

/-- `parse_resp` with its panics; a `RespValue` has `size` bytes. Every
nested call is on a shorter buffer, so the length is bound enough. -/
def parseRespChecked (size : Nat) (buf : Bytes) : Except Panic ParseResult :=
  parseFuelChecked size (buf.length + 1) buf

/-! ## Lines -/

theorem findCrlf_bounds {buf : Bytes} {offset cr : Nat} (h : findCrlf buf offset = some cr) :
    offset ≤ cr ∧ cr + 2 ≤ buf.length := by
  rw [findCrlf] at h
  split_ifs at h with hshort
  have hmem := List.mem_of_find?_eq_some h
  rw [List.mem_range'_1] at hmem
  omega

theorem scanCrlfChecked_eq {buf : Bytes} (hlen : buf.length < 2 ^ 64) {left i : Nat}
    (h : i + left < buf.length) :
    scanCrlfChecked buf left i
      = .ok ((List.range' i left).find? fun i => buf[i]? = some 13 ∧ buf[i + 1]? = some 10) := by
  induction left generalizing i with
  | zero => rfl
  | succ left ih =>
      have hfirst := List.getElem?_eq_getElem (l := buf) (i := i) (by omega)
      have hsecond := List.getElem?_eq_getElem (l := buf) (i := i + 1) (by omega)
      rw [scanCrlfChecked, index_eq_ok hfirst, ok_bind, add_eq_ok (by omega), ok_bind,
        index_eq_ok hsecond, ok_bind, List.range'_succ, List.find?_cons, hfirst, hsecond,
        ih (by omega)]
      by_cases hcr : buf[i] = 13
      · by_cases hlf : buf[i + 1] = 10
        · simp [hcr, hlf]
        · simp [hcr, hlf]
      · simp [hcr]

theorem findCrlfChecked_eq {buf : Bytes} (hlen : buf.length < 2 ^ 64) {offset : Nat}
    (hsum : offset + 2 < 2 ^ 64) :
    findCrlfChecked buf offset = .ok (findCrlf buf offset) := by
  rw [findCrlfChecked, findCrlf, add_eq_ok hsum, ok_bind]
  split_ifs with hshort
  · rfl
  · rw [sub_eq_ok (by omega), ok_bind]
    exact scanCrlfChecked_eq hlen (by omega)

section Small

variable {buf : Bytes} (hlen : buf.length < 2 ^ 58)
include hlen

theorem readLineChecked_eq (hne : buf ≠ []) :
    readLineChecked buf 1 = .ok (readLine buf 1) := by
  have hpos := List.length_pos_iff.mpr hne
  rw [readLineChecked, readLine, findCrlfChecked_eq (by omega) (by omega), ok_bind]
  cases hcr : findCrlf buf 1 with
  | none => rfl
  | some cr =>
      obtain ⟨hle, hend⟩ := findCrlf_bounds hcr
      dsimp only
      rw [slice_eq_ok hle (by omega), add_eq_ok (by omega)]
      rfl

theorem parseTextChecked_eq (hne : buf ≠ []) (make : String → RespValue) (what : String) :
    parseTextChecked make what buf = .ok (parseText make what buf) := by
  rw [parseTextChecked, parseText, readLineChecked_eq hlen hne, ok_bind]
  cases readLine buf 1 with
  | none => rfl
  | some out =>
      obtain ⟨line, next⟩ := out
      dsimp only
      cases fromUtf8 line with
      | error e => rfl
      | ok s => rfl

theorem readNumberChecked_eq (hne : buf ≠ []) (what : String) :
    readNumberChecked what buf = .ok (readNumber what buf) := by
  rw [readNumberChecked, readNumber, readLineChecked_eq hlen hne, ok_bind]
  cases readLine buf 1 with
  | none => rfl
  | some out =>
      obtain ⟨line, next⟩ := out
      dsimp only
      cases fromUtf8 line with
      | error e => rfl
      | ok s =>
          dsimp only
          cases parseI64 (bytesOf s) with
          | error e => rfl
          | ok n => rfl

theorem parseIntegerChecked_eq (hne : buf ≠ []) :
    parseIntegerChecked buf = .ok (parseInteger buf) := by
  rw [parseIntegerChecked, parseInteger, readNumberChecked_eq hlen hne, ok_bind]
  cases readNumber "integer" buf with
  | error result => rfl
  | ok out => rfl

/-- **The sums of `parse_bulk_string` fit.** The announced length is below
`2 ^ 63` and the buffer far below it, so `data_end` and `total_end` are
formed without overflow whatever the client announces; the length check
stands before every access. -/
theorem parseBulkStringChecked_eq (hne : buf ≠ []) :
    parseBulkStringChecked buf = .ok (parseBulkString buf) := by
  rw [parseBulkStringChecked, parseBulkString, readNumberChecked_eq hlen hne, ok_bind]
  cases hnum : readNumber "bulk string length" buf with
  | error result => rfl
  | ok out =>
      obtain ⟨len, afterLen⟩ := out
      have hafter := (readNumber_within hnum).2
      have hmax := len.toInt_lt
      dsimp only
      split_ifs with hneg hshort hend
      · rfl
      · rw [add_eq_ok (by omega), ok_bind, add_eq_ok (by omega), ok_bind, if_pos hshort]
        rfl
      all_goals
        have hfirst := List.getElem?_eq_getElem (l := buf) (i := afterLen + len.toInt.toNat)
          (by omega)
        have hsecond := List.getElem?_eq_getElem (l := buf) (i := afterLen + len.toInt.toNat + 1)
          (by omega)
        simp only [hfirst, hsecond, ne_eq, Option.some.injEq] at hend
        rw [add_eq_ok (by omega), ok_bind, add_eq_ok (by omega), ok_bind, if_neg hshort,
          index_eq_ok hfirst, ok_bind, add_eq_ok (by omega), ok_bind, index_eq_ok hsecond,
          ok_bind, slice_eq_ok (by omega) (by omega), ok_bind]
      · rcases hend with hcr | hlf
        · rw [if_pos hcr]
          rfl
        · rw [if_pos hlf, ite_self]
          rfl
      · rw [not_or] at hend
        rw [if_neg hend.1, if_neg hend.2]
        rfl

/-- What is not an array is parsed without a panic. -/
theorem parseStepChecked_scalar (size : Nat) (h : buf.head? ≠ some 42)
    (parse : Bytes → Except Panic ParseResult) (p : Bytes → Option ParseResult) :
    ∃ r, parseStepChecked size parse buf = .ok r ∧ parseStep p buf = some r := by
  unfold parseStep
  split
  · exact ⟨_, rfl, rfl⟩
  · exact ⟨_, parseTextChecked_eq hlen (List.cons_ne_nil _ _) _ _, rfl⟩
  · exact ⟨_, parseTextChecked_eq hlen (List.cons_ne_nil _ _) _ _, rfl⟩
  · exact ⟨_, parseIntegerChecked_eq hlen (List.cons_ne_nil _ _), rfl⟩
  · exact ⟨_, parseBulkStringChecked_eq hlen (List.cons_ne_nil _ _), rfl⟩
  · exact absurd rfl h
  · rename_i b l hplus hminus hcolon hdollar hstar
    refine ⟨_, ?_, rfl⟩
    rw [parseStepChecked, if_neg (by simp), index_eq_ok (a := b) rfl, ok_bind, if_neg, if_neg,
      if_neg, if_neg, if_neg]
    · rfl
    all_goals
      rintro rfl
      simp at *

end Small

/-! ## The equation of the source -/

theorem parseStepChecked_array (size : Nat) (parse : Bytes → Except Panic ParseResult)
    (l : Bytes) :
    parseStepChecked size parse (42 :: l) = parseArrayChecked size parse (42 :: l) := rfl

theorem parseItemsChecked_congr {p q : Bytes → Except Panic ParseResult} {buf : Bytes}
    {left offset : Nat} {items : List RespValue}
    (h : ∀ k, offset ≤ k → p (buf.drop k) = q (buf.drop k)) :
    parseItemsChecked p buf left offset items = parseItemsChecked q buf left offset items := by
  induction left generalizing offset items with
  | zero => rfl
  | succ left ih =>
      rw [parseItemsChecked, parseItemsChecked, sliceFrom]
      split_ifs with hin
      · rw [ok_bind, ok_bind, h offset (Nat.le_refl _)]
        cases q (buf.drop offset) with
        | error p => rfl
        | ok r =>
            rw [ok_bind, ok_bind]
            cases r with
            | complete value consumed =>
                dsimp only
                rw [add]
                split_ifs with hsum
                · exact ih fun k hk => h k (by omega)
                · rfl
            | incomplete => rfl
            | error e => rfl
      · rfl

theorem parseStepChecked_congr {size : Nat} {p q : Bytes → Except Panic ParseResult}
    {buf : Bytes} (hlen : buf.length < 2 ^ 58)
    (h : ∀ b : Bytes, b.length < buf.length → p b = q b) :
    parseStepChecked size p buf = parseStepChecked size q buf := by
  by_cases hhead : buf.head? = some 42
  · obtain ⟨l, rfl⟩ := List.head?_eq_some_iff.mp hhead
    rw [parseStepChecked_array, parseStepChecked_array, parseArrayChecked, parseArrayChecked,
      readNumberChecked_eq hlen (List.cons_ne_nil _ _), ok_bind, ok_bind]
    cases hnum : readNumber "array count" (42 :: l) with
    | error result => rfl
    | ok out =>
        obtain ⟨count, afterCount⟩ := out
        have hafter := (readNumber_within hnum).1
        dsimp only
        rw [parseItemsChecked_congr fun k hk => h _ ?_]
        rw [List.length_drop, List.length_cons]
        omega
  · obtain ⟨r, hp, hr⟩ := parseStepChecked_scalar hlen size hhead p fun _ => none
    obtain ⟨r', hq, hr'⟩ := parseStepChecked_scalar hlen size hhead q fun _ => none
    rw [hp, hq, Option.some.inj (hr.symm.trans hr')]

theorem parseFuelChecked_eq_iterate (size fuel : Nat) :
    parseFuelChecked size fuel = (parseStepChecked size)^[fuel] fun _ => .ok .incomplete := by
  induction fuel with
  | zero => rfl
  | succ fuel ih =>
      rw [Function.iterate_succ_apply', ← ih]
      rfl

theorem parseFuelChecked_eq {size fuel fuel' : Nat} {buf : Bytes} (hlen : buf.length < 2 ^ 58)
    (h : buf.length < fuel) (h' : buf.length < fuel') :
    parseFuelChecked size fuel buf = parseFuelChecked size fuel' buf := by
  have hshrinks : ∀ b : Bytes, b.length ≤ buf.length →
      Unfold.Shrinks List.length (parseStepChecked size) b :=
    fun b hb p q hpq => parseStepChecked_congr (by omega) hpq
  rw [parseFuelChecked_eq_iterate, parseFuelChecked_eq_iterate]
  exact Unfold.iterate_eq_iterate hshrinks _ _ h h'

/-- **`parse_resp` as the source writes it.** -/
theorem parseRespChecked_eq (size : Nat) {buf : Bytes} (hlen : buf.length < 2 ^ 58) :
    parseRespChecked size buf = parseStepChecked size (parseRespChecked size) buf := by
  rw [parseRespChecked, parseFuelChecked]
  apply parseStepChecked_congr hlen
  intro b hb
  exact parseFuelChecked_eq (by omega) hb (Nat.lt_succ_self _)

/-- An array behind its count line. -/
theorem parseRespChecked_array {size : Nat} {l : Bytes} (hlen : (42 :: l).length < 2 ^ 58)
    {count : Int64} {afterCount : Nat}
    (hnum : readNumber "array count" (42 :: l) = .ok (count, afterCount))
    (hcount : 0 ≤ count.toInt) :
    parseRespChecked size (42 :: l) = (do
      withCapacity size count.toInt.toNat
      parseItemsChecked (parseRespChecked size) (42 :: l) count.toInt.toNat afterCount []) := by
  rw [parseRespChecked_eq size hlen, parseStepChecked_array, parseArrayChecked,
    readNumberChecked_eq hlen (List.cons_ne_nil _ _), ok_bind, hnum]
  dsimp only
  rw [if_neg (by omega)]

/-! ## The two parsers agree -/

/-- The checked parser's answer is the parser's own, or the parser gives
up on a count that is not backed by elements. -/
def Agrees (buf : Bytes) (r : ParseResult) : Prop :=
  parseResp buf = some r ∨ (parseResp buf = none ∧ ∀ v n, r ≠ .complete v n)

theorem consumed_of_agrees {buf : Bytes} {v : RespValue} {n : Nat}
    (h : Agrees buf (.complete v n)) :
    parseResp buf = some (.complete v n) ∧ 3 ≤ n ∧ n ≤ buf.length := by
  rcases h with hsome | ⟨_, hnot⟩
  · exact ⟨hsome, consumed_within hsome⟩
  · exact absurd rfl (hnot v n)

/-- The element loop stops at an answer that is no value. -/
theorem parseItems_stops {buf : Bytes} {left offset bound : Nat} {items : List RespValue}
    {r : ParseResult} (h : Agrees (buf.drop offset) r) (hnot : ∀ v n, r ≠ .complete v n) :
    (parseItems parseResp buf (left + 1) offset items = some r
        ∧ ∀ v n, r = .complete v n → bound ≤ n ∧ n ≤ buf.length)
      ∨ (parseItems parseResp buf (left + 1) offset items = none
        ∧ ∀ v n, r ≠ .complete v n) := by
  rw [parseItems]
  rcases h with hsome | ⟨hnone, _⟩
  · rw [hsome]
    refine .inl ⟨?_, fun v n heq => absurd heq (hnot v n)⟩
    cases r with
    | complete value consumed => exact absurd rfl (hnot value consumed)
    | incomplete => rfl
    | error e => rfl
  · rw [hnone]
    exact .inr ⟨rfl, hnot⟩

theorem parseItems_agrees {size : Nat} {buf : Bytes} {left offset : Nat}
    {items : List RespValue} {r : ParseResult} (hoffset : offset ≤ buf.length)
    (hparse : ∀ k, offset ≤ k → ∀ r, parseRespChecked size (buf.drop k) = .ok r →
      Agrees (buf.drop k) r)
    (h : parseItemsChecked (parseRespChecked size) buf left offset items = .ok r) :
    (parseItems parseResp buf left offset items = some r
        ∧ ∀ v n, r = .complete v n → offset + left ≤ n ∧ n ≤ buf.length)
      ∨ (parseItems parseResp buf left offset items = none ∧ ∀ v n, r ≠ .complete v n) := by
  induction left generalizing offset items with
  | zero =>
      cases h
      refine .inl ⟨rfl, ?_⟩
      intro v n heq
      cases heq
      exact ⟨Nat.le_refl _, hoffset⟩
  | succ left ih =>
      rw [parseItemsChecked, sliceFrom_eq_ok hoffset, ok_bind] at h
      obtain ⟨x, hx, h⟩ := bind_eq_ok_iff.mp h
      have hagrees := hparse offset (Nat.le_refl _) x hx
      cases x with
      | complete value consumed =>
          obtain ⟨hsome, hpos, hle⟩ := consumed_of_agrees hagrees
          rw [List.length_drop] at hle
          obtain ⟨next, hnext, h⟩ := bind_eq_ok_iff.mp h
          rw [add] at hnext
          split_ifs at hnext
          cases hnext
          rw [parseItems, hsome]
          rcases ih (by omega) (fun k hk => hparse k (by omega)) h with ⟨hitems, hbound⟩ | hnone
          · refine .inl ⟨hitems, ?_⟩
            intro v n heq
            have hn := hbound v n heq
            omega
          · exact .inr hnone
      | incomplete =>
          cases h
          exact parseItems_stops hagrees (by simp)
      | error e =>
          cases h
          exact parseItems_stops hagrees (by simp)

/-- Both parsers answer alike, unless the buffer begins with an array that
announces elements. -/
theorem checked_cases (size : Nat) {buf : Bytes} (hlen : buf.length < 2 ^ 58) :
    (∃ r, parseRespChecked size buf = .ok r ∧ parseResp buf = some r)
    ∨ ∃ l count afterCount, buf = 42 :: l
      ∧ readNumber "array count" (42 :: l) = .ok (count, afterCount) ∧ 0 ≤ count.toInt := by
  by_cases hhead : buf.head? = some 42
  · obtain ⟨l, rfl⟩ := List.head?_eq_some_iff.mp hhead
    have hparse : parseResp (42 :: l) = parseArray parseResp (42 :: l) := parseResp_eq _
    have hchecked : parseRespChecked size (42 :: l)
        = parseArrayChecked size (parseRespChecked size) (42 :: l) := by
      rw [parseRespChecked_eq size hlen, parseStepChecked_array]
    rw [hchecked, hparse, parseArrayChecked, parseArray,
      readNumberChecked_eq hlen (List.cons_ne_nil _ _), ok_bind]
    cases hnum : readNumber "array count" (42 :: l) with
    | error result => exact .inl ⟨result, rfl, rfl⟩
    | ok out =>
        obtain ⟨count, afterCount⟩ := out
        by_cases hneg : count.toInt < 0
        · left
          dsimp only
          rw [if_pos hneg, if_pos hneg]
          exact ⟨_, rfl, rfl⟩
        · exact .inr ⟨l, count, afterCount, rfl, hnum, by omega⟩
  · obtain ⟨r, hr, hsome⟩ :=
      parseStepChecked_scalar hlen size hhead (parseRespChecked size) parseResp
    rw [← parseRespChecked_eq size hlen] at hr
    rw [← parseResp_eq] at hsome
    exact .inl ⟨r, hr, hsome⟩

/-- **The checked parser and the parser agree.** They bound the count of
an array differently, so one may give up where the other goes on; but then
there are fewer bytes than announced elements, and the answer is no
value. -/
theorem checked_agrees {size : Nat} {buf : Bytes} (hlen : buf.length < 2 ^ 58) {r : ParseResult}
    (h : parseRespChecked size buf = .ok r) : Agrees buf r := by
  induction hsize : buf.length using Nat.strongRecOn generalizing buf r with
  | ind length ih =>
      rcases checked_cases size hlen with ⟨x, hx, hsome⟩ | ⟨l, count, afterCount, rfl, hnum, hcount⟩
      · rw [hx] at h
        cases h
        exact .inl hsome
      · obtain ⟨hafter, hwithin⟩ := readNumber_within hnum
        rw [parseRespChecked_array hlen hnum hcount] at h
        obtain ⟨_, _, h⟩ := bind_eq_ok_iff.mp h
        have hitems := parseItems_agrees hwithin (fun k hk r hr => ih _ (by
          rw [List.length_drop]
          omega) (by
          rw [List.length_drop]
          omega) hr rfl) h
        have hparse : parseResp (42 :: l) = parseArray parseResp (42 :: l) := parseResp_eq _
        rw [Agrees, hparse, parseArray, hnum]
        dsimp only
        rw [if_neg (Int.not_lt.mpr hcount)]
        split_ifs with hcapacity
        · refine .inr ⟨rfl, ?_⟩
          rcases hitems with ⟨_, hbound⟩ | ⟨_, hnot⟩
          · intro v n heq
            have hn := hbound v n heq
            rw [maxCapacity] at hcapacity
            omega
          · exact hnot
        · rcases hitems with ⟨hsome, _⟩ | hnone
          · exact .inl hsome
          · exact .inr hnone

/-- A word at the head of the buffer is what the checked parser returns,
if it returns. -/
theorem checked_of_word {size : Nat} {w more : Bytes} {v : RespValue} {r : ParseResult}
    (hlen : (w ++ more).length < 2 ^ 58) (hword : Word w v)
    (h : parseRespChecked size (w ++ more) = .ok r) : r = .complete v w.length := by
  have hbound : w.length ≤ maxCapacity := by
    rw [List.length_append] at hlen
    rw [maxCapacity]
    omega
  have hparse := parseResp_of_word hword (.inl hbound) more
  rcases checked_agrees hlen h with hsome | ⟨hnone, _⟩
  · exact (Option.some.inj (hparse.symm.trans hsome)).symm
  · rw [hparse] at hnone
    cases hnone

/-! ## The counts a buffer announces -/

/-- `Announces buf n`: parsing `buf` from the front, one comes to an array
with the count `n`. It stands at the head, or behind fewer complete
elements than the array around it has announced. -/
inductive Announces : Bytes → Int64 → Prop where
  | here {text rest : Bytes} {n : Int64} (hlex : Lexeme text n.toInt) :
      Announces (42 :: (text ++ crlf) ++ rest) n
  | inside {text body tail : Bytes} {n m : Int64} {items : List RespValue}
      (hlex : Lexeme text n.toInt) (hitems : Words body items) (hleft : items.length < n.toInt)
      (htail : Announces tail m) : Announces (42 :: (text ++ crlf) ++ (body ++ tail)) m

/-- Every announced count can be allocated, elements having `size`
bytes. -/
def CountsFit (size : Nat) (buf : Bytes) : Prop :=
  ∀ n, Announces buf n → n.toInt.toNat * size ≤ maxBytes

/-- A panic in the element loop comes from a count behind some of the
elements. -/
theorem parseItemsChecked_error {size : Nat} {buf : Bytes} (hlen : buf.length < 2 ^ 58)
    {left offset : Nat} {items : List RespValue} {p : Panic} (hoffset : offset ≤ buf.length)
    (hparse : ∀ k, offset ≤ k → ∀ p, parseRespChecked size (buf.drop k) = .error p →
      p = .capacity ∧ ∃ n, Announces (buf.drop k) n ∧ ¬ n.toInt.toNat * size ≤ maxBytes)
    (h : parseItemsChecked (parseRespChecked size) buf left offset items = .error p) :
    p = .capacity ∧ ∃ body vs tail n, buf.drop offset = body ++ tail ∧ Words body vs
      ∧ vs.length < left ∧ Announces tail n ∧ ¬ n.toInt.toNat * size ≤ maxBytes := by
  induction left generalizing offset items with
  | zero => cases h
  | succ left ih =>
      rw [parseItemsChecked, sliceFrom_eq_ok hoffset, ok_bind] at h
      cases hone : parseRespChecked size (buf.drop offset) with
      | error q =>
          obtain ⟨hcapacity, n, hn, hfits⟩ := hparse offset (Nat.le_refl _) q hone
          rw [hone] at h
          cases h
          exact ⟨hcapacity, [], [], _, n, rfl, .nil, Nat.succ_pos _, hn, hfits⟩
      | ok r =>
          rw [hone, ok_bind] at h
          cases r with
          | incomplete => cases h
          | error e => cases h
          | complete value consumed =>
              have hsuffix : (buf.drop offset).length < 2 ^ 58 := by
                rw [List.length_drop]
                omega
              obtain ⟨hsome, _, hle⟩ := consumed_of_agrees (checked_agrees hsuffix hone)
              obtain ⟨w, rest, hdrop, rfl, hword⟩ := word_of_parseResp hsome
              rw [List.length_drop] at hle
              dsimp only at h
              rw [add_eq_ok (by omega), ok_bind] at h
              obtain ⟨hcapacity, body, vs, tail, n, hbody, hwords, hvs, hn, hfits⟩ :=
                ih (by omega) (fun k hk => hparse k (by omega)) h
              have hrest : rest = body ++ tail := by
                rw [← hbody, ← List.drop_drop, hdrop, List.drop_left]
              refine ⟨hcapacity, w ++ body, value :: vs, tail, n, ?_, .cons hword hwords, ?_, hn,
                hfits⟩
              · rw [hdrop, hrest, List.append_assoc]
              · rw [List.length_cons]
                omega

/-- **The only panic is the allocation**, for an announced count that is
too large. -/
theorem parseRespChecked_error {size : Nat} {buf : Bytes} (hlen : buf.length < 2 ^ 58)
    {p : Panic} (h : parseRespChecked size buf = .error p) :
    p = .capacity ∧ ∃ n, Announces buf n ∧ ¬ n.toInt.toNat * size ≤ maxBytes := by
  induction hsize : buf.length using Nat.strongRecOn generalizing buf p with
  | ind length ih =>
      rcases checked_cases size hlen with ⟨x, hx, _⟩ | ⟨l, count, afterCount, rfl, hnum, hcount⟩
      · rw [hx] at h
        cases h
      · obtain ⟨hafter, hwithin⟩ := readNumber_within hnum
        rw [parseRespChecked_array hlen hnum hcount] at h
        obtain ⟨text, rest, rfl, hlex, rfl⟩ := readNumber_eq_ok_iff.mp hnum
        by_cases hfits : count.toInt.toNat * size ≤ maxBytes
        · rw [withCapacity_eq_ok hfits, ok_bind] at h
          obtain ⟨hcapacity, body, vs, tail, n, hbody, hwords, hvs, hn, hover⟩ :=
            parseItemsChecked_error hlen hwithin (fun k hk q hq => ih _ (by
              rw [List.length_drop]
              omega) (by
              rw [List.length_drop]
              omega) hq rfl) h
          rw [word_split, ← length_line 42 text, List.drop_left] at hbody
          rw [word_split, hbody]
          exact ⟨hcapacity, n, .inside hlex hwords (by omega) hn, hover⟩
        · rw [withCapacity_eq_error hfits] at h
          cases h
          rw [word_split]
          exact ⟨rfl, count, .here hlex, hfits⟩

/-- The element loop gets through complete elements, to the next one. -/
theorem parseItemsChecked_reaches {size : Nat} {pre body tail : Bytes} {vs items : List RespValue}
    {left : Nat} {r : ParseResult} (hlen : (pre ++ (body ++ tail)).length < 2 ^ 58)
    (hwords : Words body vs) (hvs : vs.length < left)
    (h : parseItemsChecked (parseRespChecked size) (pre ++ (body ++ tail)) left pre.length items
      = .ok r) :
    ∃ r', parseRespChecked size tail = .ok r' := by
  induction vs generalizing pre body items left with
  | nil =>
      cases hwords
      obtain ⟨left, rfl⟩ := Nat.exists_eq_succ_of_ne_zero (Nat.ne_of_gt hvs)
      rw [parseItemsChecked, sliceFrom_eq_ok (by simp), ok_bind, List.drop_left,
        List.nil_append] at h
      obtain ⟨x, hx, _⟩ := bind_eq_ok_iff.mp h
      exact ⟨x, hx⟩
  | cons v vs ih =>
      cases hwords with
      | @cons w body _ _ hword hrest =>
          obtain ⟨left, rfl⟩ := Nat.exists_eq_succ_of_ne_zero (Nat.ne_of_gt (Nat.zero_lt_of_lt hvs))
          rw [parseItemsChecked, sliceFrom_eq_ok (by simp), ok_bind, List.drop_left,
            List.append_assoc] at h
          obtain ⟨x, hx, h⟩ := bind_eq_ok_iff.mp h
          have hsuffix : (w ++ (body ++ tail)).length < 2 ^ 58 := by
            simp only [List.length_append] at hlen ⊢
            omega
          obtain rfl := checked_of_word hsuffix hword hx
          obtain ⟨next, hnext, h⟩ := bind_eq_ok_iff.mp h
          rw [add] at hnext
          split_ifs at hnext
          cases hnext
          rw [← List.length_append, ← List.append_assoc] at h
          refine ih ?_ hrest (Nat.lt_of_succ_lt_succ hvs) h
          simpa only [List.append_assoc] using hlen

/-- A parse that returns has allocated every announced count. -/
theorem fits_of_announces {size : Nat} {buf : Bytes} {n : Int64} (hn : Announces buf n)
    (hlen : buf.length < 2 ^ 58) {r : ParseResult} (h : parseRespChecked size buf = .ok r) :
    n.toInt.toNat * size ≤ maxBytes := by
  induction hn generalizing r with
  | @here text rest n hlex =>
      by_cases hneg : n.toInt < 0
      · have hzero : n.toInt.toNat = 0 := by omega
        rw [hzero, Nat.zero_mul]
        exact Nat.zero_le _
      · rw [← word_split] at h hlen
        rw [parseRespChecked_array hlen
          (readNumber_eq_ok_iff.mpr ⟨text, rest, rfl, hlex, rfl⟩) (by omega)] at h
        by_contra hover
        rw [withCapacity_eq_error hover] at h
        cases h
  | @inside text body tail n m items hlex hitems hleft htail ih =>
      have hnum : readNumber "array count" (42 :: (text ++ 13 :: 10 :: (body ++ tail)))
          = .ok (n, text.length + 3) :=
        readNumber_eq_ok_iff.mpr ⟨text, body ++ tail, rfl, hlex, rfl⟩
      rw [← word_split] at h hlen
      rw [parseRespChecked_array hlen hnum (by omega)] at h
      obtain ⟨_, _, h⟩ := bind_eq_ok_iff.mp h
      rw [word_split] at hlen h
      rw [← length_line 42 text] at h
      obtain ⟨r', hr'⟩ := parseItemsChecked_reaches hlen hitems (by omega) h
      refine ih ?_ hr'
      simp only [List.length_append] at hlen
      omega

/-- **The parser panics on nothing but a count that cannot be
allocated.** -/
theorem parseResp_returns_iff (size : Nat) (buf : Bytes) (hlen : buf.length < 2 ^ 58) :
    ((∃ r, parseRespChecked size buf = .ok r) ↔ CountsFit size buf)
      ∧ ∀ p, parseRespChecked size buf = .error p → p = .capacity := by
  refine ⟨⟨?_, ?_⟩, fun p h => (parseRespChecked_error hlen h).1⟩
  · rintro ⟨r, hr⟩ n hn
    exact fits_of_announces hn hlen hr
  · intro hfit
    cases h : parseRespChecked size buf with
    | ok r => exact ⟨r, rfl⟩
    | error p =>
        obtain ⟨_, n, hn, hover⟩ := parseRespChecked_error hlen h
        exact absurd (hfit n hn) hover

/-- `+OK\r\n` announces nothing. -/
theorem parseResp_returns_ok :
    ([43, 79, 75, 13, 10] : Bytes).length < 2 ^ 58
      ∧ ∃ r, parseRespChecked 32 [43, 79, 75, 13, 10] = .ok r := by
  have hlen : ([43, 79, 75, 13, 10] : Bytes).length < 2 ^ 58 := by decide
  have hfit : CountsFit 32 [43, 79, 75, 13, 10] := by
    intro n hn
    cases hn
  exact ⟨hlen, (parseResp_returns_iff 32 _ hlen).1.mpr hfit⟩

/-- `*9223372036854775807\r\n` -/
def hugeCount : Bytes :=
  42 :: ([57, 50, 50, 51, 51, 55, 50, 48, 51, 54, 56, 53, 52, 55, 55, 53, 56, 48, 55] ++ crlf)

theorem announces_hugeCount : Announces hugeCount Int64.maxValue := by
  have hlex : Lexeme [57, 50, 50, 51, 51, 55, 50, 48, 51, 54, 56, 53, 52, 55, 55, 53, 56, 48, 55]
      Int64.maxValue.toInt :=
    .plain (List.cons_ne_nil _ _) (by simp [TextBytes.IsDigit])
  have hhere := @Announces.here _ [] _ hlex
  rw [List.append_nil] at hhere
  exact hhere

/-- Twenty-two bytes from a client, an array of `i64::MAX` elements. -/
theorem hugeCount_panics :
    hugeCount.length < 2 ^ 58 ∧ parseRespChecked 32 hugeCount = .error .capacity := by
  have hlen : hugeCount.length < 2 ^ 58 := by decide
  refine ⟨hlen, ?_⟩
  cases h : parseRespChecked 32 hugeCount with
  | error p => rw [(parseRespChecked_error hlen h).1]
  | ok r => exact absurd (fits_of_announces announces_hugeCount hlen h) (by decide)

end SelfHealingCache
