import SelfHealingCache.Node.RespParser

/-!
# The RESP2 grammar

`Word w v` says that the bytes `w` are a word of the grammar and denote
`v`: a type byte, a line without `\r\n` (text or a number), and what the
number announces. The parser accepts exactly these words
(`parseResp_complete_iff`), and the encoders produce them, so parsing
undoes encoding.
-/

namespace SelfHealingCache

/-- The line ending. -/
def crlf : Bytes := [13, 10]

/-- No `\r\n` anywhere in it. -/
abbrev NoCrlf (l : Bytes) : Prop := Delimited.Free (13 : UInt8) 10 l

/-- An optional sign and at least one digit, and the number they denote. -/
inductive Lexeme : Bytes → Int → Prop where
  | plain {ds : Bytes} (hne : ds ≠ []) (hds : ∀ c ∈ ds, TextBytes.IsDigit c) :
      Lexeme ds (TextBytes.value ds)
  | plus {ds : Bytes} (hne : ds ≠ []) (hds : ∀ c ∈ ds, TextBytes.IsDigit c) :
      Lexeme (43 :: ds) (TextBytes.value ds)
  | minus {ds : Bytes} (hne : ds ≠ []) (hds : ∀ c ∈ ds, TextBytes.IsDigit c) :
      Lexeme (45 :: ds) (-TextBytes.value ds)

/-! ## Numbers -/

/-- The number with this sign and magnitude. -/
def signed (positive : Bool) (n : Nat) : Int := if positive then n else -n

/-- The largest magnitude an `i64` of this sign has. -/
def magnitude (positive : Bool) : Nat := if positive then 2 ^ 63 - 1 else 2 ^ 63

theorem inI64_signed_iff {positive : Bool} {n : Nat} :
    InI64 (signed positive n) ↔ n ≤ magnitude positive := by
  cases positive with
  | true =>
      show -2 ^ 63 ≤ (n : Int) ∧ (n : Int) < 2 ^ 63 ↔ n ≤ 2 ^ 63 - 1
      omega
  | false =>
      show -2 ^ 63 ≤ -(n : Int) ∧ -(n : Int) < 2 ^ 63 ↔ n ≤ 2 ^ 63
      omega

/-- **The digit loop** accepts digits only, and only while the number
fits. -/
theorem accumulate_eq_ok_iff {positive : Bool} {acc : Nat} (hacc : acc ≤ magnitude positive)
    {ds : Bytes} {r : Int} :
    accumulate positive (signed positive acc) ds = .ok r
      ↔ (∀ c ∈ ds, TextBytes.IsDigit c) ∧ TextBytes.valueFrom acc ds ≤ magnitude positive
        ∧ r = signed positive (TextBytes.valueFrom acc ds) := by
  induction ds generalizing acc with
  | nil =>
      rw [accumulate, TextBytes.valueFrom_nil, Except.ok.injEq, eq_comm]
      simp [hacc]
  | cons c ds ih =>
      have hmul : signed positive acc * 10 = signed positive (acc * 10) := by
        cases positive
        · show -(acc : Int) * 10 = -((acc * 10 : Nat) : Int)
          omega
        · show (acc : Int) * 10 = ((acc * 10 : Nat) : Int)
          omega
      have hnext : (if positive then signed positive (acc * 10) + TextBytes.digitValue c
          else signed positive (acc * 10) - TextBytes.digitValue c)
            = signed positive (acc * 10 + TextBytes.digitValue c) := by
        cases positive
        · show -((acc * 10 : Nat) : Int) - TextBytes.digitValue c
            = -((acc * 10 + TextBytes.digitValue c : Nat) : Int)
          omega
        · show ((acc * 10 : Nat) : Int) + TextBytes.digitValue c
            = ((acc * 10 + TextBytes.digitValue c : Nat) : Int)
          omega
      rw [accumulate, TextBytes.valueFrom_cons, hmul]
      dsimp only
      rw [hnext]
      by_cases hc : TextBytes.IsDigit c
      · rw [if_neg (not_not.mpr hc)]
        by_cases hin : acc * 10 + TextBytes.digitValue c ≤ magnitude positive
        · have hmul' : acc * 10 ≤ magnitude positive := by omega
          rw [if_pos ⟨inI64_signed_iff.mpr hmul', inI64_signed_iff.mpr hin⟩, ih hin,
            List.forall_mem_cons]
          tauto
        · -- the number read so far is a lower bound for the whole
          have hle := TextBytes.le_valueFrom (acc * 10 + TextBytes.digitValue c) ds
          rw [if_neg fun h => hin (inI64_signed_iff.mp h.2)]
          constructor
          · intro h
            cases h
          · rintro ⟨_, hlt, _⟩
            omega
      · rw [if_pos hc]
        constructor
        · intro h
          cases h
        · rintro ⟨hall, _⟩
          exact absurd (hall c List.mem_cons_self) hc

/-- The digits of a number, with a sign in front of them or not. -/
theorem map_accumulate_eq_ok_iff {positive : Bool} {ds : Bytes} {n : Int64} :
    (accumulate positive 0 ds).map Int64.ofInt = .ok n
      ↔ (∀ c ∈ ds, TextBytes.IsDigit c) ∧ n.toInt = signed positive (TextBytes.value ds) := by
  have hzero : (0 : Int) = signed positive 0 := by cases positive <;> rfl
  have hmag : 0 ≤ magnitude positive := Nat.zero_le _
  rw [hzero]
  constructor
  · intro h
    cases hacc : accumulate positive (signed positive 0) ds with
    | error e =>
        rw [hacc] at h
        cases h
    | ok r =>
        rw [hacc] at h
        cases h
        obtain ⟨hds, hle, rfl⟩ := (accumulate_eq_ok_iff hmag).mp hacc
        obtain ⟨hlow, hhigh⟩ := inI64_signed_iff.mpr hle
        exact ⟨hds, Int64.toInt_ofInt_of_le hlow hhigh⟩
  · rintro ⟨hds, hn⟩
    have hle : TextBytes.value ds ≤ magnitude positive := by
      rw [← inI64_signed_iff, ← hn]
      exact ⟨n.le_toInt, n.toInt_lt⟩
    rw [(accumulate_eq_ok_iff hmag).mpr ⟨hds, hle, rfl⟩]
    show Except.ok (Int64.ofInt (signed positive (TextBytes.value ds))) = _
    rw [← hn, Int64.ofInt_toInt]

theorem parseI64_plus {ds : Bytes} (hne : ds ≠ []) :
    parseI64 (43 :: ds) = (accumulate true 0 ds).map Int64.ofInt := by
  cases ds with
  | nil => exact absurd rfl hne
  | cons d ds => rfl

theorem parseI64_minus {ds : Bytes} (hne : ds ≠ []) :
    parseI64 (45 :: ds) = (accumulate false 0 ds).map Int64.ofInt := by
  cases ds with
  | nil => exact absurd rfl hne
  | cons d ds => rfl

theorem parseI64_plain {c : UInt8} (hplus : c ≠ 43) (hminus : c ≠ 45) (ds : Bytes) :
    parseI64 (c :: ds) = (accumulate true 0 (c :: ds)).map Int64.ofInt := by
  unfold parseI64
  split
  all_goals simp_all

/-- **`parse::<i64>` accepts exactly the lexemes**, with their number. -/
theorem parseI64_eq_ok_iff {text : Bytes} {n : Int64} :
    parseI64 text = .ok n ↔ Lexeme text n.toInt := by
  constructor
  · intro h
    cases text with
    | nil => cases h
    | cons c ds =>
        by_cases hplus : c = 43
        · subst hplus
          have hne : ds ≠ [] := by
            rintro rfl
            cases h
          rw [parseI64_plus hne] at h
          obtain ⟨hds, hn⟩ := map_accumulate_eq_ok_iff.mp h
          rw [hn]
          exact .plus hne hds
        by_cases hminus : c = 45
        · subst hminus
          have hne : ds ≠ [] := by
            rintro rfl
            cases h
          rw [parseI64_minus hne] at h
          obtain ⟨hds, hn⟩ := map_accumulate_eq_ok_iff.mp h
          rw [hn]
          exact .minus hne hds
        · rw [parseI64_plain hplus hminus] at h
          obtain ⟨hds, hn⟩ := map_accumulate_eq_ok_iff.mp h
          rw [hn]
          exact .plain (List.cons_ne_nil c ds) hds
  · intro h
    generalize hn : n.toInt = r at h
    cases h with
    | @plain ds hne hds =>
        obtain ⟨c, cs, rfl⟩ := List.exists_cons_of_ne_nil hne
        have hc := hds c List.mem_cons_self
        have hplus : c ≠ 43 := by
          rintro rfl
          revert hc
          decide
        have hminus : c ≠ 45 := by
          rintro rfl
          revert hc
          decide
        rw [parseI64_plain hplus hminus]
        exact map_accumulate_eq_ok_iff.mpr ⟨hds, hn⟩
    | plus hne hds =>
        rw [parseI64_plus hne]
        exact map_accumulate_eq_ok_iff.mpr ⟨hds, hn⟩
    | minus hne hds =>
        rw [parseI64_minus hne]
        exact map_accumulate_eq_ok_iff.mpr ⟨hds, hn⟩

theorem Lexeme.not_mem_cr {text : Bytes} {r : Int} (h : Lexeme text r) : (13 : UInt8) ∉ text := by
  have hdigits : ∀ ds : Bytes, (∀ c ∈ ds, TextBytes.IsDigit c) → (13 : UInt8) ∉ ds := by
    intro ds hds hmem
    exact absurd (hds 13 hmem) (by decide)
  cases h with
  | plain _ hds => exact hdigits _ hds
  | plus _ hds =>
      rw [List.mem_cons, not_or]
      exact ⟨by decide, hdigits _ hds⟩
  | minus _ hds =>
      rw [List.mem_cons, not_or]
      exact ⟨by decide, hdigits _ hds⟩

/-- A lexeme is text. -/
theorem Lexeme.exists_utf8 {text : Bytes} {r : Int} (h : Lexeme text r) :
    ∃ s, TextBytes.utf8 s = text := by
  have hdigit : ∀ c, TextBytes.IsDigit c → c < 128 := by
    intro c hc
    have hle := UInt8.le_iff_toNat_le.mp hc.2
    rw [UInt8.lt_iff_toNat_lt]
    exact Nat.lt_of_le_of_lt hle (by decide)
  apply TextBytes.exists_utf8_of_ascii
  cases h with
  | plain _ hds => exact fun c hc => hdigit c (hds c hc)
  | plus _ hds =>
      rw [List.forall_mem_cons]
      exact ⟨by decide, fun c hc => hdigit c (hds c hc)⟩
  | minus _ hds =>
      rw [List.forall_mem_cons]
      exact ⟨by decide, fun c hc => hdigit c (hds c hc)⟩

/-! ## The number lines -/

theorem fromUtf8_eq_ok_iff {line : Bytes} {s : String} :
    fromUtf8 line = .ok s ↔ bytesOf s = line := by
  rw [show (bytesOf s = line) ↔ String.fromUTF8? ⟨line.toArray⟩ = some s from
    TextBytes.decode_eq_some_iff.symm, fromUtf8]
  cases String.fromUTF8? ⟨line.toArray⟩ with
  | none => simp
  | some t => simp

/-- **A number line is a lexeme and a line ending.** -/
theorem readNumber_eq_ok_iff {what : String} {b : UInt8} {l : Bytes} {n : Int64} {next : Nat} :
    readNumber what (b :: l) = .ok (n, next)
      ↔ ∃ text rest, l = text ++ 13 :: 10 :: rest ∧ Lexeme text n.toInt
        ∧ next = text.length + 3 := by
  rw [readNumber, readLine_one]
  constructor
  · intro h
    cases hcut : Delimited.cut 13 10 l with
    | none =>
        rw [hcut] at h
        cases h
    | some p =>
        obtain ⟨line, rest⟩ := p
        rw [hcut] at h
        dsimp only [Option.map_some] at h
        cases hutf : fromUtf8 line with
        | error e =>
            rw [hutf] at h
            cases h
        | ok s =>
            rw [hutf] at h
            dsimp only at h
            rw [fromUtf8_eq_ok_iff.mp hutf] at h
            cases hnum : parseI64 line with
            | error e =>
                rw [hnum] at h
                cases h
            | ok m =>
                rw [hnum] at h
                cases h
                exact ⟨line, rest, (Delimited.eq_of_cut hcut).1, parseI64_eq_ok_iff.mp hnum, rfl⟩
  · rintro ⟨text, rest, hl, hlex, hnext⟩
    have hcut : Delimited.cut 13 10 l = some (text, rest) := by
      rw [hl]
      exact Delimited.cut_append_mark (by decide) (Delimited.free_of_not_mem hlex.not_mem_cr) rest
    obtain ⟨s, hs⟩ := hlex.exists_utf8
    have hutf : fromUtf8 text = .ok s := fromUtf8_eq_ok_iff.mpr hs
    have hnum : parseI64 (bytesOf s) = .ok n := by
      rw [show bytesOf s = text from hs]
      exact parseI64_eq_ok_iff.mpr hlex
    rw [hcut]
    dsimp only [Option.map_some]
    rw [hutf]
    dsimp only
    rw [hnum, hnext]

theorem parseText_eq_complete_iff {make : String → RespValue} {what : String} {b : UInt8}
    {l : Bytes} {v : RespValue} {n : Nat} :
    parseText make what (b :: l) = .complete v n
      ↔ ∃ s rest, l = bytesOf s ++ 13 :: 10 :: rest ∧ NoCrlf (bytesOf s) ∧ v = make s
        ∧ n = (bytesOf s).length + 3 := by
  rw [parseText, readLine_one]
  constructor
  · intro h
    cases hcut : Delimited.cut 13 10 l with
    | none =>
        rw [hcut] at h
        cases h
    | some p =>
        obtain ⟨line, rest⟩ := p
        obtain ⟨hl, hfree⟩ := Delimited.eq_of_cut hcut
        rw [hcut] at h
        dsimp only [Option.map_some] at h
        cases hutf : fromUtf8 line with
        | error e =>
            rw [hutf] at h
            cases h
        | ok s =>
            rw [hutf] at h
            cases h
            have hs := fromUtf8_eq_ok_iff.mp hutf
            rw [← hs] at hl hfree
            exact ⟨s, rest, hl, hfree, rfl, by rw [hs]⟩
  · rintro ⟨s, rest, hl, hfree, hv, hn⟩
    have hcut : Delimited.cut 13 10 l = some (bytesOf s, rest) := by
      rw [hl]
      exact Delimited.cut_append_mark (by decide) hfree rest
    rw [hcut]
    dsimp only [Option.map_some]
    rw [fromUtf8_eq_ok_iff.mpr rfl, hv, hn]

theorem parseInteger_eq_complete_iff {b : UInt8} {l : Bytes} {v : RespValue} {n : Nat} :
    parseInteger (b :: l) = .complete v n
      ↔ ∃ text rest m, l = text ++ 13 :: 10 :: rest ∧ Lexeme text (Int64.toInt m) ∧ v = .integer m
        ∧ n = text.length + 3 := by
  rw [parseInteger]
  constructor
  · intro h
    cases hnum : readNumber "integer" (b :: l) with
    | error result =>
        rw [hnum] at h
        rcases not_complete_of_readNumber hnum with rfl | ⟨e, rfl⟩ <;> cases h
    | ok out =>
        obtain ⟨m, next⟩ := out
        rw [hnum] at h
        cases h
        obtain ⟨text, rest, hl, hlex, hnext⟩ := readNumber_eq_ok_iff.mp hnum
        exact ⟨text, rest, m, hl, hlex, rfl, hnext⟩
  · rintro ⟨text, rest, m, hl, hlex, hv, hn⟩
    rw [readNumber_eq_ok_iff.mpr ⟨text, rest, hl, hlex, rfl⟩, hv, hn]

/-- The data behind a number line, seen from the whole buffer and from
the rest of it. -/
theorem getElem?_behind {pre rest : Bytes} (k : Nat) :
    (pre ++ rest)[pre.length + k]? = rest[k]? := by
  rw [List.getElem?_append_right (Nat.le_add_right _ _), Nat.add_sub_cancel_left]

theorem drop_take_behind {pre rest : Bytes} (k : Nat) :
    ((pre ++ rest).take (pre.length + k)).drop pre.length = rest.take k := by
  rw [List.take_length_add_append, List.drop_left]

/-- The line and what follows it, put together again. -/
theorem word_split (b : UInt8) (text rest : Bytes) :
    b :: (text ++ 13 :: 10 :: rest) = (b :: (text ++ crlf)) ++ rest := by
  simp [crlf]

theorem length_line (b : UInt8) (text : Bytes) :
    (b :: (text ++ crlf)).length = text.length + 3 := by
  simp [crlf]

theorem parseBulkString_eq_complete_iff {b : UInt8} {l : Bytes} {v : RespValue} {n : Nat} :
    parseBulkString (b :: l) = .complete v n
      ↔ ∃ text rest m, l = text ++ 13 :: 10 :: rest ∧ Lexeme text (Int64.toInt m)
        ∧ ((m.toInt < 0 ∧ v = .null ∧ n = text.length + 3)
          ∨ ∃ data more, rest = data ++ 13 :: 10 :: more ∧ m.toInt = data.length
            ∧ v = .bulkString data ∧ n = text.length + 3 + data.length + 2) := by
  rw [parseBulkString]
  constructor
  · intro h
    cases hnum : readNumber "bulk string length" (b :: l) with
    | error result =>
        rw [hnum] at h
        rcases not_complete_of_readNumber hnum with rfl | ⟨e, rfl⟩ <;> cases h
    | ok out =>
        obtain ⟨m, next⟩ := out
        rw [hnum] at h
        obtain ⟨text, rest, rfl, hlex, rfl⟩ := readNumber_eq_ok_iff.mp hnum
        refine ⟨text, rest, m, rfl, hlex, ?_⟩
        dsimp only at h
        split_ifs at h with hneg hshort hend
        · cases h
          exact .inl ⟨hneg, rfl, rfl⟩
        · cases h
          rw [not_or, not_not, not_not] at hend
          rw [word_split, ← length_line b text, Nat.add_assoc, getElem?_behind,
            getElem?_behind] at hend
          have hrest := Delimited.eq_take_append_mark hend.1 hend.2
          have hk : m.toInt.toNat ≤ rest.length := by
            have hlast := (List.getElem?_eq_some_iff.mp hend.1).1
            omega
          have hdata : (rest.take m.toInt.toNat).length = m.toInt.toNat := by
            rw [List.length_take]
            omega
          refine .inr ⟨rest.take m.toInt.toNat, _, hrest, ?_, ?_, ?_⟩
          · rw [hdata]
            omega
          · rw [word_split, ← length_line b text, drop_take_behind]
          · rw [hdata]
  · rintro ⟨text, rest, m, rfl, hlex, h⟩
    rw [readNumber_eq_ok_iff.mpr ⟨text, rest, rfl, hlex, rfl⟩]
    dsimp only
    rcases h with ⟨hneg, hv, hn⟩ | ⟨data, more, hrest, hm, hv, hn⟩
    · rw [if_pos hneg, hv, hn]
    · have hk : m.toInt.toNat = data.length := by omega
      have hmark := Delimited.getElem?_mark (x := (13 : UInt8)) (y := 10) data more
      rw [if_neg (by omega), hk, if_neg, if_neg]
      · rw [word_split, ← length_line b text, drop_take_behind, hrest, List.take_left, hv, hn,
          length_line]
      · rw [not_or, not_not, not_not, word_split, ← length_line b text, Nat.add_assoc,
          getElem?_behind, getElem?_behind, hrest]
        exact hmark
      · rw [word_split, List.length_append, length_line, hrest]
        simp only [List.length_append, List.length_cons]
        omega

/-! ## Words -/

mutual

/-- `Word w v`: the bytes `w` are a word and denote `v`. -/
inductive Word : Bytes → RespValue → Prop where
  | simpleString {s : String} (hline : NoCrlf (bytesOf s)) :
      Word (43 :: (bytesOf s ++ crlf)) (.simpleString s)
  | error {s : String} (hline : NoCrlf (bytesOf s)) : Word (45 :: (bytesOf s ++ crlf)) (.error s)
  | integer {text : Bytes} {n : Int64} (hlex : Lexeme text n.toInt) :
      Word (58 :: (text ++ crlf)) (.integer n)
  | bulkString {text data : Bytes} {n : Int64} (hlex : Lexeme text n.toInt)
      (hlen : n.toInt = data.length) :
      Word (36 :: (text ++ crlf ++ data ++ crlf)) (.bulkString data)
  | nullBulk {text : Bytes} {n : Int64} (hlex : Lexeme text n.toInt) (hneg : n.toInt < 0) :
      Word (36 :: (text ++ crlf)) .null
  | array {text body : Bytes} {n : Int64} {items : List RespValue} (hlex : Lexeme text n.toInt)
      (hlen : n.toInt = items.length) (hitems : Words body items) :
      Word (42 :: (text ++ crlf ++ body)) (.array items)
  | nullArray {text : Bytes} {n : Int64} (hlex : Lexeme text n.toInt) (hneg : n.toInt < 0) :
      Word (42 :: (text ++ crlf)) .null

/-- Words one after the other. -/
inductive Words : Bytes → List RespValue → Prop where
  | nil : Words [] []
  | cons {w body : Bytes} {v : RespValue} {items : List RespValue} (hword : Word w v)
      (hrest : Words body items) : Words (w ++ body) (v :: items)

end

/-! ## Whatever is accepted is a word -/

/-- The element loop, the elements being words. -/
theorem words_of_parseItems {buf : Bytes} {left offset n : Nat} {items : List RespValue}
    {v : RespValue}
    (hparse : ∀ k, offset ≤ k → ∀ v n, parseResp (buf.drop k) = some (.complete v n) →
      ∃ w rest, buf.drop k = w ++ rest ∧ w.length = n ∧ Word w v)
    (h : parseItems parseResp buf left offset items = some (.complete v n)) :
    ∃ body rest vs, buf.drop offset = body ++ rest ∧ n = offset + body.length ∧ Words body vs
      ∧ vs.length = left ∧ v = .array (items ++ vs) := by
  induction left generalizing offset items with
  | zero =>
      cases h
      exact ⟨[], _, [], rfl, rfl, .nil, rfl, by rw [List.append_nil]⟩
  | succ left ih =>
      rw [parseItems] at h
      split at h
      · rename_i value consumed hone
        obtain ⟨w, rest, hdrop, rfl, hword⟩ := hparse _ (Nat.le_refl _) value consumed hone
        obtain ⟨body, more, vs, hdrop', hn, hwords, hlen, hv⟩ :=
          ih (fun k hk => hparse k (by omega)) h
        have hrest : rest = body ++ more := by
          rw [← hdrop', ← List.drop_drop, hdrop, List.drop_left]
        refine ⟨w ++ body, more, value :: vs, ?_, ?_, .cons hword hwords, by rw [← hlen]; rfl, ?_⟩
        · rw [hdrop, hrest, List.append_assoc]
        · rw [hn, List.length_append]
          omega
        · rw [hv, List.append_assoc]
          rfl
      · rename_i hnot
        exact absurd h (hnot v n)

/-- **Soundness.** A value is returned for a word at the head of the
buffer, and the word's length is what it took. -/
theorem word_of_parseResp {buf : Bytes} {v : RespValue} {n : Nat}
    (h : parseResp buf = some (.complete v n)) :
    ∃ w rest, buf = w ++ rest ∧ w.length = n ∧ Word w v := by
  induction hsize : buf.length using Nat.strongRecOn generalizing buf v n with
  | ind size ih =>
      rw [parseResp_eq] at h
      unfold parseStep at h
      split at h
      · cases h
      · rename_i l
        obtain ⟨s, rest, rfl, hline, rfl, rfl⟩ :=
          parseText_eq_complete_iff.mp (Option.some.inj h)
        exact ⟨_, rest, word_split _ _ _, length_line _ _, .simpleString hline⟩
      · rename_i l
        obtain ⟨s, rest, rfl, hline, rfl, rfl⟩ :=
          parseText_eq_complete_iff.mp (Option.some.inj h)
        exact ⟨_, rest, word_split _ _ _, length_line _ _, .error hline⟩
      · rename_i l
        obtain ⟨text, rest, m, rfl, hlex, rfl, rfl⟩ :=
          parseInteger_eq_complete_iff.mp (Option.some.inj h)
        exact ⟨_, rest, word_split _ _ _, length_line _ _, .integer hlex⟩
      · rename_i l
        obtain ⟨text, rest, m, rfl, hlex, ⟨hneg, rfl, rfl⟩ | ⟨data, more, rfl, hm, rfl, rfl⟩⟩ :=
          parseBulkString_eq_complete_iff.mp (Option.some.inj h)
        · exact ⟨_, rest, word_split _ _ _, length_line _ _, .nullBulk hlex hneg⟩
        · refine ⟨_, more, ?_, ?_, .bulkString hlex hm⟩
          · simp [crlf]
          · simp [crlf]
            omega
      · rename_i l
        rw [parseArray] at h
        cases hnum : readNumber "array count" (42 :: l) with
        | error result =>
            rw [hnum] at h
            rcases not_complete_of_readNumber hnum with rfl | ⟨e, rfl⟩ <;> cases h
        | ok out =>
            obtain ⟨m, next⟩ := out
            rw [hnum] at h
            obtain ⟨text, rest, rfl, hlex, rfl⟩ := readNumber_eq_ok_iff.mp hnum
            dsimp only at h
            split_ifs at h with hneg hcapacity
            · cases h
              exact ⟨_, rest, word_split _ _ _, length_line _ _, .nullArray hlex hneg⟩
            · have hdrop : (42 :: (text ++ 13 :: 10 :: rest)).drop (text.length + 3) = rest := by
                rw [word_split, ← length_line 42 text, List.drop_left]
              have hshorter : ∀ k, text.length + 3 ≤ k →
                  ((42 :: (text ++ 13 :: 10 :: rest)).drop k).length < size := by
                intro k hk
                rw [← hsize, List.length_drop, List.length_cons]
                omega
              obtain ⟨body, more, vs, hbody, rfl, hwords, hlen, rfl⟩ :=
                words_of_parseItems (fun k hk v n hparse => ih _ (hshorter k hk) hparse rfl) h
              rw [hdrop] at hbody
              refine ⟨_, more, ?_, ?_, .array hlex (by rw [List.nil_append]; omega) hwords⟩
              · rw [hbody, word_split]
                simp
              · simp [crlf]
                omega
      · cases h

/-! ## Every word is accepted -/

/-- A word has a type byte and a line end. -/
theorem Word.three_le_length {w : Bytes} {v : RespValue} (h : Word w v) : 3 ≤ w.length := by
  cases h <;> simp [crlf] <;> omega

/-- A complete value takes at least three bytes, and no more than there
are. -/
theorem consumed_within {buf : Bytes} {value : RespValue} {consumed : Nat}
    (h : parseResp buf = some (.complete value consumed)) :
    3 ≤ consumed ∧ consumed ≤ buf.length := by
  obtain ⟨w, rest, rfl, rfl, hword⟩ := word_of_parseResp h
  rw [List.length_append]
  exact ⟨hword.three_le_length, Nat.le_add_right _ _⟩

/-- The next element of an array starts inside the buffer. -/
theorem next_offset_within {buf : Bytes} {offset consumed : Nat} {value : RespValue}
    (h : parseResp (buf.drop offset) = some (.complete value consumed))
    (hoffset : offset ≤ buf.length) : offset + consumed ≤ buf.length := by
  have hwithin := consumed_within h
  rw [List.length_drop] at hwithin
  omega

theorem Words.length_le {body : Bytes} {items : List RespValue} (h : Words body items) :
    items.length ≤ body.length := by
  induction items generalizing body with
  | nil => exact Nat.zero_le _
  | cons v items ih =>
      cases h with
      | cons hword hrest =>
          have hpos := hword.three_le_length
          have hle := ih hrest
          rw [List.length_cons, List.length_append]
          omega

/-- The element loop on words. -/
theorem parseItems_of_words {pre body rest : Bytes} {vs items : List RespValue}
    (hwords : Words body vs)
    (hparse : ∀ w v, Word w v → w.length ≤ body.length → ∀ more,
      parseResp (w ++ more) = some (.complete v w.length)) :
    parseItems parseResp (pre ++ (body ++ rest)) vs.length pre.length items
      = some (.complete (.array (items ++ vs)) (pre.length + body.length)) := by
  induction vs generalizing pre body items with
  | nil =>
      cases hwords
      rw [List.length_nil, parseItems, List.append_nil, List.length_nil, Nat.add_zero]
  | cons v vs ih =>
      cases hwords with
      | @cons w body _ _ hword hrest =>
          rw [List.length_append] at hparse
          rw [List.length_cons, parseItems, List.drop_left, List.append_assoc,
            hparse w v hword (by omega) (body ++ rest)]
          have htail := @ih (pre ++ w) body (items ++ [v]) hrest
            fun w' v' hword' hle => hparse w' v' hword' (by omega)
          rw [List.length_append] at htail
          dsimp only
          rw [← List.append_assoc pre, htail]
          simp [Nat.add_assoc]

/-- Anything but an array. -/
def RespValue.Scalar : RespValue → Prop
  | .array _ => False
  | _ => True

/-- **Completeness.** A word at the head of a buffer is parsed, whatever
follows it. Only an array announces a count, and only its word has to be
short enough to exist. -/
theorem parseResp_of_word {w : Bytes} {v : RespValue} (hword : Word w v)
    (hbound : w.length ≤ maxCapacity ∨ v.Scalar) (rest : Bytes) :
    parseResp (w ++ rest) = some (.complete v w.length) := by
  induction hsize : w.length using Nat.strongRecOn generalizing w v rest with
  | ind size ih =>
      subst hsize
      rw [parseResp_eq]
      cases hword with
      | simpleString hline =>
          rw [← word_split, length_line]
          exact congrArg some (parseText_eq_complete_iff.mpr ⟨_, rest, rfl, hline, rfl, rfl⟩)
      | error hline =>
          rw [← word_split, length_line]
          exact congrArg some (parseText_eq_complete_iff.mpr ⟨_, rest, rfl, hline, rfl, rfl⟩)
      | integer hlex =>
          rw [← word_split, length_line]
          exact congrArg some (parseInteger_eq_complete_iff.mpr ⟨_, rest, _, rfl, hlex, rfl, rfl⟩)
      | @bulkString text data n hlex hlen =>
          have hbuf : 36 :: (text ++ crlf ++ data ++ crlf) ++ rest
              = 36 :: (text ++ 13 :: 10 :: (data ++ 13 :: 10 :: rest)) := by
            simp [crlf]
          rw [hbuf]
          refine congrArg some (parseBulkString_eq_complete_iff.mpr
            ⟨text, _, n, rfl, hlex, .inr ⟨data, rest, rfl, hlen, rfl, ?_⟩⟩)
          simp [crlf]
          omega
      | nullBulk hlex hneg =>
          rw [← word_split, length_line]
          exact congrArg some (parseBulkString_eq_complete_iff.mpr
            ⟨_, rest, _, rfl, hlex, .inl ⟨hneg, rfl, rfl⟩⟩)
      | nullArray hlex hneg =>
          rw [← word_split, length_line]
          show parseArray parseResp _ = _
          rw [parseArray, readNumber_eq_ok_iff.mpr ⟨_, rest, rfl, hlex, rfl⟩]
          dsimp only
          rw [if_pos hneg]
      | @array text body n items hlex hlen hitems =>
          have hle := hitems.length_le
          have hcapacity : (42 :: (text ++ crlf ++ body)).length ≤ maxCapacity :=
            hbound.resolve_right id
          have hwhole : (42 :: (text ++ crlf ++ body)).length = text.length + 3 + body.length := by
            simp [crlf]
            omega
          have hbuf : 42 :: (text ++ crlf ++ body) ++ rest
              = (42 :: (text ++ crlf)) ++ (body ++ rest) := by
            simp
          rw [hbuf, ← word_split]
          show parseArray parseResp _ = _
          rw [parseArray, readNumber_eq_ok_iff.mpr ⟨text, body ++ rest, rfl, hlex, rfl⟩]
          dsimp only
          have hcount : n.toInt.toNat = items.length := by omega
          rw [if_neg (by omega), hcount, if_neg (by omega), word_split, ← length_line 42 text,
            parseItems_of_words hitems]
          · rw [hwhole, length_line]
            rfl
          · intro w' v' hword' hshort more
            exact ih w'.length (by omega) hword' (.inl (by omega)) more rfl

/-- **`parse_resp` accepts exactly the RESP2 grammar**, and consumes
exactly the word it accepts; no buffer has two words at its head. -/
theorem parseResp_complete_iff (b : Bytes) (hb : b.length < 2 ^ 58) :
    (∀ v n, parseResp b = some (.complete v n) ↔ n ≤ b.length ∧ Word (b.take n) v)
    ∧ ∀ v v' n n', n ≤ b.length → n' ≤ b.length → Word (b.take n) v → Word (b.take n') v' →
      n = n' ∧ v = v' := by
  have haccept : ∀ v n, n ≤ b.length → Word (b.take n) v →
      parseResp b = some (.complete v n) := by
    intro v n hn hword
    have hlen : (b.take n).length = n := List.length_take_of_le hn
    have hparse := parseResp_of_word hword (.inl (by rw [hlen, maxCapacity]; omega)) (b.drop n)
    rw [List.take_append_drop, hlen] at hparse
    exact hparse
  refine ⟨fun v n => ⟨fun h => ?_, fun h => haccept v n h.1 h.2⟩, ?_⟩
  · obtain ⟨w, rest, rfl, rfl, hword⟩ := word_of_parseResp h
    rw [List.take_left, List.length_append]
    exact ⟨Nat.le_add_right _ _, hword⟩
  · intro v v' n n' hn hn' hword hword'
    have hsame := haccept v n hn hword
    rw [haccept v' n' hn' hword'] at hsame
    cases hsame
    exact ⟨rfl, rfl⟩

/-- `*1\r\n$4\r\nPING\r\n`, as a client sends it. -/
def pingRequest : Bytes := [42, 49, 13, 10, 36, 52, 13, 10, 80, 73, 78, 71, 13, 10]

def pingValue : RespValue := .array [.bulkString [80, 73, 78, 71]]

theorem word_pingRequest : Word pingRequest pingValue := by
  have hname : Word [36, 52, 13, 10, 80, 73, 78, 71, 13, 10] (.bulkString [80, 73, 78, 71]) :=
    @Word.bulkString [52] [80, 73, 78, 71] 4
      (.plain (List.cons_ne_nil _ _) (List.forall_mem_singleton.mpr (by decide))) (by decide)
  exact @Word.array [49] _ 1 _
    (.plain (List.cons_ne_nil _ _) (List.forall_mem_singleton.mpr (by decide))) (by decide)
    (.cons hname .nil)

/-- `PING`, and the head of the next command. -/
theorem parseResp_complete_iff_ping :
    parseResp (pingRequest ++ [42]) = some (.complete pingValue 14) :=
  ((parseResp_complete_iff _ (by decide)).1 _ 14).mpr ⟨by decide, word_pingRequest⟩

end SelfHealingCache
