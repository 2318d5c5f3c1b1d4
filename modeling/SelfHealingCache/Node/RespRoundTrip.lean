import SelfHealingCache.Node.RespGrammar

/-!
# Encoding and parsing

`crates/node/src/resp/encoder.rs` writes words of the grammar, so the
parser reads back what it wrote. The one thing a value must not have is a
`\r\n` inside a line of text; no parsed value has it. The encoders write
the shortest form of a number, so re-encoding a parsed value never takes
more bytes than it was parsed from.
-/

namespace SelfHealingCache

mutual

/-- No line of text in the value has a `\r\n` in it. -/
def RespValue.Clean : RespValue → Prop
  | .simpleString s => NoCrlf (bytesOf s)
  | .error s => NoCrlf (bytesOf s)
  | .integer _ => True
  | .bulkString _ => True
  | .null => True
  | .array items => CleanItems items

def CleanItems : List RespValue → Prop
  | [] => True
  | item :: items => item.Clean ∧ CleanItems items

end

/-! ## What the encoders write -/

theorem bytesOf_append (s t : String) : bytesOf (s ++ t) = bytesOf s ++ bytesOf t :=
  TextBytes.utf8_append s t

theorem bytesOf_crlf : bytesOf "\r\n" = crlf := TextBytes.utf8_eq _

/-- A type byte, a text and a line ending. -/
theorem bytesOf_line {mark : String} {b : UInt8} (hmark : bytesOf mark = [b]) (s : String) :
    bytesOf (mark ++ s ++ "\r\n") = b :: (bytesOf s ++ crlf) := by
  rw [bytesOf_append, bytesOf_append, hmark, bytesOf_crlf]
  rfl

theorem encodeSimpleString_eq (s : String) :
    encodeSimpleString s = 43 :: (bytesOf s ++ crlf) :=
  bytesOf_line (show bytesOf "+" = [43] from TextBytes.utf8_eq "+") s

theorem encodeError_eq (s : String) : encodeError s = 45 :: (bytesOf s ++ crlf) :=
  bytesOf_line (show bytesOf "-" = [45] from TextBytes.utf8_eq "-") s

theorem encodeInteger_eq (n : Int) : encodeInteger n = 58 :: (bytesOf (toString n) ++ crlf) :=
  bytesOf_line (show bytesOf ":" = [58] from TextBytes.utf8_eq ":") _

theorem encodeBulkString_eq (data : Bytes) :
    encodeBulkString data
      = 36 :: (TextBytes.decimal data.length ++ crlf ++ data ++ crlf) := by
  rw [encodeBulkString, bytesOf_line (show bytesOf "$" = [36] from TextBytes.utf8_eq "$"),
    bytesOf_crlf]
  rfl

theorem encodeNull_eq : encodeNull = 36 :: ([45, 49] ++ crlf) := TextBytes.utf8_eq _

theorem encodeCount_eq (count : Nat) :
    encodeCount count = 42 :: (TextBytes.decimal count ++ crlf) :=
  bytesOf_line (show bytesOf "*" = [42] from TextBytes.utf8_eq "*") _

theorem lexeme_decimal (n : Nat) : Lexeme (TextBytes.decimal n) n := by
  have h := Lexeme.plain (TextBytes.decimal_ne_nil n) fun c hc =>
    TextBytes.isDigit_of_mem_decimal hc
  rwa [TextBytes.value_decimal] at h

theorem bytesOf_toString_neg (n : Nat) :
    bytesOf (toString (-((n : Int) + 1))) = 45 :: TextBytes.decimal (n + 1) := by
  have htext : toString (-((n : Int) + 1)) = "-" ++ toString (n + 1) := by
    rw [Int.toString_eq_repr, Int.repr_eq_if, if_neg (by omega), Nat.toString_eq_repr]
    congr 2
  rw [htext, bytesOf_append, show bytesOf "-" = [45] from TextBytes.utf8_eq _]
  rfl

theorem bytesOf_toString_nat (n : Nat) : bytesOf (toString (n : Int)) = TextBytes.decimal n := by
  have htext : toString (n : Int) = toString n := by
    rw [Int.toString_eq_repr, Int.repr_eq_if, if_pos (by omega), Int.toNat_natCast,
      Nat.toString_eq_repr]
  rw [htext]
  rfl

/-- Two counts are told apart. -/
theorem encodeInteger_count_inj {m n : Nat} : encodeInteger m = encodeInteger n ↔ m = n := by
  constructor
  · intro h
    rw [encodeInteger_eq, encodeInteger_eq, bytesOf_toString_nat, bytesOf_toString_nat] at h
    have hdecimal := List.append_cancel_right (List.cons.inj h).2
    rw [← TextBytes.value_decimal m, hdecimal, TextBytes.value_decimal]
  · rintro rfl
    rfl

theorem lexeme_toString (n : Int) : Lexeme (bytesOf (toString n)) n := by
  rcases Int.lt_or_le n 0 with hneg | hpos
  · obtain ⟨k, rfl⟩ : ∃ k : Nat, n = -((k : Int) + 1) := ⟨(-n - 1).toNat, by omega⟩
    have h := Lexeme.minus (TextBytes.decimal_ne_nil (k + 1)) fun c hc =>
      TextBytes.isDigit_of_mem_decimal hc
    rw [TextBytes.value_decimal] at h
    rw [bytesOf_toString_neg]
    convert h using 1
    push_cast
    rfl
  · obtain ⟨k, rfl⟩ := Int.eq_ofNat_of_zero_le hpos
    rw [bytesOf_toString_nat]
    exact lexeme_decimal k

/-- A count that fits, as an `i64`. -/
theorem exists_i64 {n : Nat} (h : n < 2 ^ 63) : ∃ m : Int64, m.toInt = n :=
  ⟨Int64.ofInt n, Int64.toInt_ofInt_of_le (by omega) (by omega)⟩

theorem word_encodeBulkString {data : Bytes} (h : data.length < 2 ^ 63) :
    Word (encodeBulkString data) (.bulkString data) := by
  obtain ⟨m, hm⟩ := exists_i64 h
  rw [encodeBulkString_eq]
  refine .bulkString (n := m) ?_ hm
  rw [hm]
  exact lexeme_decimal _

theorem word_encodeInteger (n : Int64) : Word (encodeInteger n.toInt) (.integer n) := by
  rw [encodeInteger_eq]
  exact .integer (lexeme_toString _)

theorem word_encodeNull : Word encodeNull .null := by
  rw [encodeNull_eq]
  have hlex : Lexeme [45, 49] (Int64.toInt (-1)) :=
    @Lexeme.minus [49] (List.cons_ne_nil _ _) (List.forall_mem_singleton.mpr (by decide))
  exact .nullBulk hlex (by decide)

theorem word_encodeSimpleString {s : String} (h : NoCrlf (bytesOf s)) :
    Word (encodeSimpleString s) (.simpleString s) := by
  rw [encodeSimpleString_eq]
  exact .simpleString h

theorem word_encodeError {s : String} (h : NoCrlf (bytesOf s)) :
    Word (encodeError s) (.error s) := by
  rw [encodeError_eq]
  exact .error h

theorem length_data_le (data : Bytes) : data.length ≤ (encodeBulkString data).length := by
  rw [encodeBulkString_eq]
  simp only [List.length_cons, List.length_append]
  omega

mutual

/-- **The encoders write words.** -/
theorem word_encodeItem (v : RespValue) (hclean : v.Clean)
    (hlen : (encodeItem v).length < 2 ^ 63) : Word (encodeItem v) v := by
  match v with
  | .simpleString s =>
      rw [encodeItem]
      exact word_encodeSimpleString hclean
  | .error s =>
      rw [encodeItem]
      exact word_encodeError hclean
  | .integer n =>
      rw [encodeItem]
      exact word_encodeInteger n
  | .bulkString data =>
      rw [encodeItem] at hlen ⊢
      exact word_encodeBulkString (Nat.lt_of_le_of_lt (length_data_le data) hlen)
  | .null =>
      rw [encodeItem]
      exact word_encodeNull
  | .array items =>
      rw [RespValue.Clean] at hclean
      rw [encodeItem, List.length_append] at hlen
      have hitems := words_encodeItems items hclean (by omega)
      have hcount := hitems.length_le
      obtain ⟨m, hm⟩ := exists_i64 (n := items.length) (by omega)
      rw [encodeItem, encodeCount_eq]
      refine .array (n := m) ?_ hm hitems
      rw [hm]
      exact lexeme_decimal _

theorem words_encodeItems (items : List RespValue) (hclean : CleanItems items)
    (hlen : (encodeItems items).length < 2 ^ 63) : Words (encodeItems items) items := by
  match items with
  | [] => exact .nil
  | v :: items =>
      rw [CleanItems] at hclean
      rw [encodeItems, List.length_append] at hlen
      rw [encodeItems]
      exact .cons (word_encodeItem v hclean.1 (by omega))
        (words_encodeItems items hclean.2 (by omega))

end

/-! ## What a word denotes is clean, and no shorter than its encoding -/

mutual

theorem Word.clean {w : Bytes} (v : RespValue) (h : Word w v) : v.Clean := by
  match v, h with
  | .simpleString _, .simpleString hline => exact hline
  | .error _, .error hline => exact hline
  | .integer _, _ => trivial
  | .bulkString _, _ => trivial
  | .null, _ => trivial
  | .array items, .array _ _ hitems =>
      rw [RespValue.Clean]
      exact Words.clean items hitems

theorem Words.clean {body : Bytes} (items : List RespValue) (h : Words body items) :
    CleanItems items := by
  match items, h with
  | [], _ => trivial
  | v :: items, .cons hword hrest =>
      rw [CleanItems]
      exact ⟨Word.clean v hword, Words.clean items hrest⟩

end

/-- The shortest lexeme of a number is the one the encoders write. -/
theorem Lexeme.length_le {text : Bytes} {n : Int} (h : Lexeme text n) :
    (bytesOf (toString n)).length ≤ text.length := by
  cases h with
  | plain hne hds =>
      rw [bytesOf_toString_nat]
      exact TextBytes.length_decimal_le hne hds
  | plus hne hds =>
      rw [bytesOf_toString_nat]
      exact Nat.le_succ_of_le (TextBytes.length_decimal_le hne hds)
  | @minus ds hne hds =>
      have hle := TextBytes.length_decimal_le hne hds
      cases hvalue : TextBytes.value ds with
      | zero =>
          rw [hvalue] at hle
          rw [show (-((0 : Nat) : Int)) = ((0 : Nat) : Int) from rfl, bytesOf_toString_nat]
          exact Nat.le_succ_of_le hle
      | succ k =>
          rw [hvalue] at hle
          rw [show (-((k + 1 : Nat) : Int)) = -((k : Int) + 1) from rfl, bytesOf_toString_neg]
          exact Nat.succ_le_succ hle

/-- A negative number takes a sign and a digit. -/
theorem Lexeme.two_le_length {text : Bytes} {n : Int} (h : Lexeme text n) (hneg : n < 0) :
    2 ≤ text.length := by
  cases h with
  | plain => omega
  | plus => omega
  | minus hne _ => exact Nat.succ_le_succ (List.length_pos_of_ne_nil hne)

theorem length_encodeCount_le {text : Bytes} {n : Int} {count : Nat} (h : Lexeme text n)
    (hn : n = count) : (TextBytes.decimal count).length ≤ text.length := by
  have hle := h.length_le
  rwa [hn, bytesOf_toString_nat] at hle

mutual

theorem Word.length_encodeItem_le {w : Bytes} (v : RespValue) (h : Word w v) :
    (encodeItem v).length ≤ w.length := by
  match v, h with
  | .simpleString _, .simpleString _ =>
      rw [encodeItem, encodeSimpleString_eq]
  | .error _, .error _ =>
      rw [encodeItem, encodeError_eq]
  | .integer _, .integer hlex =>
      have hle := hlex.length_le
      rw [encodeItem, encodeInteger_eq, length_line, length_line]
      omega
  | .bulkString _, .bulkString hlex hlen =>
      have hle := length_encodeCount_le hlex hlen
      rw [encodeItem, encodeBulkString_eq]
      simp only [List.length_cons, List.length_append]
      omega
  | .null, .nullBulk hlex hneg =>
      have hle := hlex.two_le_length hneg
      rw [encodeItem, encodeNull_eq, length_line, length_line]
      exact Nat.add_le_add_right hle 3
  | .null, .nullArray hlex hneg =>
      have hle := hlex.two_le_length hneg
      rw [encodeItem, encodeNull_eq, length_line, length_line]
      exact Nat.add_le_add_right hle 3
  | .array items, .array hlex hlen hitems =>
      have hle := length_encodeCount_le hlex hlen
      have hbody := Words.length_encodeItems_le items hitems
      rw [encodeItem, encodeCount_eq]
      simp only [List.length_cons, List.length_append]
      omega

theorem Words.length_encodeItems_le {body : Bytes} (items : List RespValue)
    (h : Words body items) : (encodeItems items).length ≤ body.length := by
  match items, h with
  | [], _ => exact Nat.zero_le _
  | v :: items, .cons hword hrest =>
      have hhead := Word.length_encodeItem_le v hword
      have htail := Words.length_encodeItems_le items hrest
      rw [encodeItems, List.length_append, List.length_append]
      omega

end

/-! ## Parsing undoes encoding -/

/-- `w` at the head of any buffer that exists is read as `v`, and nothing
more of the buffer is taken. -/
def ReadsAs (w : Bytes) (v : RespValue) : Prop :=
  ∀ rest, (w ++ rest).length < 2 ^ 58 → parseResp (w ++ rest) = some (.complete v w.length)

theorem Word.readsAs {w : Bytes} {v : RespValue} (h : Word w v) : ReadsAs w v := by
  intro rest hlen
  rw [List.length_append] at hlen
  exact parseResp_of_word h (.inl (by rw [maxCapacity]; omega)) rest

/-- A clean value is read back from its encoding. -/
theorem readsAs_encodeItem (v : RespValue) (hclean : v.Clean) : ReadsAs (encodeItem v) v := by
  intro rest hlen
  have hle : (encodeItem v).length < 2 ^ 63 := by
    rw [List.length_append] at hlen
    omega
  exact (word_encodeItem v hclean hle).readsAs rest hlen

/-- **Parsing undoes encoding**, for nested arrays and for each scalar
encoder; and every value the parser returns is one of those it can read
back. -/
theorem parseResp_encode :
    (∀ items, CleanItems items → ReadsAs (encodeArray items) (.array items))
    ∧ (∀ s, NoCrlf (bytesOf s) → ReadsAs (encodeSimpleString s) (.simpleString s))
    ∧ (∀ s, NoCrlf (bytesOf s) → ReadsAs (encodeError s) (.error s))
    ∧ (∀ n : Int64, ReadsAs (encodeInteger n.toInt) (.integer n))
    ∧ (∀ data, ReadsAs (encodeBulkString data) (.bulkString data))
    ∧ ReadsAs encodeNull .null
    ∧ ∀ b v n, b.length < 2 ^ 58 → parseResp b = some (.complete v n) →
      v.Clean ∧ parseResp (encodeItem v) = some (.complete v (encodeItem v).length) := by
  refine ⟨fun items hclean => ?_, fun s hline => ?_, fun s hline => ?_, fun n => ?_,
    fun data => ?_, ?_, fun b v n hb h => ?_⟩
  · have harray := readsAs_encodeItem (.array items) (by rwa [RespValue.Clean])
    rwa [encodeItem] at harray
  · exact (word_encodeSimpleString hline).readsAs
  · exact (word_encodeError hline).readsAs
  · exact (word_encodeInteger n).readsAs
  · have hbulk := readsAs_encodeItem (.bulkString data) trivial
    rwa [encodeItem] at hbulk
  · exact word_encodeNull.readsAs
  · obtain ⟨w, rest, rfl, rfl, hword⟩ := word_of_parseResp h
    have hclean := Word.clean v hword
    have hle := Word.length_encodeItem_le v hword
    rw [List.length_append] at hb
    have hagain := readsAs_encodeItem v hclean [] (by rw [List.append_nil]; omega)
    rw [List.append_nil] at hagain
    exact ⟨hclean, hagain⟩

/-- A command inside an array, with a line ending in its data, and bytes
of the next one behind it. -/
theorem parseResp_encode_nested :
    parseResp (encodeArray [.array [.bulkString [13, 10], .null], .integer (-5)] ++ [42])
      = some (.complete (.array [.array [.bulkString [13, 10], .null], .integer (-5)])
        (encodeArray [.array [.bulkString [13, 10], .null], .integer (-5)]).length) := by
  refine parseResp_encode.1 _ ?_ [42] ?_
  · simp [CleanItems, RespValue.Clean]
  · simp only [encodeArray, encodeItems, encodeItem, encodeCount_eq, encodeBulkString_eq,
      encodeNull_eq, encodeInteger_eq]
    decide +kernel

end SelfHealingCache
