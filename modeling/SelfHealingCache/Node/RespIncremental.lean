import SelfHealingCache.Node.RespServer

/-!
# Every buffer can still be decided

The connection loop asks the parser about whatever has arrived, and waits
when the answer is `Incomplete`. What the parser says otherwise it also
says about every longer buffer (`parseResp_append`). Here is the other
half: it never asks for more where more could not help. A buffer it calls
incomplete ends inside a line or inside the payload of a bulk string, and
either can be SPOILED: a line by a byte that no text contains, a payload
by a wrong terminator. In an array the spoiled part is an element, and
the array fails with it.
-/

namespace SelfHealingCache

/-! ## Lines -/

/-- The end of a line that is no text. -/
def spoiledEnd : Bytes := [255, 13, 10]

theorem readLine_spoiled {b : UInt8} {l : Bytes} (h : readLine (b :: l) 1 = none) :
    ∃ next, readLine (b :: l ++ spoiledEnd) 1 = some (l ++ [255], next) := by
  rw [readLine_one, Option.map_eq_none_iff] at h
  have hfree : Delimited.Free 13 10 (l ++ [255]) :=
    (Delimited.free_of_cut_eq_none h).append_singleton (by decide)
  have hcut := Delimited.cut_append_mark (by decide) hfree []
  rw [List.append_assoc] at hcut
  rw [List.cons_append, readLine_one]
  show ∃ next, (Delimited.cut 13 10 (l ++ ([255] ++ [13, 10]))).map _ = _
  rw [hcut]
  exact ⟨_, rfl⟩

theorem fromUtf8_spoiled (l : Bytes) : ∃ e, fromUtf8 (l ++ [255]) = .error e := by
  cases h : fromUtf8 (l ++ [255]) with
  | error e => exact ⟨e, rfl⟩
  | ok s =>
      -- no UTF-8 text has this byte
      have hmem : 255 ∈ bytesOf s := by
        rw [fromUtf8_eq_ok_iff.mp h]
        simp
      exact absurd (TextBytes.lt_of_mem_utf8 hmem) (by decide)

theorem parseText_spoiled {make : String → RespValue} {what : String} {b : UInt8} {l : Bytes}
    (h : parseText make what (b :: l) = .incomplete) :
    ∃ e, parseText make what (b :: l ++ spoiledEnd) = .error e := by
  have hline : readLine (b :: l) 1 = none := by
    cases hline : readLine (b :: l) 1 with
    | none => rfl
    | some out =>
        rw [parseText, hline] at h
        dsimp only at h
        split at h <;> cases h
  obtain ⟨next, hread⟩ := readLine_spoiled hline
  obtain ⟨e, he⟩ := fromUtf8_spoiled l
  rw [parseText, hread]
  dsimp only
  rw [he]
  exact ⟨_, rfl⟩

theorem readNumber_spoiled {what : String} {b : UInt8} {l : Bytes}
    (h : readNumber what (b :: l) = .error .incomplete) :
    ∃ e, readNumber what (b :: l ++ spoiledEnd) = .error (.error e) := by
  have hline : readLine (b :: l) 1 = none := by
    cases hline : readLine (b :: l) 1 with
    | none => rfl
    | some out =>
        rw [readNumber, hline] at h
        dsimp only at h
        split at h
        · split at h <;> cases h
        · cases h
  obtain ⟨next, hread⟩ := readLine_spoiled hline
  obtain ⟨e, he⟩ := fromUtf8_spoiled l
  rw [readNumber, hread]
  dsimp only
  rw [he]
  exact ⟨_, rfl⟩

/-- A number line that has been read is read again. -/
theorem readNumber_append_ok {what : String} {b : UInt8} {l : Bytes} {out : Int64 × Nat}
    (h : readNumber what (b :: l) = .ok out) (more : Bytes) :
    readNumber what (b :: l ++ more) = .ok out := by
  rw [readNumber_append _ more, h]
  rw [h]
  intro hbad
  cases hbad

/-! ## Values -/

theorem parseInteger_spoiled {b : UInt8} {l : Bytes}
    (h : parseInteger (b :: l) = .incomplete) :
    ∃ e, parseInteger (b :: l ++ spoiledEnd) = .error e := by
  rw [parseInteger] at h
  cases hnum : readNumber "integer" (b :: l) with
  | ok out =>
      rw [hnum] at h
      cases h
  | error result =>
      rw [hnum] at h
      obtain ⟨e, he⟩ := readNumber_spoiled (hnum.trans (congrArg _ h))
      rw [parseInteger, he]
      exact ⟨e, rfl⟩

/-- Zeros up to the announced end: whatever the terminator began with, it
does not end with a line feed. -/
theorem parseBulkString_spoiled {b : UInt8} {l : Bytes}
    (h : parseBulkString (b :: l) = .incomplete) :
    ∃ more e, parseBulkString (b :: l ++ more) = .error e := by
  rw [parseBulkString] at h
  cases hnum : readNumber "bulk string length" (b :: l) with
  | error result =>
      rw [hnum] at h
      obtain ⟨e, he⟩ := readNumber_spoiled (hnum.trans (congrArg _ h))
      refine ⟨spoiledEnd, e, ?_⟩
      rw [parseBulkString, he]
  | ok out =>
      obtain ⟨len, afterLen⟩ := out
      rw [hnum] at h
      dsimp only at h
      split_ifs at h with hneg hshort hend
      refine ⟨List.replicate (afterLen + len.toInt.toNat + 2 - (b :: l).length) 0,
        "bulk string not terminated by CRLF", ?_⟩
      have hlast : (b :: l ++ List.replicate
          (afterLen + len.toInt.toNat + 2 - (b :: l).length) 0)[afterLen + len.toInt.toNat + 1]?
            = some 0 := by
        rw [List.getElem?_append_right (by omega), List.getElem?_replicate, if_pos (by omega)]
      rw [parseBulkString, readNumber_append_ok hnum]
      dsimp only
      rw [if_neg hneg, if_neg, if_pos]
      · right
        rw [hlast]
        decide
      · rw [List.length_append, List.length_replicate]
        omega

/-- The element loop waits for an element, and fails when that one is
spoiled; the elements before it are read as before. -/
theorem parseItems_spoiled {buf : Bytes} {left offset : Nat} {items : List RespValue}
    (hoffset : offset ≤ buf.length)
    (hparse : ∀ k, offset ≤ k → parseResp (buf.drop k) = some .incomplete →
      ∃ more e, parseResp (buf.drop k ++ more) = some (.error e))
    (h : parseItems parseResp buf left offset items = some .incomplete) :
    ∃ more e, parseItems parseResp (buf ++ more) left offset items = some (.error e) := by
  have hdrop : ∀ more, (buf ++ more).drop offset = buf.drop offset ++ more := fun more =>
    List.drop_append_of_le_length hoffset
  -- by the number of items left; the first incomplete one is spoiled
  induction left generalizing offset items with
  | zero => cases h
  | succ left ih =>
      rw [parseItems] at h
      split at h
      · rename_i value consumed hone
        have hconsumed := next_offset_within hone hoffset
        obtain ⟨more, e, he⟩ := ih hconsumed (fun k hk => hparse k (by omega)) h
          (fun more => List.drop_append_of_le_length hconsumed)
        refine ⟨more, e, ?_⟩
        rw [parseItems, hdrop, parseResp_append_eq hone (by simp) more]
        exact he
      · obtain ⟨more, e, he⟩ := hparse offset (Nat.le_refl _) h
        refine ⟨more, e, ?_⟩
        rw [parseItems, hdrop, he]

/-- An array can be spoiled when its items can. -/
theorem parseArray_spoiled {b : UInt8} {l : Bytes}
    (hparse : ∀ k, 1 ≤ k → parseResp ((b :: l).drop k) = some .incomplete →
      ∃ more e, parseResp ((b :: l).drop k ++ more) = some (.error e))
    (h : parseArray parseResp (b :: l) = some .incomplete) :
    ∃ more e, parseArray parseResp (b :: l ++ more) = some (.error e) := by
  rw [parseArray] at h
  cases hnum : readNumber "array count" (b :: l) with
  | error result =>
      rw [hnum] at h
      obtain ⟨e, he⟩ := readNumber_spoiled (hnum.trans (congrArg _ (Option.some.inj h)))
      refine ⟨spoiledEnd, e, ?_⟩
      rw [parseArray, he]
  | ok out =>
      obtain ⟨count, afterCount⟩ := out
      rw [hnum] at h
      obtain ⟨text, rest, hl, _, hafter⟩ := readNumber_eq_ok_iff.mp hnum
      have hbounds : 1 ≤ afterCount ∧ afterCount ≤ (b :: l).length := by
        rw [hl, hafter]
        simp only [List.length_cons, List.length_append]
        omega
      dsimp only at h
      split_ifs at h with hneg hcap
      · cases h
      · obtain ⟨more, e, he⟩ := parseItems_spoiled hbounds.2
          (fun k hk => hparse k (by omega)) h
        refine ⟨more, e, ?_⟩
        rw [parseArray, readNumber_append_ok hnum more]
        dsimp only
        rw [if_neg hneg, if_neg hcap, he]

/-- **An incomplete buffer can be spoiled.** -/
theorem exists_error_of_incomplete {buf : Bytes} (h : parseResp buf = some .incomplete) :
    ∃ more e, parseResp (buf ++ more) = some (.error e) := by
  -- an item of an array is a shorter buffer
  induction hsize : buf.length using Nat.strongRecOn generalizing buf with
  | ind size ih =>
      rw [parseResp_eq] at h
      unfold parseStep at h
      split at h
      · exact ⟨[255], _, by rw [parseResp_eq]; rfl⟩
      · obtain ⟨e, he⟩ := parseText_spoiled (Option.some.inj h)
        exact ⟨spoiledEnd, e, by rw [parseResp_eq]; exact congrArg some he⟩
      · obtain ⟨e, he⟩ := parseText_spoiled (Option.some.inj h)
        exact ⟨spoiledEnd, e, by rw [parseResp_eq]; exact congrArg some he⟩
      · obtain ⟨e, he⟩ := parseInteger_spoiled (Option.some.inj h)
        exact ⟨spoiledEnd, e, by rw [parseResp_eq]; exact congrArg some he⟩
      · obtain ⟨more, e, he⟩ := parseBulkString_spoiled (Option.some.inj h)
        exact ⟨more, e, by rw [parseResp_eq]; exact congrArg some he⟩
      · obtain ⟨more, e, he⟩ := parseArray_spoiled (fun k hk hincomplete => by
          refine ih _ ?_ hincomplete rfl
          rw [List.length_drop]
          rw [List.length_cons] at hsize ⊢
          omega) h
        exact ⟨more, e, by rw [parseResp_eq]; exact he⟩
      · cases h

/-- **Incremental parsing is stable.** What is complete or in error stays
so, with the same value and length or the same message, whatever arrives
behind it; and a buffer that is waited on can still be decided. -/
theorem parseResp_incremental :
    (∀ (b s : Bytes) (v : RespValue) (n : Nat),
      parseResp b = some (.complete v n) → parseResp (b ++ s) = some (.complete v n))
    ∧ (∀ (b s : Bytes) (e : String),
      parseResp b = some (.error e) → parseResp (b ++ s) = some (.error e))
    ∧ (∀ b : Bytes, parseResp b = some .incomplete →
      ∃ s result, parseResp (b ++ s) = some result ∧ result ≠ .incomplete) := by
  refine ⟨?_, ?_, ?_⟩
  · intro b s v n h
    exact parseResp_append_eq h (by simp) s
  · intro b s e h
    exact parseResp_append_eq h (by simp) s
  · intro b h
    obtain ⟨s, e, he⟩ := exists_error_of_incomplete h
    exact ⟨s, .error e, he, by simp⟩

end SelfHealingCache
