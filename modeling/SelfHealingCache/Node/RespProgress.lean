import Mathlib.Order.WellFounded
import SelfHealingCache.Lib.Checked
import SelfHealingCache.Node.RespServer

/-!
# Parsing makes progress

`parse_array` trusts the client for the number of its passes, and
`handle_connection` takes values off its buffer until none is left.
Neither loop is bounded by a counter. What bounds both is that a complete
value is at least THREE bytes long, a type byte and a line end, and lies
inside the buffer (`consumed_within`).

The traced functions are those of `parser.rs` with the buffers they hand
to `parse_resp` as a second result, one a pass of the element loop.
-/

namespace SelfHealingCache

/-! ## The calls of the parser -/

/-- `parseItems`, and the buffers parsed on the way. -/
def parseItemsTraced (parse : Bytes → Option ParseResult) (buf : Bytes) :
    Nat → Nat → List RespValue → Option ParseResult × List Bytes
  | 0, offset, items => (some (.complete (.array items) offset), [])
  | left + 1, offset, items =>
      match parse (buf.drop offset) with
      | some (.complete value consumed) =>
          let out := parseItemsTraced parse buf left (offset + consumed) (items ++ [value])
          (out.1, buf.drop offset :: out.2)
      | other => (other, [buf.drop offset])

def parseArrayTraced (parse : Bytes → Option ParseResult) (buf : Bytes) :
    Option ParseResult × List Bytes :=
  match readNumber "array count" buf with
  | .error result => (some result, [])
  | .ok (count, afterCount) =>
      if count.toInt < 0 then (some (.complete .null afterCount), [])
      else if maxCapacity < count.toInt.toNat then (none, [])
      else parseItemsTraced parse buf count.toInt.toNat afterCount []

def parseStepTraced (parse : Bytes → Option ParseResult) (buf : Bytes) :
    Option ParseResult × List Bytes :=
  match buf with
  | [] => (some .incomplete, [])
  | 43 :: _ => (some (parseSimpleString buf), [])
  | 45 :: _ => (some (parseError buf), [])
  | 58 :: _ => (some (parseInteger buf), [])
  | 36 :: _ => (some (parseBulkString buf), [])
  | 42 :: _ => parseArrayTraced parse buf
  | b :: _ => (some (.error ("unexpected byte: 0x" ++ String.ofList (hexDigits 2 b.toNat))), [])

/-- The buffers `parse_resp` calls itself on. -/
def nestedCalls (buf : Bytes) : List Bytes := (parseStepTraced parseResp buf).2

/-! ## Tracing changes nothing -/

theorem parseItemsTraced_fst (parse : Bytes → Option ParseResult) (buf : Bytes)
    (left offset : Nat) (items : List RespValue) :
    (parseItemsTraced parse buf left offset items).1 = parseItems parse buf left offset items := by
  induction left generalizing offset items with
  | zero => rfl
  | succ left ih =>
      rw [parseItemsTraced, parseItems]
      cases parse (buf.drop offset) with
      | none => rfl
      | some result =>
          cases result with
          | complete value consumed => exact ih _ _
          | incomplete => rfl
          | error e => rfl

theorem parseStepTraced_fst (parse : Bytes → Option ParseResult) (buf : Bytes) :
    (parseStepTraced parse buf).1 = parseStep parse buf := by
  unfold parseStepTraced
  split
  case h_6 =>
    rename_i l
    rw [parseStep, parseArrayTraced, parseArray]
    cases readNumber "array count" (42 :: l) with
    | error result => rfl
    | ok out =>
        dsimp only
        split_ifs
        · rfl
        · rfl
        · exact parseItemsTraced_fst ..
  case h_7 => simp [parseStep, *]
  all_goals rfl

/-! ## The element loop -/

/-- A pass that finds a value moves three bytes on, so the passes are
bounded by the bytes, plus the one that finds none. -/
theorem length_parseItemsTraced_le {buf : Bytes} {left offset : Nat} {items : List RespValue}
    (h : offset ≤ buf.length) :
    (parseItemsTraced parseResp buf left offset items).2.length
      ≤ (buf.length - offset) / 3 + 1 := by
  induction left generalizing offset items with
  | zero => exact Nat.zero_le _
  | succ left ih =>
      rw [parseItemsTraced]
      split
      · rename_i value consumed hparse
        have hnext := next_offset_within hparse h
        have hthree := (consumed_within hparse).1
        have hrest := @ih (offset + consumed) (items ++ [value]) hnext
        rw [List.length_cons]
        omega
      · rw [List.length_singleton]
        omega

/-- The loop only moves forward. -/
theorem mem_parseItemsTraced {parse : Bytes → Option ParseResult} {buf sub : Bytes}
    {left offset : Nat} {items : List RespValue}
    (h : sub ∈ (parseItemsTraced parse buf left offset items).2) :
    ∃ k, offset ≤ k ∧ sub = buf.drop k := by
  induction left generalizing offset items with
  | zero => cases h
  | succ left ih =>
      rw [parseItemsTraced] at h
      split at h
      · rcases List.mem_cons.mp h with rfl | hrest
        · exact ⟨offset, Nat.le_refl _, rfl⟩
        · obtain ⟨k, hk, rfl⟩ := ih hrest
          exact ⟨k, by omega, rfl⟩
      · exact ⟨offset, Nat.le_refl _, List.mem_singleton.mp h⟩

/-- Only an array with a count line makes calls. -/
theorem nestedCalls_cases (buf : Bytes) :
    nestedCalls buf = []
      ∨ ∃ count afterCount, readNumber "array count" buf = .ok (count, afterCount)
        ∧ nestedCalls buf
          = (parseItemsTraced parseResp buf count.toInt.toNat afterCount []).2 := by
  unfold nestedCalls parseStepTraced
  split
  case h_6 =>
    rename_i l
    rw [parseArrayTraced]
    cases hnum : readNumber "array count" (42 :: l) with
    | error result => exact .inl rfl
    | ok out =>
        dsimp only
        split_ifs
        · exact .inl rfl
        · exact .inl rfl
        · exact .inr ⟨out.1, out.2, rfl, rfl⟩
  all_goals exact .inl rfl

/-- **Every nested call is on a buffer three bytes shorter.** -/
theorem length_of_mem_nestedCalls {buf sub : Bytes} (h : sub ∈ nestedCalls buf) :
    sub.length + 3 ≤ buf.length := by
  rcases nestedCalls_cases buf with hnone | ⟨count, afterCount, hnum, hcalls⟩
  · rw [hnone] at h
    cases h
  · rw [hcalls] at h
    obtain ⟨k, hk, rfl⟩ := mem_parseItemsTraced h
    have hafter := readNumber_within hnum
    rw [List.length_drop]
    omega

theorem wellFounded_nestedCalls : WellFounded fun sub buf => sub ∈ nestedCalls buf := by
  apply Subrelation.wf (r := fun sub buf : Bytes => sub.length < buf.length)
  · intro sub buf h
    have hshorter := length_of_mem_nestedCalls h
    omega
  · exact InvImage.wf List.length Nat.lt_wfRel.wf

/-- **The passes of an array**, whatever count its client announces. -/
theorem length_nestedCalls_le {buf : Bytes} {count : Int64} {afterCount : Nat}
    (h : readNumber "array count" buf = .ok (count, afterCount)) :
    (nestedCalls buf).length ≤ (buf.length - afterCount) / 3 + 1 := by
  rcases nestedCalls_cases buf with hnone | ⟨_, _, hnum, hcalls⟩
  · rw [hnone]
    exact Nat.zero_le _
  · rw [h] at hnum
    cases hnum
    rw [hcalls]
    exact length_parseItemsTraced_le (readNumber_within h).2

/-- No call is deeper than a third of the buffer. -/
theorem iterate_parseStep (innermost : Bytes → Option ParseResult) {buf : Bytes} {depth : Nat}
    (h : buf.length / 3 < depth) : parseStep^[depth] innermost buf = parseResp buf := by
  have hshrinks : ∀ b : Bytes, Unfold.Shrinks (fun b : Bytes => b.length / 3) parseStep b := by
    intro b p q hpq
    apply parseStep_congr
    intro c hc
    exact hpq c (show c.length / 3 < b.length / 3 by omega)
  exact Unfold.iterate_eq hshrinks parseResp_eq innermost h

/-! ## The loop of the connection -/

/-- `BytesMut::advance`: past the end it panics. -/
def advance (buf : Bytes) (cnt : Nat) : Except Panic Bytes := Checked.sliceFrom buf cnt

section Passes

variable {σ : Type*} (handle : σ → RespValue → Option (Bytes × σ))

/-- The body of the inner loop of `handle_connection`, `loop` being the
passes that follow. -/
def drainPass (loop : σ × Bytes → Except Panic (List ConnEvent × ConnState σ)) :
    σ × Bytes → Except Panic (List ConnEvent × ConnState σ)
  | (st, buf) =>
      if buf.isEmpty then .ok ([], some (st, buf))
      else match parseResp buf with
        | none => .ok ([], none)
        | some (.complete value consumed) =>
            match handle st value with
            | none => .ok ([.dispatch value none], none)
            | some (response, st') =>
                match advance buf consumed with
                | .error p => .error p
                | .ok rest =>
                    (loop (st', rest)).map fun out =>
                      (.dispatch value (some response) :: out.1, out.2)
        | some .incomplete => .ok ([], some (st, buf))
        | some (.error e) => .ok ([.protocolError e], some (st, []))

theorem advance_eq_ok {buf : Bytes} {value : RespValue} {consumed : Nat}
    (h : parseResp buf = some (.complete value consumed)) :
    advance buf consumed = .ok (buf.drop consumed) :=
  Checked.sliceFrom_eq_ok (consumed_within h).2

/-- A pass leaves at least three bytes fewer to the next. -/
theorem shrinks_drainPass (s : σ × Bytes) :
    Unfold.Shrinks (fun s : σ × Bytes => s.2.length / 3) (drainPass handle) s := by
  intro p q hpq
  obtain ⟨st, buf⟩ := s
  rw [drainPass, drainPass]
  cases hparse : parseResp buf with
  | none => rfl
  | some result =>
      cases result with
      | complete value consumed =>
          dsimp only
          cases handle st value with
          | none => rfl
          | some out =>
              have hwithin := consumed_within hparse
              have hnext : p (out.2, buf.drop consumed) = q (out.2, buf.drop consumed) := by
                apply hpq
                show (buf.drop consumed).length / 3 < buf.length / 3
                rw [List.length_drop]
                omega
              dsimp only
              rw [advance_eq_ok hparse]
              dsimp only
              rw [hnext]
      | incomplete => rfl
      | error e => rfl

/-- `drain` satisfies the equation of the loop. -/
theorem drainPass_drain (s : σ × Bytes) :
    (.ok (drain handle s.1 s.2) : Except Panic _)
      = drainPass handle (fun s => .ok (drain handle s.1 s.2)) s := by
  obtain ⟨st, buf⟩ := s
  rw [drainPass]
  split_ifs with hempty
  · obtain rfl := List.isEmpty_iff.mp hempty
    rfl
  · dsimp only
    rw [drain_eq]
    cases hparse : parseResp buf with
    | none => rfl
    | some result =>
        cases result with
        | complete value consumed =>
            dsimp only
            cases handle st value with
            | none => rfl
            | some out =>
                dsimp only
                rw [advance_eq_ok hparse]
                rfl
        | incomplete => rfl
        | error e => rfl

end Passes

/-- **Parsing makes progress and terminates.** A complete value takes at
least three bytes and no more than there are. So the parser only calls
itself on buffers three bytes shorter, and is done at a depth of a third
of the buffer; the passes over an array are bounded by the bytes behind
its count line; taking a value off the connection's buffer never goes past
its end; and the inner loop is over after a third as many passes as there
are bytes, whatever the handler does. -/
theorem parsing_terminates {σ : Type*} (handle : σ → RespValue → Option (Bytes × σ)) :
    (∀ buf value consumed, parseResp buf = some (.complete value consumed) →
        3 ≤ consumed ∧ consumed ≤ buf.length)
      ∧ (∀ buf, (parseStepTraced parseResp buf).1 = parseResp buf
        ∧ ∀ sub ∈ nestedCalls buf, sub.length + 3 ≤ buf.length)
      ∧ (WellFounded fun sub buf => sub ∈ nestedCalls buf)
      ∧ (∀ innermost buf depth, buf.length / 3 < depth →
        parseStep^[depth] innermost buf = parseResp buf)
      ∧ (∀ buf count afterCount, readNumber "array count" buf = .ok (count, afterCount) →
        (nestedCalls buf).length ≤ (buf.length - afterCount) / 3 + 1)
      ∧ (∀ buf value consumed, parseResp buf = some (.complete value consumed) →
        advance buf consumed = .ok (buf.drop consumed))
      ∧ ∀ unfinished st buf passes, buf.length / 3 < passes →
        (drainPass handle)^[passes] unfinished (st, buf) = .ok (drain handle st buf) := by
  refine ⟨fun _ _ _ h => consumed_within h, ?_, wellFounded_nestedCalls,
    fun innermost _ _ h => iterate_parseStep innermost h, fun _ _ _ h => length_nestedCalls_le h,
    fun _ _ _ h => advance_eq_ok h, ?_⟩
  · intro buf
    refine ⟨?_, fun sub hsub => length_of_mem_nestedCalls hsub⟩
    rw [parseStepTraced_fst, ← parseResp_eq]
  · intro unfinished st buf passes h
    exact Unfold.iterate_eq (shrinks_drainPass handle) (drainPass_drain handle) unfinished h

end SelfHealingCache
