import SelfHealingCache.Node.CommandPanics
import SelfHealingCache.Node.RespRoundTrip

/-!
# What `SET` accepts

`cmd_set` of `crates/node/src/resp/server.rs` reads its arguments left to
right and leaves at the first one it cannot use. `SetForm` says from
outside which argument lists it takes: a key, a value, and PAIRS of an
option and a number, of which the last one decides. It has no loop, no
position and no error in it.

The loop is compared with the pairs in both directions. Every exit comes
before the one write, so a refused command leaves the store alone.
-/

namespace SelfHealingCache

/-! ## The accepted form -/

/-- `EX` and a number of seconds, or `PX` and a number of milliseconds;
the duration is in nanoseconds. -/
inductive OptionPair : RespValue → RespValue → Duration → Prop where
  | ex {arg number : RespValue} {opt s : String} {n : Nat} (hopt : IsText arg opt)
      (hname : toUppercase opt = "EX") (hs : IsText number s) (hn : U64Lexeme s.toList n) :
      OptionPair arg number (n * 1000000000)
  | px {arg number : RespValue} {opt s : String} {n : Nat} (hopt : IsText arg opt)
      (hname : toUppercase opt = "PX") (hs : IsText number s) (hn : U64Lexeme s.toList n) :
      OptionPair arg number (n * 1000000)

/-- Zero or more pairs, and the duration of the last. -/
inductive OptionPairs : List RespValue → Option Duration → Prop where
  | none : OptionPairs [] none
  | snoc {options : List RespValue} {ttl : Option Duration} {arg number : RespValue}
      {d : Duration} (hpairs : OptionPairs options ttl) (hlast : OptionPair arg number d) :
      OptionPairs (options ++ [arg, number]) (some d)

/-- `SET key value [option number ...]`. The command's own name is not
looked at here: `handle_command` has read it. -/
inductive SetForm : List RespValue → String → Bytes → Option Duration → Prop where
  | mk {command keyArg valueArg : RespValue} {options : List RespValue} {key : String}
      {value : Bytes} {ttl : Option Duration} (hkey : IsText keyArg key)
      (hvalue : IsString valueArg value) (hoptions : OptionPairs options ttl) :
      SetForm (command :: keyArg :: valueArg :: options) key value ttl

/-! ## One pair -/

theorem optionUnit_eq_some_iff {opt : String} {unit : UInt64 → Duration} :
    optionUnit opt = some unit
      ↔ (opt = "EX" ∧ unit = fromSecs) ∨ (opt = "PX" ∧ unit = fromMillis) := by
  have hdiff : "PX" ≠ "EX" := by decide
  rw [optionUnit]
  by_cases hex : opt = "EX"
  · subst hex
    simp [hdiff.symm, eq_comm]
  · by_cases hpx : opt = "PX"
    · subst hpx
      simp [hdiff, eq_comm]
    · simp [hex, hpx]

/-- What one pass of the loop asks of its two arguments. -/
theorem optionAsks_iff {arg number : RespValue} {d : Duration} :
    OptionAsks arg number d ↔ OptionPair arg number d := by
  constructor
  · rintro ⟨opt, unit, n, hopt, hunit, hn, rfl⟩
    obtain ⟨s, hs, hparse⟩ := Option.bind_eq_some_iff.mp hn
    rw [extractStr_eq_some_iff] at hopt hs
    rw [parseU64_eq_some_iff] at hparse
    rcases optionUnit_eq_some_iff.mp hunit with ⟨hname, rfl⟩ | ⟨hname, rfl⟩
    · exact .ex hopt hname hs hparse
    · exact .px hopt hname hs hparse
  · intro h
    have hnumber : ∀ {s : String} {n : Nat}, IsText number s → U64Lexeme s.toList n →
        (extractStr number).bind parseU64 = some (UInt64.ofNat n)
          ∧ (UInt64.ofNat n).toNat = n := by
      intro s n hs hn
      have hback : (UInt64.ofNat n).toNat = n := UInt64.toNat_ofNat_of_lt' hn.lt
      refine ⟨?_, hback⟩
      rw [extractStr_eq_some_iff.mpr hs, Option.bind_some, parseU64_eq_some_iff, hback]
      exact hn
    cases h with
    | @ex opt s n hopt hname hs hn =>
        obtain ⟨hread, hback⟩ := hnumber hs hn
        refine ⟨opt, fromSecs, UInt64.ofNat n, extractStr_eq_some_iff.mpr hopt,
          optionUnit_eq_some_iff.mpr (.inl ⟨hname, rfl⟩), hread, ?_⟩
        rw [fromSecs, hback]
    | @px opt s n hopt hname hs hn =>
        obtain ⟨hread, hback⟩ := hnumber hs hn
        refine ⟨opt, fromMillis, UInt64.ofNat n, extractStr_eq_some_iff.mpr hopt,
          optionUnit_eq_some_iff.mpr (.inr ⟨hname, rfl⟩), hread, ?_⟩
        rw [fromMillis, hback]

/-! ## The loop and the pairs -/

/-- What the loop has read so far is its state: the rest does not look
back. -/
theorem setOptions_append {options : List RespValue} {ttl t : Option Duration}
    (h : setOptions options ttl = .ok t) (more : List RespValue) :
    setOptions (options ++ more) ttl = setOptions more t := by
  induction options using List.twoStepInduction generalizing ttl with
  | nil =>
      cases h
      rfl
  | singleton arg => exact absurd h (setOptions_singleton_ne_ok arg ttl t)
  | cons_cons arg number rest ih =>
      obtain ⟨d, hone, hrest⟩ := setOptions_pair_iff.mp h
      obtain ⟨opt, unit, n, hopt, hunit, hn, rfl⟩ := hone
      rw [List.cons_append, List.cons_append, setOptions]
      simp only [hopt, hunit, hn]
      exact ih hrest

theorem setOptions_of_optionPairs {options : List RespValue} {ttl : Option Duration}
    (h : OptionPairs options ttl) : setOptions options none = .ok ttl := by
  induction h with
  | none => rfl
  | snoc _ hlast ih =>
      rw [setOptions_append ih, setOptions_pair_iff]
      exact ⟨_, optionAsks_iff.mpr hlast, rfl⟩

/-- The pairs already read are carried along, so that the last one read is
the last of the list. -/
theorem optionPairs_of_setOptions {done options : List RespValue} {acc ttl : Option Duration}
    (hdone : OptionPairs done acc) (h : setOptions options acc = .ok ttl) :
    OptionPairs (done ++ options) ttl := by
  induction options using List.twoStepInduction generalizing done acc with
  | nil =>
      cases h
      rw [List.append_nil]
      exact hdone
  | singleton arg => exact absurd h (setOptions_singleton_ne_ok arg acc ttl)
  | cons_cons arg number rest ih =>
      obtain ⟨d, hone, hrest⟩ := setOptions_pair_iff.mp h
      have hnext := ih (hdone.snoc (optionAsks_iff.mp hone)) hrest
      rw [List.append_assoc] at hnext
      exact hnext

/-- **The parser of `SET` is exact.** -/
theorem parseSet_eq_ok_iff {args : List RespValue} {key : String} {value : Bytes}
    {ttl : Option Duration} :
    parseSet args = .ok (key, value, ttl) ↔ SetForm args key value ttl := by
  constructor
  · intro h
    obtain ⟨command, keyArg, valueArg, options, rfl, hkey, hvalue, hoptions⟩ := parseSet_eq_ok h
    exact .mk (extractStr_eq_some_iff.mp hkey) (extractBytes_eq_some_iff.mp hvalue)
      (optionPairs_of_setOptions .none hoptions)
  · rintro ⟨hkey, hvalue, hoptions⟩
    simp only [parseSet, extractStr_eq_some_iff.mpr hkey, extractBytes_eq_some_iff.mpr hvalue,
      setOptions_of_optionPairs hoptions]

/-- An argument list asks for one thing at most. -/
theorem SetForm.unique {args : List RespValue} {key key' : String} {value value' : Bytes}
    {ttl ttl' : Option Duration} (h : SetForm args key value ttl)
    (h' : SetForm args key' value' ttl') : key' = key ∧ value' = value ∧ ttl' = ttl := by
  have heq := (parseSet_eq_ok_iff.mpr h').symm.trans (parseSet_eq_ok_iff.mpr h)
  simpa using heq

/-! ## The command -/

/-- An error reply starts with a minus sign. -/
theorem encodeError_ne_ok (msg : String) : encodeError msg ≠ encodeSimpleString "OK" := by
  rw [encodeError_eq, encodeSimpleString_eq]
  simp

/-- The accepted form is carried out. -/
theorem cmdSetChecked_of_form {args : List RespValue} {key : String} {value : Bytes}
    {ttl : Option Duration} (h : SetForm args key value ttl) {now : Instant}
    (hfits : ∀ d, ttl = some d → now + d < instantEnd) (store : CacheStore) :
    cmdSetChecked args store now
      = .ok (encodeSimpleString "OK", store.set now key value ttl) := by
  rw [cmdSetChecked_eq, parseSet_eq_ok_iff.mpr h]
  dsimp only
  rw [setChecked_eq_ok hfits]
  rfl

/-- Everything else is refused before the store is touched. -/
theorem cmdSetChecked_refuses {args : List RespValue}
    (h : ¬ ∃ key value ttl, SetForm args key value ttl) (store : CacheStore) (now : Instant) :
    ∃ msg, cmdSetChecked args store now = .ok (encodeError msg, store) := by
  rw [cmdSetChecked_eq]
  cases hparse : parseSet args with
  | error msg => exact ⟨msg, rfl⟩
  | ok out =>
      obtain ⟨key, value, ttl⟩ := out
      exact absurd ⟨key, value, ttl, parseSet_eq_ok_iff.mp hparse⟩ h

/-- **`SET` is exact and atomic**, as long as the expiry it asks for can
be represented. It answers OK to the accepted form and to nothing else;
then the key holds the value and the expiry of the LAST pair, and no
other key is touched. Everything else is answered with an error, the
store as it was. -/
theorem cmdSet_exact {args : List RespValue} {now : Instant}
    (hfits : ∀ key value d, SetForm args key value (some d) → now + d < instantEnd)
    (store : CacheStore) :
    ∃ reply after, cmdSetChecked args store now = .ok (reply, after)
      ∧ (reply = encodeSimpleString "OK" ↔ ∃ key value ttl, SetForm args key value ttl)
      ∧ (∀ key value ttl, SetForm args key value ttl →
          after.data.lookup key = some ⟨value, ttl.map (now + ·)⟩
          ∧ ∀ other, other ≠ key → after.data.lookup other = store.data.lookup other)
      ∧ ((¬ ∃ key value ttl, SetForm args key value ttl) →
          (∃ msg, reply = encodeError msg) ∧ after = store) := by
  by_cases hany : ∃ key value ttl, SetForm args key value ttl
  · obtain ⟨key, value, ttl, hform⟩ := hany
    have hrun := cmdSetChecked_of_form hform
      (fun d hd => hfits key value d (by rw [← hd]; exact hform)) store
    refine ⟨_, _, hrun, ?_, ?_, ?_⟩
    · exact ⟨fun _ => ⟨key, value, ttl, hform⟩, fun _ => rfl⟩
    · intro key' value' ttl' hform'
      obtain ⟨rfl, rfl, rfl⟩ := hform.unique hform'
      constructor
      · rw [CacheStore.lookup_set, if_pos rfl]
      · intro other hother
        rw [CacheStore.lookup_set, if_neg hother]
    · intro hnone
      exact absurd ⟨key, value, ttl, hform⟩ hnone
  · obtain ⟨msg, hrun⟩ := cmdSetChecked_refuses hany store now
    refine ⟨_, _, hrun, ?_, ?_, ?_⟩
    · exact ⟨fun hok => absurd hok (encodeError_ne_ok msg), fun hform => absurd hform hany⟩
    · intro key value ttl hform
      exact absurd ⟨key, value, ttl, hform⟩ hany
    · intro _
      exact ⟨⟨msg, rfl⟩, rfl⟩

/-- `SET k v ex 10 PX 5`: two options, and the later one decides. -/
theorem set_ex_px :
    ∃ reply after,
      cmdSetChecked [bulk "SET", bulk "k", bulk "v", bulk "ex", bulk "10", bulk "PX", bulk "5"]
          .new 0 = .ok (reply, after)
        ∧ reply = encodeSimpleString "OK"
        ∧ after.data.lookup "k" = some ⟨bytesOf "v", some 5000000⟩ := by
  have hten : U64Lexeme "10".toList 10 :=
    .plain (by decide) (List.all_eq_true.mp (by decide)) (by decide)
  have hfive : U64Lexeme "5".toList 5 :=
    .plain (by decide) (List.all_eq_true.mp (by decide)) (by decide)
  have hform : SetForm
      [bulk "SET", bulk "k", bulk "v", bulk "ex", bulk "10", bulk "PX", bulk "5"]
      "k" (bytesOf "v") (some 5000000) :=
    .mk (.bulk "k") (.bulk _)
      ((OptionPairs.none.snoc (.ex (.bulk "ex") (by decide) (.bulk "10") hten)).snoc
        (.px (.bulk "PX") (by decide) (.bulk "5") hfive))
  have hfits : ∀ key value d, SetForm
      [bulk "SET", bulk "k", bulk "v", bulk "ex", bulk "10", bulk "PX", bulk "5"]
      key value (some d) → 0 + d < instantEnd := by
    intro key value d hother
    obtain ⟨_, _, hd⟩ := hform.unique hother
    cases hd
    decide
  obtain ⟨reply, after, hrun, hok, hstored, _⟩ := cmdSet_exact hfits .new
  exact ⟨reply, after, hrun, hok.mpr ⟨_, _, _, hform⟩, (hstored _ _ _ hform).1⟩

end SelfHealingCache
