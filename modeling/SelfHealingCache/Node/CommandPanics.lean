import Mathlib.Data.List.Induction
import SelfHealingCache.Lib.Checked
import SelfHealingCache.Node.RespServer

/-!
# Where a RESP command panics

The commands of `crates/node/src/resp/server.rs` with their argument
indices and slices, and the two store operations that form an expiry with
`Instant::now() + d`. An `Instant` holds signed 64-bit seconds and
nanoseconds, and the sum panics when it is past the last one; the
`Duration` comes from a `u64` of the client's. The positions the option
loop counts stay below the length of a `Vec`, and are plain numbers.

Every index is guarded. What is left is the sum, in `SET` with a time to
live and in `EXPIRE` of a key that is in the map.
-/

namespace SelfHealingCache

open Checked

/-! ## Expiries -/

/-- The first reading the clock cannot represent: `2 ^ 63` seconds. -/
def instantEnd : Nat := 2 ^ 63 * 1000000000

/-- `Instant + Duration`. -/
def addDuration (now : Instant) (d : Duration) : Except Panic Instant :=
  if now + d < instantEnd then .ok (now + d) else .error .overflow

namespace CacheStore

def setChecked (s : CacheStore) (now : Instant) (key : String) (value : Bytes)
    (ttl : Option Duration) : Except Panic CacheStore :=
  match ttl with
  | none => pure ⟨s.data.insert key ⟨value, none⟩⟩
  | some d => do
      let expiresAt ← addDuration now d
      pure ⟨s.data.insert key ⟨value, some expiresAt⟩⟩

def expireChecked (s : CacheStore) (now : Instant) (key : String) (ttl : Duration) :
    Except Panic (Bool × CacheStore) :=
  match s.data.lookup key with
  | some _ => do
      let expiresAt ← addDuration now ttl
      pure (true, ⟨s.data.modify key fun entry => { entry with expiresAt := some expiresAt }⟩)
  | none => pure (false, s)

end CacheStore

/-! ## Commands -/

def cmdPingChecked (args : List RespValue) : Except Panic Bytes :=
  if args.length = 1 then pure (encodeSimpleString "PONG")
  else if args.length = 2 then do
    let message ← index args 1
    match extractBytes message with
    | some data => pure (encodeBulkString data)
    | none => pure (encodeError "ERR invalid argument")
  else pure (encodeError (wrongArguments "ping"))

def cmdEchoChecked (args : List RespValue) : Except Panic Bytes :=
  if args.length ≠ 2 then pure (encodeError (wrongArguments "echo"))
  else do
    let message ← index args 1
    match extractBytes message with
    | some data => pure (encodeBulkString data)
    | none => pure (encodeError "ERR invalid argument")

/-- The one key of `cmd_get`, `cmd_exists` and `cmd_ttl`. -/
def parseKeyChecked (command : String) (args : List RespValue) :
    Except Panic (Except String String) :=
  if args.length ≠ 2 then pure (.error (wrongArguments command))
  else do
    let keyArg ← index args 1
    match extractStr keyArg with
    | some key => pure (.ok key)
    | none => pure (.error "ERR invalid key")

/-- The option loop of `cmd_set` at position `i`. A pass takes two
arguments, so there are fewer passes than arguments. -/
def setOptionsChecked (args : List RespValue) :
    Nat → Nat → Option Duration → Except Panic (Except String (Option Duration))
  | 0, _, ttl => pure (.ok ttl)
  | passes + 1, i, ttl =>
      if i < args.length then do
        let arg ← index args i
        match extractStr arg with
        | none => pure (.error "ERR invalid option")
        | some opt =>
            match optionUnit (toUppercase opt) with
            | none => pure (.error "ERR syntax error")
            | some unit =>
                if args.length ≤ i + 1 then pure (.error (wrongArguments "set"))
                else do
                  let number ← index args (i + 1)
                  match (extractStr number).bind parseU64 with
                  | none => pure (.error "ERR value is not an integer or out of range")
                  | some n => setOptionsChecked args passes (i + 2) (some (unit n))
      else pure (.ok ttl)

def cmdSetChecked (args : List RespValue) (store : CacheStore) (now : Instant) :
    Except Panic (Bytes × CacheStore) :=
  if args.length < 3 then pure (encodeError (wrongArguments "set"), store)
  else do
    let keyArg ← index args 1
    match extractStr keyArg with
    | none => pure (encodeError "ERR invalid key", store)
    | some key =>
        let valueArg ← index args 2
        match extractBytes valueArg with
        | none => pure (encodeError "ERR invalid value", store)
        | some value =>
            match ← setOptionsChecked args args.length 3 none with
            | .error msg => pure (encodeError msg, store)
            | .ok ttl =>
                let store ← store.setChecked now key value ttl
                pure (encodeSimpleString "OK", store)

def cmdGetChecked (args : List RespValue) (store : CacheStore) (now : Instant) :
    Except Panic (Bytes × CacheStore) := do
  match ← parseKeyChecked "get" args with
  | .error msg => pure (encodeError msg, store)
  | .ok key =>
      let out := store.get now key
      match out.1 with
      | some val => pure (encodeBulkString val, out.2)
      | none => pure (encodeNull, out.2)

def cmdDelChecked (args : List RespValue) (store : CacheStore) :
    Except Panic (Bytes × CacheStore) :=
  if args.length < 2 then pure (encodeError (wrongArguments "del"), store)
  else do
    let keyArgs ← sliceFrom args 1
    let out := deleteKeys (keyArgs.filterMap extractStr) 0 store
    pure (encodeInteger out.1, out.2)

def cmdExistsChecked (args : List RespValue) (store : CacheStore) (now : Instant) :
    Except Panic (Bytes × CacheStore) := do
  match ← parseKeyChecked "exists" args with
  | .error msg => pure (encodeError msg, store)
  | .ok key =>
      let out := store.containsKey now key
      pure (encodeInteger (if out.1 then 1 else 0), out.2)

def cmdTtlChecked (args : List RespValue) (store : CacheStore) (now later : Instant) :
    Except Panic (Bytes × CacheStore) := do
  match ← parseKeyChecked "ttl" args with
  | .error msg => pure (encodeError msg, store)
  | .ok key =>
      let out := store.containsKey now key
      if ¬ out.1 then pure (encodeInteger (-2), out.2)
      else match out.2.ttl later key with
        | some dur => pure (encodeInteger (asSecs dur).toInt, out.2)
        | none => pure (encodeInteger (-1), out.2)

def cmdExpireChecked (args : List RespValue) (store : CacheStore) (now : Instant) :
    Except Panic (Bytes × CacheStore) :=
  if args.length ≠ 3 then pure (encodeError (wrongArguments "expire"), store)
  else do
    let keyArg ← index args 1
    match extractStr keyArg with
    | none => pure (encodeError "ERR invalid key", store)
    | some key =>
        let secsArg ← index args 2
        match (extractStr secsArg).bind parseU64 with
        | none => pure (encodeError "ERR value is not an integer or out of range", store)
        | some secs =>
            let out ← store.expireChecked now key (fromSecs secs)
            pure (encodeInteger (if out.1 then 1 else 0), out.2)

/-- `handle_command` with its panics, its clock readings in order. -/
def handleCommandChecked (value : RespValue) (store : CacheStore) (clock : Nat → Instant) :
    Except Panic (Bytes × CacheStore) :=
  match value with
  | .array args =>
      if args.isEmpty then pure (encodeError "ERR empty command", store)
      else do
        let name ← index args 0
        match extractStr name with
        | none => pure (encodeError "ERR invalid command", store)
        | some s =>
            match toUppercase s with
            | "PING" => do
                let reply ← cmdPingChecked args
                pure (reply, store)
            | "ECHO" => do
                let reply ← cmdEchoChecked args
                pure (reply, store)
            | "SET" => cmdSetChecked args store (clock 0)
            | "GET" => cmdGetChecked args store (clock 0)
            | "DEL" => cmdDelChecked args store
            | "EXISTS" => cmdExistsChecked args store (clock 0)
            | "TTL" => cmdTtlChecked args store (clock 0) (clock 1)
            | "EXPIRE" => cmdExpireChecked args store (clock 0)
            | _ => pure (encodeError "ERR unknown command", store)
  | _ => pure (encodeError "ERR expected array (RESP command)", store)

/-! ## The guarded indices -/

theorem cmdPingChecked_eq (args : List RespValue) : cmdPingChecked args = .ok (cmdPing args) := by
  unfold cmdPing
  split
  · rfl
  · rename_i message
    rw [cmdPingChecked, if_neg (by simp), if_pos (by simp), index_eq_ok (a := message) rfl, ok_bind]
    cases extractBytes message with
    | none => rfl
    | some data => rfl
  · rename_i hone htwo
    rw [cmdPingChecked, if_neg, if_neg]
    · rfl
    · intro hlen
      obtain ⟨a, b, rfl⟩ := List.length_eq_two.mp hlen
      exact htwo _ _ rfl
    · intro hlen
      obtain ⟨a, rfl⟩ := List.length_eq_one_iff.mp hlen
      exact hone _ rfl

theorem cmdEchoChecked_eq (args : List RespValue) : cmdEchoChecked args = .ok (cmdEcho args) := by
  unfold cmdEcho
  split
  · rename_i message
    rw [cmdEchoChecked, if_neg (by simp), index_eq_ok (a := message) rfl, ok_bind]
    cases extractBytes message with
    | none => rfl
    | some data => rfl
  · rename_i htwo
    rw [cmdEchoChecked, if_pos]
    · rfl
    · intro hlen
      obtain ⟨a, b, rfl⟩ := List.length_eq_two.mp hlen
      exact htwo _ _ rfl

theorem parseKeyChecked_eq (command : String) (args : List RespValue) :
    parseKeyChecked command args = .ok (parseKey command args) := by
  unfold parseKey
  split
  · rename_i keyArg
    rw [parseKeyChecked, if_neg (by simp), index_eq_ok (a := keyArg) rfl, ok_bind]
    cases extractStr keyArg with
    | none => rfl
    | some key => rfl
  · rename_i htwo
    rw [parseKeyChecked, if_pos]
    · rfl
    · intro hlen
      obtain ⟨a, b, rfl⟩ := List.length_eq_two.mp hlen
      exact htwo _ _ rfl

/-- **The look-ahead of the option loop stays in range**: the loop at
position `i` reads the options from there on. -/
theorem setOptionsChecked_eq {args : List RespValue} {passes i : Nat} {ttl : Option Duration}
    (h : args.length ≤ i + passes) :
    setOptionsChecked args passes i ttl = .ok (setOptions (args.drop i) ttl) := by
  induction passes generalizing i ttl with
  | zero =>
      rw [List.drop_eq_nil_of_le (by omega)]
      rfl
  | succ passes ih =>
      rw [setOptionsChecked]
      by_cases hi : i < args.length
      · rw [if_pos hi]
        have harg := List.getElem?_eq_getElem hi
        rw [index_eq_ok harg, ok_bind, List.drop_eq_getElem_cons hi]
        by_cases hlast : args.length ≤ i + 1
        · rw [List.drop_eq_nil_of_le hlast, setOptions]
          cases extractStr args[i] with
          | none => rfl
          | some opt =>
              dsimp only
              cases optionUnit (toUppercase opt) with
              | none => rfl
              | some unit =>
                  dsimp only
                  rw [if_pos hlast]
                  rfl
        · have hnumber := List.getElem?_eq_getElem (Nat.lt_of_not_le hlast)
          rw [List.drop_eq_getElem_cons (Nat.lt_of_not_le hlast), setOptions]
          cases extractStr args[i] with
          | none => rfl
          | some opt =>
              dsimp only
              cases optionUnit (toUppercase opt) with
              | none => rfl
              | some unit =>
                  dsimp only
                  rw [if_neg hlast, index_eq_ok hnumber, ok_bind]
                  cases (extractStr args[i + 1]).bind parseU64 with
                  | none => rfl
                  | some n => exact ih (by omega)
      · rw [if_neg hi, List.drop_eq_nil_of_le (Nat.le_of_not_lt hi)]
        rfl

/-- `SET` with its options read. -/
theorem cmdSetChecked_eq (args : List RespValue) (store : CacheStore) (now : Instant) :
    cmdSetChecked args store now = match parseSet args with
      | .error msg => .ok (encodeError msg, store)
      | .ok (key, value, ttl) =>
          (store.setChecked now key value ttl).map fun store => (encodeSimpleString "OK", store) := by
  rcases args with _ | ⟨name, _ | ⟨keyArg, _ | ⟨valueArg, options⟩⟩⟩
  · rfl
  · rfl
  · rfl
  · rw [cmdSetChecked, if_neg (by simp), index_eq_ok (a := keyArg) rfl, ok_bind, parseSet]
    cases extractStr keyArg with
    | none => rfl
    | some key =>
        dsimp only
        rw [index_eq_ok (a := valueArg) rfl, ok_bind]
        cases extractBytes valueArg with
        | none => rfl
        | some value =>
            dsimp only
            rw [setOptionsChecked_eq (by simp), ok_bind]
            simp only [List.drop_succ_cons, List.drop_zero]
            cases setOptions options none with
            | error msg => rfl
            | ok ttl => rfl

theorem cmdDelChecked_eq (args : List RespValue) (store : CacheStore) :
    cmdDelChecked args store = .ok (cmdDel args store) := by
  rcases args with _ | ⟨name, _ | ⟨key, keys⟩⟩
  · rfl
  · rfl
  · rw [cmdDelChecked, if_neg (by simp), sliceFrom_eq_ok (by simp)]
    rfl

theorem cmdGetChecked_eq (args : List RespValue) (store : CacheStore) (now : Instant) :
    cmdGetChecked args store now = .ok (cmdGet args store now) := by
  rw [cmdGetChecked, cmdGet, parseKeyChecked_eq, ok_bind]
  cases parseKey "get" args with
  | error msg => rfl
  | ok key =>
      dsimp only
      cases (store.get now key).1 with
      | none => rfl
      | some val => rfl

theorem cmdExistsChecked_eq (args : List RespValue) (store : CacheStore) (now : Instant) :
    cmdExistsChecked args store now = .ok (cmdExists args store now) := by
  rw [cmdExistsChecked, cmdExists, parseKeyChecked_eq, ok_bind]
  cases parseKey "exists" args with
  | error msg => rfl
  | ok key => rfl

theorem cmdTtlChecked_eq (args : List RespValue) (store : CacheStore) (now later : Instant) :
    cmdTtlChecked args store now later = .ok (cmdTtl args store now later) := by
  rw [cmdTtlChecked, cmdTtl, parseKeyChecked_eq, ok_bind]
  cases parseKey "ttl" args with
  | error msg => rfl
  | ok key =>
      dsimp only
      by_cases hpresent : (store.containsKey now key).1 = true
      · rw [if_neg (not_not.mpr hpresent), if_neg (not_not.mpr hpresent)]
        cases (store.containsKey now key).2.ttl later key with
        | none => rfl
        | some dur => rfl
      · rw [if_pos hpresent, if_pos hpresent]
        rfl

/-- `EXPIRE` with its arguments read. -/
theorem cmdExpireChecked_eq (args : List RespValue) (store : CacheStore) (now : Instant) :
    cmdExpireChecked args store now = match parseExpire args with
      | .error msg => .ok (encodeError msg, store)
      | .ok (key, ttl) =>
          (store.expireChecked now key ttl).map fun out =>
            (encodeInteger (if out.1 then 1 else 0), out.2) := by
  rcases args with _ | ⟨name, _ | ⟨keyArg, _ | ⟨secsArg, _ | ⟨more, rest⟩⟩⟩⟩
  · rfl
  · rfl
  · rfl
  · rw [cmdExpireChecked, if_neg (by simp), index_eq_ok (a := keyArg) rfl, ok_bind, parseExpire]
    cases extractStr keyArg with
    | none => rfl
    | some key =>
        dsimp only
        rw [index_eq_ok (a := secsArg) rfl, ok_bind]
        cases (extractStr secsArg).bind parseU64 with
        | none => rfl
        | some secs => rfl
  · rw [cmdExpireChecked, if_pos (by simp), parseExpire]
    · rfl
    · simp

/-! ## What a command asks the clock for -/

/-- One option of `SET`: a unit, then a number of them. -/
def OptionAsks (arg number : RespValue) (d : Duration) : Prop :=
  ∃ opt unit n, extractStr arg = some opt ∧ optionUnit (toUppercase opt) = some unit
    ∧ (extractStr number).bind parseU64 = some n ∧ d = unit n

/-- The options of `SET`, all of them well formed; the last one decides. -/
inductive OptionsAsk : List RespValue → Duration → Prop where
  | last {arg number : RespValue} {d : Duration} (hlast : OptionAsks arg number d) :
      OptionsAsk [arg, number] d
  | more {arg number : RespValue} {rest : List RespValue} {d d' : Duration}
      (hone : OptionAsks arg number d') (hrest : OptionsAsk rest d) :
      OptionsAsk (arg :: number :: rest) d

/-- `Asks store value d`: the command gives a key an expiry `d` from now.
`SET` does so with a time to live, `EXPIRE` when the key is in the map. -/
inductive Asks (store : CacheStore) : RespValue → Duration → Prop where
  | set {name keyArg valueArg : RespValue} {options : List RespValue} {s key : String}
      {value : Bytes} {d : Duration} (hname : extractStr name = some s)
      (hset : toUppercase s = "SET") (hkey : extractStr keyArg = some key)
      (hvalue : extractBytes valueArg = some value) (hoptions : OptionsAsk options d) :
      Asks store (.array (name :: keyArg :: valueArg :: options)) d
  | expire {name keyArg secsArg : RespValue} {s key : String} {secs : UInt64}
      (hname : extractStr name = some s) (hexpire : toUppercase s = "EXPIRE")
      (hkey : extractStr keyArg = some key) (hin : (store.data.lookup key).isSome)
      (hsecs : (extractStr secsArg).bind parseU64 = some secs) :
      Asks store (.array [name, keyArg, secsArg]) (fromSecs secs)

/-- An option alone is refused. -/
theorem setOptions_singleton_ne_ok (arg : RespValue) (ttl t : Option Duration) :
    setOptions [arg] ttl ≠ .ok t := by
  rw [setOptions]
  cases extractStr arg with
  | none => simp
  | some opt =>
      dsimp only
      cases optionUnit (toUppercase opt) with
      | none => simp
      | some unit => simp

/-- One pass of the loop. -/
theorem setOptions_pair_iff {arg number : RespValue} {rest : List RespValue}
    {ttl t : Option Duration} :
    setOptions (arg :: number :: rest) ttl = .ok t
      ↔ ∃ d, OptionAsks arg number d ∧ setOptions rest (some d) = .ok t := by
  rw [setOptions]
  constructor
  · intro h
    cases hopt : extractStr arg with
    | none => simp [hopt] at h
    | some opt =>
        cases hunit : optionUnit (toUppercase opt) with
        | none => simp [hopt, hunit] at h
        | some unit =>
            cases hn : (extractStr number).bind parseU64 with
            | none =>
                simp only [hopt, hunit, hn] at h
                cases h
            | some n =>
                simp only [hopt, hunit, hn] at h
                exact ⟨unit n, ⟨opt, unit, n, hopt, hunit, hn, rfl⟩, h⟩
  · rintro ⟨d, ⟨opt, unit, n, hopt, hunit, hn, rfl⟩, hrest⟩
    simp only [hopt, hunit, hn]
    exact hrest

theorem optionsAsk_of_setOptions {options : List RespValue} {ttl : Option Duration} {d : Duration}
    (h : setOptions options ttl = .ok (some d)) :
    (options = [] ∧ ttl = some d) ∨ OptionsAsk options d := by
  induction options using List.twoStepInduction generalizing ttl with
  | nil => exact .inl ⟨rfl, Except.ok.inj h⟩
  | singleton arg => exact absurd h (setOptions_singleton_ne_ok arg ttl _)
  | cons_cons arg number rest ih =>
      obtain ⟨d', hone, hrest⟩ := setOptions_pair_iff.mp h
      rcases ih hrest with ⟨rfl, heq⟩ | hmore
      · cases heq
        exact .inr (.last hone)
      · exact .inr (.more hone hmore)

theorem setOptions_of_optionsAsk {options : List RespValue} {d : Duration}
    (h : OptionsAsk options d) (ttl : Option Duration) :
    setOptions options ttl = .ok (some d) := by
  induction h generalizing ttl with
  | last hlast => exact setOptions_pair_iff.mpr ⟨_, hlast, rfl⟩
  | more hone _ ih => exact setOptions_pair_iff.mpr ⟨_, hone, ih _⟩

/-! ## The only panic -/

theorem addDuration_eq_ok {now : Instant} {d : Duration} (h : now + d < instantEnd) :
    addDuration now d = .ok (now + d) := if_pos h

theorem addDuration_eq_error {now : Instant} {d : Duration} (h : ¬ now + d < instantEnd) :
    addDuration now d = .error .overflow := if_neg h

theorem setChecked_eq_ok {store : CacheStore} {now : Instant} {key : String} {value : Bytes}
    {ttl : Option Duration} (h : ∀ d, ttl = some d → now + d < instantEnd) :
    store.setChecked now key value ttl = .ok (store.set now key value ttl) := by
  cases ttl with
  | none => rfl
  | some d =>
      rw [CacheStore.setChecked, addDuration_eq_ok (h d rfl)]
      rfl

theorem expireChecked_eq_ok {store : CacheStore} {now : Instant} {key : String} {ttl : Duration}
    (h : (store.data.lookup key).isSome → now + ttl < instantEnd) :
    store.expireChecked now key ttl = .ok (store.expire now key ttl) := by
  rw [CacheStore.expireChecked, CacheStore.expire]
  cases hlookup : store.data.lookup key with
  | none =>
      rw [Assoc.modify, hlookup]
      rfl
  | some entry =>
      rw [hlookup] at h
      dsimp only
      rw [addDuration_eq_ok (h rfl)]
      rfl

theorem parseSet_eq_ok {args : List RespValue} {key : String} {value : Bytes}
    {ttl : Option Duration} (h : parseSet args = .ok (key, value, ttl)) :
    ∃ name keyArg valueArg options, args = name :: keyArg :: valueArg :: options
      ∧ extractStr keyArg = some key ∧ extractBytes valueArg = some value
      ∧ setOptions options none = .ok ttl := by
  rcases args with _ | ⟨name, _ | ⟨keyArg, _ | ⟨valueArg, options⟩⟩⟩
  · cases h
  · cases h
  · cases h
  · rw [parseSet] at h
    cases hkey : extractStr keyArg with
    | none => simp [hkey] at h
    | some k =>
        cases hvalue : extractBytes valueArg with
        | none => simp [hkey, hvalue] at h
        | some v =>
            cases hoptions : setOptions options none with
            | error msg => simp [hkey, hvalue, hoptions] at h
            | ok t =>
                simp only [hkey, hvalue, hoptions] at h
                cases h
                exact ⟨name, keyArg, valueArg, options, rfl, hkey, hvalue, hoptions⟩

theorem parseExpire_eq_ok {args : List RespValue} {key : String} {ttl : Duration}
    (h : parseExpire args = .ok (key, ttl)) :
    ∃ name keyArg secsArg secs, args = [name, keyArg, secsArg] ∧ extractStr keyArg = some key
      ∧ (extractStr secsArg).bind parseU64 = some secs ∧ ttl = fromSecs secs := by
  unfold parseExpire at h
  split at h
  · rename_i name keyArg secsArg
    cases hkey : extractStr keyArg with
    | none => simp [hkey] at h
    | some k =>
        cases hsecs : (extractStr secsArg).bind parseU64 with
        | none =>
            simp only [hkey, hsecs] at h
            cases h
        | some n =>
            simp only [hkey, hsecs] at h
            cases h
            exact ⟨name, keyArg, secsArg, n, rfl, hkey, hsecs, rfl⟩
  · cases h

section Fits

variable {name : RespValue} {rest : List RespValue} {s : String} {store : CacheStore}
  {now : Instant} (hname : extractStr name = some s)
include hname

theorem cmdSetChecked_eq_ok (hset : toUppercase s = "SET")
    (h : ∀ d, Asks store (.array (name :: rest)) d → now + d < instantEnd) :
    cmdSetChecked (name :: rest) store now = .ok (cmdSet (name :: rest) store now) := by
  rw [cmdSetChecked_eq, cmdSet]
  cases hparse : parseSet (name :: rest) with
  | error msg => rfl
  | ok out =>
      obtain ⟨key, value, ttl⟩ := out
      obtain ⟨_, keyArg, valueArg, options, heq, hkey, hvalue, hoptions⟩ := parseSet_eq_ok hparse
      cases heq
      have hfits : ∀ d, ttl = some d → now + d < instantEnd := by
        rintro d rfl
        rcases optionsAsk_of_setOptions hoptions with ⟨_, hnone⟩ | hask
        · cases hnone
        · exact h d (.set hname hset hkey hvalue hask)
      dsimp only
      rw [setChecked_eq_ok hfits]
      rfl

theorem cmdExpireChecked_eq_ok (hexpire : toUppercase s = "EXPIRE")
    (h : ∀ d, Asks store (.array (name :: rest)) d → now + d < instantEnd) :
    cmdExpireChecked (name :: rest) store now = .ok (cmdExpire (name :: rest) store now) := by
  rw [cmdExpireChecked_eq, cmdExpire]
  cases hparse : parseExpire (name :: rest) with
  | error msg => rfl
  | ok out =>
      obtain ⟨key, ttl⟩ := out
      obtain ⟨_, keyArg, secsArg, secs, heq, hkey, hsecs, rfl⟩ := parseExpire_eq_ok hparse
      cases heq
      dsimp only
      rw [expireChecked_eq_ok fun hin => h _ (.expire hname hexpire hkey hin hsecs)]
      rfl

end Fits

/-- A command whose expiry can be represented returns, what the unchecked
one does. -/
theorem handleCommandChecked_eq_ok {value : RespValue} {store : CacheStore}
    {clock : Nat → Instant} (h : ∀ d, Asks store value d → clock 0 + d < instantEnd) :
    handleCommandChecked value store clock = .ok (handleCommand value store clock) := by
  cases value with
  | array args =>
      cases args with
      | nil => rfl
      | cons name rest =>
          rw [handleCommandChecked, if_neg (by simp), index_eq_ok (a := name) rfl, ok_bind,
            handleCommand]
          cases hname : extractStr name with
          | none => rfl
          | some s =>
              dsimp only
              generalize hcommand : toUppercase s = command
              split
              · rw [cmdPingChecked_eq]
                rfl
              · rw [cmdEchoChecked_eq]
                rfl
              · exact cmdSetChecked_eq_ok hname hcommand h
              · exact cmdGetChecked_eq _ _ _
              · exact cmdDelChecked_eq _ _
              · exact cmdExistsChecked_eq _ _ _
              · exact cmdTtlChecked_eq _ _ _ _
              · exact cmdExpireChecked_eq_ok hname hcommand h
              · simp
  | simpleString s => rfl
  | error s => rfl
  | integer n => rfl
  | bulkString data => rfl
  | null => rfl

/-- A command whose expiry cannot be represented panics. -/
theorem handleCommandChecked_eq_error {value : RespValue} {store : CacheStore}
    {clock : Nat → Instant} {d : Duration} (hask : Asks store value d)
    (hover : ¬ clock 0 + d < instantEnd) :
    handleCommandChecked value store clock = .error .overflow := by
  cases hask with
  | @set name keyArg valueArg options s key value d hname hset hkey hvalue hoptions =>
      have hparse : parseSet (name :: keyArg :: valueArg :: options)
          = .ok (key, value, some d) := by
        simp only [parseSet, hkey, hvalue, setOptions_of_optionsAsk hoptions]
      rw [handleCommandChecked, if_neg (by simp), index_eq_ok (a := name) rfl, ok_bind]
      simp only [hname, hset]
      rw [cmdSetChecked_eq, hparse]
      dsimp only
      rw [CacheStore.setChecked, addDuration_eq_error hover]
      rfl
  | @expire name keyArg secsArg s key secs hname hexpire hkey hin hsecs =>
      have hparse : parseExpire [name, keyArg, secsArg] = .ok (key, fromSecs secs) := by
        simp only [parseExpire, hkey, hsecs]
      obtain ⟨entry, hentry⟩ := Option.isSome_iff_exists.mp hin
      rw [handleCommandChecked, if_neg (by simp), index_eq_ok (a := name) rfl, ok_bind]
      simp only [hname, hexpire]
      rw [cmdExpireChecked_eq, hparse]
      dsimp only
      rw [CacheStore.expireChecked, hentry]
      dsimp only
      rw [addDuration_eq_error hover]
      rfl

/-- **A command panics on nothing but an expiry the clock cannot
represent.** Otherwise it answers, as the commands without the checks
do. -/
theorem handleCommand_returns_iff (value : RespValue) (store : CacheStore)
    (clock : Nat → Instant) :
    ((∃ out, handleCommandChecked value store clock = .ok out)
        ↔ ∀ d, Asks store value d → clock 0 + d < instantEnd)
      ∧ (∀ out, handleCommandChecked value store clock = .ok out →
        out = handleCommand value store clock)
      ∧ ∀ p, handleCommandChecked value store clock = .error p → p = .overflow := by
  by_cases hfits : ∀ d, Asks store value d → clock 0 + d < instantEnd
  · have hok := handleCommandChecked_eq_ok hfits
    refine ⟨⟨fun _ => hfits, fun _ => ⟨_, hok⟩⟩, ?_, ?_⟩
    · intro out hout
      exact Except.ok.inj (hout.symm.trans hok)
    · intro p hp
      rw [hok] at hp
      cases hp
  · obtain ⟨d, hask, hover⟩ : ∃ d, Asks store value d ∧ ¬ clock 0 + d < instantEnd := by
      simpa only [not_forall, exists_prop] using hfits
    have herror := handleCommandChecked_eq_error hask hover
    refine ⟨⟨?_, fun h => absurd h hfits⟩, ?_, ?_⟩
    · rintro ⟨out, hout⟩
      rw [herror] at hout
      cases hout
    · intro out hout
      rw [herror] at hout
      cases hout
    · intro p hp
      rw [herror] at hp
      cases hp
      rfl

/-- An argument as clients send it. -/
def bulk (s : String) : RespValue := .bulkString (bytesOf s)

theorem extractStr_bulk (s : String) : extractStr (bulk s) = some s := extractStr_bytesOf s

/-- `SET k v EX 18446744073709551615` -/
def setForever : RespValue :=
  .array [bulk "SET", bulk "k", bulk "v", bulk "EX", bulk "18446744073709551615"]

/-- `EXPIRE k 18446744073709551615` -/
def expireForever : RespValue := .array [bulk "EXPIRE", bulk "k", bulk "18446744073709551615"]

/-- The largest number a client can send is `2 ^ 64 - 1` seconds: twice
what the clock holds, whatever it reads. -/
theorem forever_panics :
    handleCommandChecked setForever .new (fun _ => 0) = .error .overflow
      ∧ handleCommandChecked expireForever (CacheStore.new.set 0 "k" [118] none) (fun _ => 0)
        = .error .overflow := by
  have hnumber : (extractStr (bulk "18446744073709551615")).bind parseU64
      = some 18446744073709551615 := by
    rw [extractStr_bulk]
    decide
  have hover : ¬ 0 + fromSecs 18446744073709551615 < instantEnd := by decide
  have hunit : optionUnit (toUppercase "EX") = some fromSecs := if_pos (by decide)
  constructor
  · exact handleCommandChecked_eq_error (.set (extractStr_bulk _) (by decide)
      (extractStr_bulk _) rfl
      (.last ⟨_, fromSecs, _, extractStr_bulk _, hunit, hnumber, rfl⟩)) hover
  · exact handleCommandChecked_eq_error (.expire (extractStr_bulk _) (by decide)
      (extractStr_bulk _) (by decide) hnumber) hover

end SelfHealingCache
