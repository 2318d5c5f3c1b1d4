import SelfHealingCache.Node.RespGrammar

/-!
# The RESP connection

`crates/node/src/resp/server.rs`: the eight commands, and the loop of
`handle_connection`, which reads from the socket into one buffer and
takes complete values off its head. A protocol error clears the buffer
("to avoid an infinite loop"), with whatever else the same read brought.

A longer buffer never changes what the parser says about its head, unless
it asked for more (`parseResp_append`). So two ways of cutting a stream
into reads lead to the same dispatches up to the first protocol error;
what the error discards is decided by the cut.

The handler is a parameter of the loop: `none` is a call that panics and
takes the connection's task with it. Failing reads and writes, which end
the connection, are left out.
-/

namespace SelfHealingCache

/-! ## The remaining commands -/

namespace CacheStore

/-- `exists` of the source. -/
def containsKey (s : CacheStore) (now : Instant) (key : String) : Bool × CacheStore :=
  ((s.get now key).1.isSome, (s.get now key).2)

/-- The remaining time of a key; zero when it has expired and not been
removed. -/
def ttl (s : CacheStore) (now : Instant) (key : String) : Option Duration :=
  match s.data.lookup key with
  | none => none
  | some entry =>
      match entry.expiresAt with
      | some expiresAt => some (if now < expiresAt then expiresAt - now else 0)
      | none => none

end CacheStore

/-- `dur.as_secs() as i64`. -/
def asSecs (dur : Duration) : Int64 := (UInt64.ofNat (dur / 1000000000)).toInt64

def wrongArguments (command : String) : String :=
  "ERR wrong number of arguments for '" ++ command ++ "' command"

/-- `PING [message]`. -/
def cmdPing : List RespValue → Bytes
  | [_] => encodeSimpleString "PONG"
  | [_, message] =>
      match extractBytes message with
      | some data => encodeBulkString data
      | none => encodeError "ERR invalid argument"
  | _ => encodeError (wrongArguments "ping")

def cmdEcho : List RespValue → Bytes
  | [_, message] =>
      match extractBytes message with
      | some data => encodeBulkString data
      | none => encodeError "ERR invalid argument"
  | _ => encodeError (wrongArguments "echo")

/-- The one key that `GET`, `EXISTS` and `TTL` take. -/
def parseKey (command : String) : List RespValue → Except String String
  | [_, keyArg] =>
      match extractStr keyArg with
      | some key => .ok key
      | none => .error "ERR invalid key"
  | _ => .error (wrongArguments command)

def cmdGet (args : List RespValue) (store : CacheStore) (now : Instant) : Bytes × CacheStore :=
  match parseKey "get" args with
  | .error msg => (encodeError msg, store)
  | .ok key =>
      let out := store.get now key
      match out.1 with
      | some val => (encodeBulkString val, out.2)
      | none => (encodeNull, out.2)

/-- The loop of `cmd_del`. -/
def deleteKeys : List String → Nat → CacheStore → Nat × CacheStore
  | [], deleted, store => (deleted, store)
  | key :: keys, deleted, store =>
      let out := store.delete key
      deleteKeys keys (if out.1 then deleted + 1 else deleted) out.2

def cmdDel (args : List RespValue) (store : CacheStore) : Bytes × CacheStore :=
  match parseDel args with
  | .error msg => (encodeError msg, store)
  | .ok keys =>
      let out := deleteKeys keys 0 store
      (encodeInteger out.1, out.2)

def cmdExists (args : List RespValue) (store : CacheStore) (now : Instant) :
    Bytes × CacheStore :=
  match parseKey "exists" args with
  | .error msg => (encodeError msg, store)
  | .ok key =>
      let out := store.containsKey now key
      (encodeInteger (if out.1 then 1 else 0), out.2)

/-- `TTL` looks at the clock twice. -/
def cmdTtl (args : List RespValue) (store : CacheStore) (now later : Instant) :
    Bytes × CacheStore :=
  match parseKey "ttl" args with
  | .error msg => (encodeError msg, store)
  | .ok key =>
      let out := store.containsKey now key
      if ¬ out.1 then (encodeInteger (-2), out.2)
      else match out.2.ttl later key with
        | some dur => (encodeInteger (asSecs dur).toInt, out.2)
        | none => (encodeInteger (-1), out.2)

/-- `handle_command`, its clock readings in order. -/
def handleCommand (value : RespValue) (store : CacheStore) (clock : Nat → Instant) :
    Bytes × CacheStore :=
  match value with
  | .array [] => (encodeError "ERR empty command", store)
  | .array (name :: rest) =>
      let args := name :: rest
      match extractStr name with
      | none => (encodeError "ERR invalid command", store)
      | some s =>
          match toUppercase s with
          | "PING" => (cmdPing args, store)
          | "ECHO" => (cmdEcho args, store)
          | "SET" => cmdSet args store (clock 0)
          | "GET" => cmdGet args store (clock 0)
          | "DEL" => cmdDel args store
          | "EXISTS" => cmdExists args store (clock 0)
          | "TTL" => cmdTtl args store (clock 0) (clock 1)
          | "EXPIRE" => cmdExpire args store (clock 0)
          | _ => (encodeError "ERR unknown command", store)
  | _ => (encodeError "ERR expected array (RESP command)", store)

/-! ## The loop -/

/-- What the client can observe: a value handed to `handle_command`, with
the response unless the call panicked, or a protocol error. -/
inductive ConnEvent where
  | dispatch (value : RespValue) (response : Option Bytes)
  | protocolError (message : String)

/-- A connection between two reads: the handler's state and the buffer;
`none` once the task is gone. -/
abbrev ConnState (σ : Type*) := Option (σ × Bytes)

section Loop

variable {σ : Type*} (handle : σ → RespValue → Option (Bytes × σ))

/-- The inner loop of `handle_connection`: every pass takes at least one
byte, so `fuel` bytes need no more passes. -/
def drainFuel : Nat → σ → Bytes → List ConnEvent × ConnState σ
  | 0, st, buf => ([], some (st, buf))
  | fuel + 1, st, buf =>
      if buf.isEmpty then ([], some (st, buf))
      else match parseResp buf with
        | none => ([], none)
        | some (.complete value consumed) =>
            match handle st value with
            | none => ([.dispatch value none], none)
            | some (response, st') =>
                let out := drainFuel fuel st' (buf.drop consumed)
                (.dispatch value (some response) :: out.1, out.2)
        | some .incomplete => ([], some (st, buf))
        | some (.error e) => ([.protocolError e], some (st, []))

def drain (st : σ) (buf : Bytes) : List ConnEvent × ConnState σ :=
  drainFuel handle buf.length st buf

/-- The outer loop, over the reads that arrive; an empty read is the end
of the stream. -/
def serve : ConnState σ → List Bytes → List ConnEvent
  | none, _ => []
  | some _, [] => []
  | some (st, buf), read :: reads =>
      if read.isEmpty then []
      else
        let out := drain handle st (buf ++ read)
        out.1 ++ serve out.2 reads

/-- `handle_connection`. -/
def handleConnection (st : σ) (reads : List Bytes) : List ConnEvent :=
  serve handle (some (st, [])) reads

end Loop

/-! ## A longer buffer -/

theorem readLine_append {b : UInt8} {l : Bytes} {out : Bytes × Nat}
    (h : readLine (b :: l) 1 = some out) (more : Bytes) :
    readLine (b :: l ++ more) 1 = some out := by
  rw [readLine_one, Option.map_eq_some_iff] at h
  obtain ⟨p, hcut, hout⟩ := h
  obtain ⟨line, rest⟩ := p
  rw [List.cons_append, readLine_one, Delimited.cut_append (by decide) hcut more]
  exact congrArg some hout

theorem readNumber_append {what : String} {b : UInt8} {l : Bytes}
    (h : readNumber what (b :: l) ≠ .error .incomplete) (more : Bytes) :
    readNumber what (b :: l ++ more) = readNumber what (b :: l) := by
  cases hline : readLine (b :: l) 1 with
  | none =>
      rw [readNumber, hline] at h
      exact absurd rfl h
  | some out => rw [readNumber, readNumber, hline, readLine_append hline more]

theorem parseText_append {make : String → RespValue} {what : String} {b : UInt8} {l : Bytes}
    (h : parseText make what (b :: l) ≠ .incomplete) (more : Bytes) :
    parseText make what (b :: l ++ more) = parseText make what (b :: l) := by
  cases hline : readLine (b :: l) 1 with
  | none =>
      rw [parseText, hline] at h
      exact absurd rfl h
  | some out => rw [parseText, parseText, hline, readLine_append hline more]

theorem parseInteger_append {b : UInt8} {l : Bytes} (h : parseInteger (b :: l) ≠ .incomplete)
    (more : Bytes) : parseInteger (b :: l ++ more) = parseInteger (b :: l) := by
  rw [parseInteger, parseInteger, readNumber_append _ more]
  intro hnum
  rw [parseInteger, hnum] at h
  exact h rfl

theorem parseBulkString_append {b : UInt8} {l : Bytes}
    (h : parseBulkString (b :: l) ≠ .incomplete) (more : Bytes) :
    parseBulkString (b :: l ++ more) = parseBulkString (b :: l) := by
  rw [parseBulkString] at h
  rw [parseBulkString, parseBulkString, readNumber_append _ more]
  · cases hnum : readNumber "bulk string length" (b :: l) with
    | error result => rfl
    | ok out =>
        obtain ⟨len, afterLen⟩ := out
        rw [hnum] at h
        dsimp only at h ⊢
        split_ifs at h with hneg hshort hend
        · rw [if_pos hneg, if_pos hneg]
        · exact absurd rfl h
        all_goals
          have hlong : ¬ (b :: l ++ more).length < afterLen + len.toInt.toNat + 2 := by
            rw [List.length_append]
            omega
          rw [if_neg hneg, if_neg hneg, if_neg hshort, if_neg hlong,
            List.getElem?_append_left (by omega), List.getElem?_append_left (by omega),
            List.take_append_of_le_length (by omega)]
  · intro hnum
    rw [hnum] at h
    exact h rfl

/-- The element loop, its elements being stable. -/
theorem parseItems_append {buf : Bytes} (more : Bytes) {left offset : Nat}
    {items : List RespValue} (hoffset : offset ≤ buf.length)
    (hparse : ∀ k, offset ≤ k → parseResp (buf.drop k) ≠ some .incomplete →
      parseResp (buf.drop k ++ more) = parseResp (buf.drop k))
    (h : parseItems parseResp buf left offset items ≠ some .incomplete) :
    parseItems parseResp (buf ++ more) left offset items
      = parseItems parseResp buf left offset items := by
  induction left generalizing offset items with
  | zero => rfl
  | succ left ih =>
      have hdrop : (buf ++ more).drop offset = buf.drop offset ++ more :=
        List.drop_append_of_le_length hoffset
      rw [parseItems] at h
      rw [parseItems, parseItems, hdrop, hparse offset (Nat.le_refl _)]
      · split at h
        · rename_i value consumed hone
          exact ih (next_offset_within hone hoffset) (fun k hk => hparse k (by omega)) h
        · rfl
      · intro hone
        rw [hone] at h
        exact h rfl

/-- **Only an incomplete buffer is read differently when more comes.** -/
theorem parseResp_append {buf : Bytes} (h : parseResp buf ≠ some .incomplete) (more : Bytes) :
    parseResp (buf ++ more) = parseResp buf := by
  induction hsize : buf.length using Nat.strongRecOn generalizing buf with
  | ind size ih =>
      rw [parseResp_eq] at h
      rw [parseResp_eq, parseResp_eq buf]
      unfold parseStep at h ⊢
      split at h
      · exact absurd rfl h
      · exact congrArg some (parseText_append (fun heq => h (congrArg some heq)) more)
      · exact congrArg some (parseText_append (fun heq => h (congrArg some heq)) more)
      · exact congrArg some (parseInteger_append (fun heq => h (congrArg some heq)) more)
      · exact congrArg some (parseBulkString_append (fun heq => h (congrArg some heq)) more)
      · rename_i l
        show parseArray parseResp (42 :: l ++ more) = parseArray parseResp (42 :: l)
        rw [parseArray] at h
        rw [parseArray, parseArray, readNumber_append _ more]
        · cases hnum : readNumber "array count" (42 :: l) with
          | error result => rfl
          | ok out =>
              obtain ⟨count, afterCount⟩ := out
              rw [hnum] at h
              obtain ⟨text, rest, hl, _, hafter⟩ := readNumber_eq_ok_iff.mp hnum
              have hlen : afterCount ≤ (42 :: l).length := by
                rw [hl, hafter]
                simp only [List.length_cons, List.length_append]
                omega
              dsimp only at h ⊢
              split_ifs at h ⊢
              · rfl
              · rfl
              · refine parseItems_append more hlen (fun k hk hk' => ?_) h
                refine ih _ ?_ hk' rfl
                rw [List.length_drop, List.length_cons]
                rw [List.length_cons] at hsize
                omega
        · intro hnum
          rw [hnum] at h
          exact h rfl
      · rename_i b l _ _ _ _ _
        -- the first byte is the same, and it is none of the five
        split
        all_goals simp_all

theorem parseResp_append_eq {buf : Bytes} {result : Option ParseResult}
    (h : parseResp buf = result) (hresult : result ≠ some .incomplete) (more : Bytes) :
    parseResp (buf ++ more) = result := by
  rw [parseResp_append (by rwa [h]) more, h]

/-! ## The inner loop -/

section Drain

variable {σ : Type*} {handle : σ → RespValue → Option (Bytes × σ)} {st st' : σ} {buf rest : Bytes}

theorem length_drop_lt {value : RespValue} {consumed : Nat}
    (h : parseResp buf = some (.complete value consumed)) :
    (buf.drop consumed).length < buf.length := by
  have hwithin := consumed_within h
  rw [List.length_drop]
  omega

/-- Passes to spare change nothing. -/
theorem drainFuel_eq {fuel fuel' : Nat} (h : buf.length ≤ fuel) (h' : buf.length ≤ fuel') :
    drainFuel handle fuel st buf = drainFuel handle fuel' st buf := by
  induction fuel generalizing fuel' st buf with
  | zero =>
      obtain rfl : buf = [] := List.eq_nil_of_length_eq_zero (Nat.le_zero.mp h)
      cases fuel' <;> rfl
  | succ fuel ih =>
      cases fuel' with
      | zero =>
          obtain rfl : buf = [] := List.eq_nil_of_length_eq_zero (Nat.le_zero.mp h')
          rfl
      | succ fuel' =>
          rw [drainFuel, drainFuel]
          cases hparse : parseResp buf with
          | none => rfl
          | some result =>
              cases result with
              | complete value consumed =>
                  have hshorter := length_drop_lt hparse
                  dsimp only
                  cases handle st value with
                  | none => rfl
                  | some out =>
                      have hrest : drainFuel handle fuel out.2 (buf.drop consumed)
                          = drainFuel handle fuel' out.2 (buf.drop consumed) :=
                        ih (by omega) (by omega)
                      dsimp only
                      rw [hrest]
              | incomplete => rfl
              | error e => rfl

/-- **What the inner loop does**, pass by pass: it waits, ends with the
task, drops the buffer, or goes on behind a value. -/
inductive Drains (handle : σ → RespValue → Option (Bytes × σ)) :
    σ → Bytes → List ConnEvent → ConnState σ → Prop where
  | wait {st : σ} {buf : Bytes} (hparse : parseResp buf = some .incomplete) :
      Drains handle st buf [] (some (st, buf))
  | panic {st : σ} {buf : Bytes} (hparse : parseResp buf = none) : Drains handle st buf [] none
  | reject {st : σ} {buf : Bytes} {e : String} (hparse : parseResp buf = some (.error e)) :
      Drains handle st buf [.protocolError e] (some (st, []))
  | crash {st : σ} {buf : Bytes} {value : RespValue} {consumed : Nat}
      (hparse : parseResp buf = some (.complete value consumed)) (hcall : handle st value = none) :
      Drains handle st buf [.dispatch value none] none
  | take {st st' : σ} {buf response : Bytes} {value : RespValue} {consumed : Nat}
      {events : List ConnEvent} {next : ConnState σ}
      (hparse : parseResp buf = some (.complete value consumed))
      (hcall : handle st value = some (response, st'))
      (hrest : Drains handle st' (buf.drop consumed) events next) :
      Drains handle st buf (.dispatch value (some response) :: events) next

theorem drain_eq (st : σ) (buf : Bytes) :
    drain handle st buf = match parseResp buf with
      | none => ([], none)
      | some (.complete value consumed) =>
          match handle st value with
          | none => ([.dispatch value none], none)
          | some (response, st') =>
              (.dispatch value (some response) :: (drain handle st' (buf.drop consumed)).1,
                (drain handle st' (buf.drop consumed)).2)
      | some .incomplete => ([], some (st, buf))
      | some (.error e) => ([.protocolError e], some (st, [])) := by
  cases buf with
  | nil => rfl
  | cons b l =>
      rw [drain, List.length_cons, drainFuel, if_neg (by simp)]
      cases hparse : parseResp (b :: l) with
      | none => rfl
      | some result =>
          cases result with
          | complete value consumed =>
              have hshorter := length_drop_lt hparse
              rw [List.length_cons] at hshorter
              dsimp only
              cases handle st value with
              | none => rfl
              | some out =>
                  dsimp only
                  rw [drain, drainFuel_eq (Nat.lt_succ_iff.mp hshorter) (Nat.le_refl _)]
          | incomplete => rfl
          | error e => rfl

theorem drains_drain (st : σ) (buf : Bytes) :
    Drains handle st buf (drain handle st buf).1 (drain handle st buf).2 := by
  induction hsize : buf.length using Nat.strongRecOn generalizing st buf with
  | ind size ih =>
      rw [drain_eq]
      cases hparse : parseResp buf with
      | none => exact .panic hparse
      | some result =>
          cases result with
          | complete value consumed =>
              dsimp only
              cases hcall : handle st value with
              | none => exact .crash hparse hcall
              | some out =>
                  have hshorter := length_drop_lt hparse
                  exact .take hparse hcall (ih _ (by omega) out.2 _ rfl)
          | incomplete => exact .wait hparse
          | error e => exact .reject hparse

/-- The loop is the only run of its passes. -/
theorem Drains.eq {events : List ConnEvent} {next : ConnState σ}
    (h : Drains handle st buf events next) : drain handle st buf = (events, next) := by
  induction h with
  | wait hparse => rw [drain_eq, hparse]
  | panic hparse => rw [drain_eq, hparse]
  | reject hparse => rw [drain_eq, hparse]
  | crash hparse hcall => simp only [drain_eq, hparse, hcall]
  | take hparse hcall _ ih =>
      rw [drain_eq, hparse]
      simp only [hcall, ih]

/-- The loop stops with a buffer that needs more. -/
theorem Drains.waits {events : List ConnEvent} {next : ConnState σ}
    (h : Drains handle st buf events next) (hnext : next = some (st', rest)) :
    parseResp rest = some .incomplete := by
  induction h with
  | wait hparse =>
      cases hnext
      exact hparse
  | panic => cases hnext
  | reject =>
      cases hnext
      rfl
  | crash => cases hnext
  | take _ _ _ ih => exact ih hnext

theorem drop_append_of_parseResp {value : RespValue} {consumed : Nat}
    (h : parseResp buf = some (.complete value consumed)) (more : Bytes) :
    (buf ++ more).drop consumed = buf.drop consumed ++ more :=
  List.drop_append_of_le_length (consumed_within h).2

/-- A run that ended the task or hit a protocol error is the same on a
longer buffer. -/
theorem Drains.append_of_final {events : List ConnEvent} {next : ConnState σ}
    (h : Drains handle st buf events next)
    (hfinal : next = none ∨ ∃ e, .protocolError e ∈ events) (more : Bytes) :
    Drains handle st (buf ++ more) events next := by
  induction h with
  | wait =>
      rcases hfinal with hnext | ⟨e, he⟩
      · cases hnext
      · cases he
  | panic hparse => exact .panic (parseResp_append_eq hparse (by simp) more)
  | reject hparse => exact .reject (parseResp_append_eq hparse (by simp) more)
  | crash hparse hcall => exact .crash (parseResp_append_eq hparse (by simp) more) hcall
  | take hparse hcall _ ih =>
      refine .take (parseResp_append_eq hparse (by simp) more) hcall ?_
      rw [drop_append_of_parseResp hparse]
      exact ih (by simpa using hfinal)

/-- Any other run goes on where it stopped. -/
theorem Drains.append {events more' : List ConnEvent} {next last : ConnState σ} {more : Bytes}
    (h : Drains handle st buf events next) (hnext : next = some (st', rest))
    (hclean : ∀ e, .protocolError e ∉ events)
    (hmore : Drains handle st' (rest ++ more) more' last) :
    Drains handle st (buf ++ more) (events ++ more') last := by
  induction h with
  | wait =>
      cases hnext
      exact hmore
  | panic => cases hnext
  | reject => exact absurd List.mem_cons_self (hclean _)
  | crash => cases hnext
  | take hparse hcall _ ih =>
      refine .take (parseResp_append_eq hparse (by simp) more) hcall ?_
      rw [drop_append_of_parseResp hparse]
      exact ih hnext fun e he => hclean e (List.mem_cons_of_mem _ he)

end Drain

/-! ## Reads of any size -/

/-- The events up to and including the first protocol error. -/
def upToError : List ConnEvent → List ConnEvent
  | [] => []
  | .protocolError e :: _ => [.protocolError e]
  | .dispatch value response :: events => .dispatch value response :: upToError events

theorem upToError_append_of_mem {events : List ConnEvent} {e : String}
    (he : .protocolError e ∈ events) (more : List ConnEvent) :
    upToError (events ++ more) = upToError events := by
  induction events with
  | nil => cases he
  | cons event events ih =>
      cases event with
      | protocolError e' => rfl
      | dispatch value response =>
          have htail : .protocolError e ∈ events := by simpa using he
          rw [List.cons_append, upToError, upToError, ih htail]

theorem upToError_append_of_clean {events : List ConnEvent}
    (hclean : ∀ e, .protocolError e ∉ events) (more : List ConnEvent) :
    upToError (events ++ more) = events ++ upToError more := by
  induction events with
  | nil => rfl
  | cons event events ih =>
      cases event with
      | protocolError e => exact absurd List.mem_cons_self (hclean e)
      | dispatch value response =>
          rw [List.cons_append, upToError, ih fun e he => hclean e (List.mem_cons_of_mem _ he),
            List.cons_append]

/-- Without an error among the events kept, all are kept. -/
theorem upToError_of_clean {events : List ConnEvent}
    (hclean : ∀ e, .protocolError e ∉ upToError events) : upToError events = events := by
  induction events with
  | nil => rfl
  | cons event events ih =>
      cases event with
      | protocolError e => exact absurd List.mem_cons_self (hclean e)
      | dispatch value response =>
          rw [upToError] at hclean ⊢
          rw [ih fun e he => hclean e (List.mem_cons_of_mem _ he)]

section Serve

variable {σ : Type*} {handle : σ → RespValue → Option (Bytes × σ)}

/-- An error is the last event of a run. -/
theorem Drains.upToError_eq {st : σ} {buf : Bytes} {events : List ConnEvent} {next : ConnState σ}
    (h : Drains handle st buf events next) : upToError events = events := by
  induction h with
  | wait => rfl
  | panic => rfl
  | reject => rfl
  | crash => rfl
  | take _ _ _ ih => rw [upToError, ih]

/-- **The reads, up to the first error, are one read.** -/
theorem upToError_serve {st : σ} {buf : Bytes} (hwait : parseResp buf = some .incomplete)
    {reads : List Bytes} (hreads : ∀ read ∈ reads, read ≠ []) :
    upToError (serve handle (some (st, buf)) reads)
      = (drain handle st (buf ++ reads.flatten)).1 := by
  induction reads generalizing st buf with
  | nil =>
      rw [List.flatten_nil, List.append_nil, (Drains.wait hwait).eq]
      rfl
  | cons read reads ih =>
      have hread : ¬ read.isEmpty := by simpa using hreads read List.mem_cons_self
      rw [serve, if_neg hread, List.flatten_cons, ← List.append_assoc]
      have hrun : Drains handle st (buf ++ read) _ _ := drains_drain st (buf ++ read)
      generalize drain handle st (buf ++ read) = out at hrun
      obtain ⟨events, next⟩ := out
      dsimp only at hrun ⊢
      by_cases herror : ∃ e, .protocolError e ∈ events
      · obtain ⟨e, he⟩ := herror
        rw [upToError_append_of_mem he, hrun.upToError_eq,
          (hrun.append_of_final (.inr ⟨e, he⟩) _).eq]
      · rw [not_exists] at herror
        rw [upToError_append_of_clean herror]
        cases next with
        | none =>
            rw [(hrun.append_of_final (.inl rfl) _).eq]
            simp [serve, upToError]
        | some state =>
            obtain ⟨st', rest⟩ := state
            rw [ih (hrun.waits rfl) fun r hr => hreads r (List.mem_cons_of_mem _ hr),
              (hrun.append rfl herror (drains_drain st' (rest ++ reads.flatten))).eq]

/-- **What is executed does not depend on the cut, up to a protocol
error.** Two ways of cutting one stream into reads give the same
dispatches and replies up to and including the first protocol error, and
the same altogether when there is none. -/
theorem handleConnection_upToError (handle : σ → RespValue → Option (Bytes × σ)) (st : σ)
    {reads reads' : List Bytes} (hreads : ∀ read ∈ reads, read ≠ [])
    (hreads' : ∀ read ∈ reads', read ≠ []) (hstream : reads.flatten = reads'.flatten) :
    upToError (handleConnection handle st reads) = upToError (handleConnection handle st reads')
    ∧ ((∀ e, .protocolError e ∉ handleConnection handle st reads) →
      handleConnection handle st reads = handleConnection handle st reads') := by
  have hsame : upToError (handleConnection handle st reads)
      = upToError (handleConnection handle st reads') := by
    rw [handleConnection, handleConnection, upToError_serve rfl hreads,
      upToError_serve rfl hreads', hstream]
  refine ⟨hsame, fun hclean => ?_⟩
  have hself : upToError (handleConnection handle st reads) = handleConnection handle st reads := by
    simpa [upToError] using upToError_append_of_clean hclean []
  rw [hself] at hsame
  rw [hsame] at hclean ⊢
  exact upToError_of_clean hclean

end Serve

/-- The commands of the source on a store of its own, with a stopped
clock. -/
def stoppedHandler (store : CacheStore) (value : RespValue) : Option (Bytes × CacheStore) :=
  some (handleCommand value store fun _ => 0)

theorem drains_pingRequest (store : CacheStore) :
    Drains stoppedHandler store pingRequest
      [.dispatch pingValue (some (handleCommand pingValue store fun _ => 0).1)]
      (some ((handleCommand pingValue store fun _ => 0).2, [])) := by
  have hparse := parseResp_of_word word_pingRequest (.inl (by decide)) []
  rw [List.append_nil] at hparse
  refine .take hparse rfl ?_
  rw [List.drop_length]
  exact .wait rfl

/-- One request, in one read and in two. -/
theorem handleConnection_upToError_ping :
    handleConnection stoppedHandler .new [pingRequest]
        = handleConnection stoppedHandler .new [pingRequest.take 1, pingRequest.drop 1]
      ∧ handleConnection stoppedHandler .new [pingRequest]
        = [.dispatch pingValue (some (handleCommand pingValue .new fun _ => 0).1)] := by
  have hevents : handleConnection stoppedHandler .new [pingRequest]
      = [.dispatch pingValue (some (handleCommand pingValue .new fun _ => 0).1)] := by
    rw [handleConnection, serve, List.nil_append, (drains_pingRequest _).eq]
    rfl
  refine ⟨(handleConnection_upToError stoppedHandler .new ?_ ?_ rfl).2 ?_, hevents⟩
  · decide
  · decide
  · rw [hevents]
    simp

/-- A stray byte in front of a request: when both arrive in one read, the
error reply discards the request; when the byte arrives first, the
request is executed. -/
theorem handleConnection_depends_on_cut :
    ∃ reads reads' : List Bytes, (∀ read ∈ reads, read ≠ []) ∧ (∀ read ∈ reads', read ≠ [])
      ∧ reads.flatten = reads'.flatten
      ∧ (∃ e, handleConnection stoppedHandler .new reads = [.protocolError e])
      ∧ ∃ e response, handleConnection stoppedHandler .new reads'
        = [.protocolError e, .dispatch pingValue (some response)] := by
  refine ⟨[88 :: pingRequest], [[88], pingRequest], by decide, by decide, rfl, ⟨_, rfl⟩,
    "unexpected byte: 0x" ++ String.ofList (hexDigits 2 88),
    (handleCommand pingValue .new fun _ => 0).1, ?_⟩
  have hbyte : Drains stoppedHandler .new [88]
      [.protocolError ("unexpected byte: 0x" ++ String.ofList (hexDigits 2 88))]
      (some (.new, [])) := .reject rfl
  rw [handleConnection, serve, List.nil_append, hbyte.eq]
  dsimp only
  rw [serve, List.nil_append, (drains_pingRequest _).eq]
  rfl

end SelfHealingCache
