import Redgw.Redis.Command
import Redgw.Lib.Text

/-! # A reference server

An executable server that follows the documentation of the commands. `XADD` with an approximate length
limit trims to the limit exactly, one of the behaviours the documentation allows. -/

namespace Redgw.Redis

def wrongType : String := "WRONGTYPE Operation against a key holding the wrong kind of value"

def int64 (n : Int) : Bool := decide (-9223372036854775808 ≤ n ∧ n ≤ 9223372036854775807)

/-! ### Numbers as text -/

def parseNat (s : List Char) : Option Nat :=
  if s.isEmpty || !s.all Char.isDigit then none
  else some (s.foldl (fun n c => 10 * n + (c.toNat - 48)) 0)

/-- A 64-bit integer in its canonical form, the only form that counts as an integer. -/
def parseInt (s : String) : Option Int :=
  let n : Option Int := match s.toList with
    | '-' :: ds => (parseNat ds).map fun n => -n
    | ds => (parseNat ds).map fun n => n
  n.filter fun n => toString n == s && int64 n

/-- A decimal number with at most 17 places, without zeros at the end. -/
def renderRat (q : Rat) : String :=
  let unit := 100000000000000000
  let scaled := (q.num.natAbs * unit + q.den / 2) / q.den
  let whole := toString (scaled / unit)
  let digits := (toString (unit + scaled % unit)).toList.drop 1
  let places := (digits.reverse.dropWhile (· == '0')).reverse
  let sign := if q.num < 0 then "-" else ""
  if places.isEmpty then sign ++ whole else sign ++ whole ++ "." ++ .ofList places

def parseRat (s : String) : Option Rat :=
  let (negative, digits) := match s.toList with
    | '-' :: ds => (true, ds)
    | ds => (false, ds)
  let magnitude : Option Rat := match Text.cut '.' digits with
    | none => (parseNat digits).map fun n => (n : Rat)
    | some (whole, places) => do
      let n ← parseNat whole
      let m ← parseNat places
      return n + m / 10 ^ places.length
  magnitude.map fun q => if negative then -q else q

/-- A stream id: two numbers, or one that stands for the first id of a millisecond. -/
def parseId (s : List Char) : Option StreamId :=
  let bounded := fun n : Nat => decide (n ≤ 18446744073709551615)
  match Text.cut '-' s with
  | none => ((parseNat s).filter bounded).map fun ms => ⟨ms, 0⟩
  | some (a, b) => do
    let ms ← (parseNat a).filter bounded
    let seq ← (parseNat b).filter bounded
    return ⟨ms, seq⟩

/-! ### Typed access to an entry -/

/-- Answers from the value without a change. A missing key reads as the empty value. -/
def reading {α : Type} (get : Value → Option α) (empty : α) (now : Nat) (e : Option Entry) (f : α → Reply) :
    Reply × Option Entry :=
  (match live now e with
    | none => f empty
    | some x => match get x.value with
      | some a => f a
      | none => .error wrongType, e)

/-- Answers and rewrites the value, which keeps its deadline. `put` gives `none` for a value that
    leaves no key behind; where there was no key either, nothing is written. -/
def writing {α : Type} (get : Value → Option α) (empty : α) (put : α → Option Value) (now : Nat)
    (e : Option Entry) (f : α → Except String (Json × α)) : Reply × Option Entry :=
  let old := live now e
  let found := match old with
    | none => some empty
    | some x => get x.value
  match found with
  | none => (.error wrongType, e)
  | some a => match f a with
    | .error msg => (.error msg, e)
    | .ok (r, a') => (.ok r, match put a', old with
      | some v, _ => some ⟨v, old.bind (·.deadline)⟩
      | none, some _ => none
      | none, none => e)

def Value.str? : Value → Option String
  | .str s => some s
  | _ => none

def Value.hash? : Value → Option (List (String × String))
  | .hash fs => some fs
  | _ => none

def Value.list? : Value → Option (List String)
  | .list xs => some xs
  | _ => none

def Value.set? : Value → Option (List String)
  | .set ms => some ms
  | _ => none

def Value.zset? : Value → Option (List (String × Score))
  | .zset ms => some ms
  | _ => none

def Value.stream? : Value → Option Stream
  | .stream x => some x
  | _ => none

def putHash (fs : List (String × String)) : Option Value := if fs.isEmpty then none else some (.hash fs)
def putList (xs : List String) : Option Value := if xs.isEmpty then none else some (.list xs)
def putSet (ms : List String) : Option Value := if ms.isEmpty then none else some (.set ms)
def putZset (ms : List (String × Score)) : Option Value := if ms.isEmpty then none else some (.zset ms)

/-! ### Strings and keys -/

def strings (ss : List String) : Json := .arr (ss.map .str)

/-- A deadline `ttl` seconds ahead; `none` when it does not fit. -/
def deadlineAt (now : Nat) (ttl : Int) : Option Nat :=
  if 0 < ttl ∧ int64 (ttl * 1000) ∧ int64 (now + ttl * 1000) then some (now + ttl * 1000).toNat else none

def setex (now : Nat) (ttl : Int) (value : String) (e : Option Entry) : Reply × Option Entry :=
  match deadlineAt now ttl with
  | some d => (.ok (.bool true), some ⟨.str value, some d⟩)
  | none => (.error "ERR invalid expire time in 'setex' command", e)

/-- A lifetime that does not fit is refused whatever the key holds. -/
def setCmd (now : Nat) (value : String) (ex : Option Int) (nx : Bool) (e : Option Entry) : Reply × Option Entry :=
  let put := fun deadline : Option Nat =>
    if nx && (live now e).isSome then (.ok .null, e) else (.ok (.bool true), some ⟨.str value, deadline⟩)
  match ex with
  | none => put none
  | some ttl => match deadlineAt now ttl with
    | some d => put (some d)
    | none => (.error "ERR invalid expire time in 'set' command", e)

def expire (now : Nat) (ttl : Int) (e : Option Entry) : Reply × Option Entry :=
  if ttl ≤ 0 then (.ok (.bool (live now e).isSome), if (live now e).isSome then none else e)
  else match deadlineAt now ttl with
    | none => (.error "ERR invalid expire time in 'expire' command", e)
    | some d => match live now e with
      | none => (.ok (.bool false), e)
      | some x => (.ok (.bool true), some { x with deadline := some d })

def persist (now : Nat) (e : Option Entry) : Reply × Option Entry :=
  match live now e with
  | some ⟨v, some _⟩ => (.ok (.bool true), some ⟨v, none⟩)
  | _ => (.ok (.bool false), e)

/-- The remaining time in seconds: -2 for a missing key, -1 for one that does not expire. -/
def remaining (now : Nat) (e : Option Entry) : Int :=
  match live now e with
  | none => -2
  | some ⟨_, none⟩ => -1
  | some ⟨_, some d⟩ => ((d - now + 500) / 1000 : Nat)

def typeName (now : Nat) (e : Option Entry) : String :=
  match live now e with
  | none => "none"
  | some ⟨.str _, _⟩ => "string"
  | some ⟨.hash _, _⟩ => "hash"
  | some ⟨.list _, _⟩ => "list"
  | some ⟨.set _, _⟩ => "set"
  | some ⟨.zset _, _⟩ => "zset"
  | some ⟨.stream _, _⟩ => "stream"

/-- One of the encodings that a value of the type may have. -/
def encodingName : Value → String
  | .str _ => "raw"
  | .hash _ | .set _ => "hashtable"
  | .list _ => "quicklist"
  | .zset _ => "skiplist"
  | .stream _ => "stream"

def incrby (delta : Int) (s : String) : Except String (Json × String) :=
  match parseInt s with
  | none => .error "ERR value is not an integer or out of range"
  | some n =>
    if int64 (n + delta) then .ok (.int (n + delta), toString (n + delta))
    else .error "ERR increment or decrement would overflow"

def incrbyfloat (delta : Score) (s : String) : Except String (Json × String) :=
  match parseRat s, delta with
  | some a, .fin b => .ok (.float (.fin (a + b)), renderRat (a + b))
  | _, _ => .error "ERR value is not a valid float"

/-! ### Hashes, lists and sets -/

/-- Sets a field in place, or adds it at the end. -/
def putField {β : Type} (fs : List (String × β)) (f : String × β) : List (String × β) :=
  if fs.any (·.1 == f.1) then fs.map fun g => if g.1 == f.1 then f else g else fs ++ [f]

def hset (new : List (String × String)) (fs : List (String × String)) : Json × List (String × String) :=
  let fs' := new.foldl putField fs
  (.int (fs'.length - fs.length), fs')

def hdel (field : String) (fs : List (String × String)) : Json × List (String × String) :=
  let fs' := fs.filter (·.1 != field)
  (.int (fs.length - fs'.length), fs')

/-- The elements from `start` to `stop`, both counted from the end when negative. -/
def slice {α : Type} (start stop : Int) (xs : List α) : List α :=
  let n : Int := xs.length
  let a := if start < 0 then max (n + start) 0 else start
  let b := if stop < 0 then n + stop else stop
  (xs.drop a.toNat).take (b - a + 1).toNat

def ltrim (start stop : Int) (xs : List String) : Except String (Json × List String) :=
  if int64 start && int64 stop then .ok (.bool true, slice start stop xs)
  else .error "ERR value is not an integer or out of range"

def sadd (new ms : List String) : Json × List String :=
  let ms' := new.foldl (fun acc m => if acc.contains m then acc else acc ++ [m]) ms
  (.int (ms'.length - ms.length), ms')

def srem (m : String) (ms : List String) : Json × List String :=
  let ms' := ms.filter (· != m)
  (.int (ms.length - ms'.length), ms')

def hasMember (m : String) (ms : List String) : Json := .int (if ms.contains m then 1 else 0)

/-! ### Sorted sets -/

/-- By score, then by member. -/
def ranked (ms : List (String × Score)) : List (String × Score) :=
  ms.mergeSort fun a b => if a.2 = b.2 then decide (a.1 ≤ b.1) else a.2.le b.2

def scored (ms : List (String × Score)) : Json := .arr (ms.map fun m => .arr [.str m.1, .float m.2])

def zadd (new ms : List (String × Score)) : Except String (Json × List (String × Score)) :=
  if new.any (·.2 == .nan) then .error "ERR value is not a valid float"
  else
    let ms' := new.foldl putField ms
    .ok (.int (ms'.length - ms.length), ms')

def zrem (m : String) (ms : List (String × Score)) : Json × List (String × Score) :=
  let ms' := ms.filter (·.1 != m)
  (.int (ms.length - ms'.length), ms')

def zincrby (delta : Score) (m : String) (ms : List (String × Score)) :
    Except String (Json × List (String × Score)) :=
  let score := ((ms.lookup m).getD (.fin 0)).add delta
  if score = .nan then .error "ERR resulting score is not a number (NaN)"
  else .ok (.float score, putField ms (m, score))

def zpop (max : Bool) (ms : List (String × Score)) : Json × List (String × Score) :=
  match (if max then (ranked ms).reverse else ranked ms) with
  | [] => (.arr [], ms)
  | m :: _ => (scored [m], ms.filter (·.1 != m.1))

def zrange (start stop : Int) (reverse : Bool) (ms : List (String × Score)) : Json :=
  scored (slice start stop (if reverse then (ranked ms).reverse else ranked ms))

def zrangebyscore (min max : Score) (ms : List (String × Score)) : Reply :=
  if min = .nan ∨ max = .nan then .error "ERR min or max is not a float"
  else .ok (scored ((ranked ms).filter fun m => min.le m.2 && m.2.le max))

/-! ### Streams -/

def Stream.empty : Stream := ⟨[], ⟨0, 0⟩, []⟩

def entryJson (x : StreamId × List (String × String)) : Json :=
  .arr [.str x.1.render, .obj (x.2.map fun f => (f.1, .str f.2))]

/-- The id of a new entry: the time, or the successor of the last id when the clock is behind it. -/
def nextId (now : Nat) (last : StreamId) : StreamId :=
  if last.ms < now then ⟨now, 0⟩ else ⟨last.ms, last.seq + 1⟩

def xadd (now : Nat) (fields : List (String × String)) (maxlen : Int) (x : Stream) : Json × Stream :=
  let id := nextId now x.lastId
  let entries := x.entries ++ [(id, fields)]
  (.str id.render, { x with entries := entries.drop (entries.length - maxlen.toNat), lastId := id })

/-- `-`, an id, or an id behind `(` for the entries after it. -/
def lowerBound (min : String) : Option (StreamId → Bool) :=
  match min.toList with
  | ['-'] => some fun _ => true
  | '(' :: s => (parseId s).map fun id x => id.lt x
  | s => (parseId s).map fun id x => id.le x

def invalidId : String := "ERR Invalid stream ID specified as stream command argument"

def xrange (min : String) (count : Int) (x : Stream) : Reply :=
  match lowerBound min with
  | none => .error invalidId
  | some p => .ok (.arr (((x.entries.filter fun y => p y.1).take count.toNat).map entryJson))

def xgroupCreate (group id : String) (mkstream : Bool) (now : Nat) (e : Option Entry) : Reply × Option Entry :=
  match live now e, parseId id.toList with
  | _, none => (.error invalidId, e)
  | none, some start =>
    if mkstream then (.ok (.bool true), some ⟨.stream { Stream.empty with groups := [⟨group, start, [], []⟩] }, none⟩)
    else (.error "ERR The XGROUP subcommand requires the key to exist.", e)
  | some ⟨.stream x, d⟩, some start =>
    if x.groups.any (·.name == group) then (.error "BUSYGROUP Consumer Group name already exists", e)
    else (.ok (.bool true), some ⟨.stream { x with groups := x.groups ++ [⟨group, start, [], []⟩] }, d⟩)
  | some _, some _ => (.error wrongType, e)

/-- Applies `f` to the group of that name. -/
def onGroup (group : String) (x : Stream) (f : Group → Group) : Stream :=
  { x with groups := x.groups.map fun g => if g.name == group then f g else g }

def noGroup : String := "NOGROUP No such key or consumer group in XREADGROUP with GROUP option"

def xreadgroup (group consumer : String) (count : Int) (now : Nat) (e : Option Entry) : Reply × Option Entry :=
  match live now e with
  | none => (.error noGroup, e)
  | some ⟨.stream x, d⟩ => match x.groups.find? (·.name == group) with
    | none => (.error noGroup, e)
    | some g =>
      let new := (x.entries.filter fun y => g.lastDelivered.lt y.1).take count.toNat
      let reply := if new.isEmpty then .arr [] else .arr [.arr [.null, .arr (new.map entryJson)]]
      let x' := onGroup group x fun g =>
        { g with
          lastDelivered := (new.getLast?.map (·.1)).getD g.lastDelivered
          consumers := if g.consumers.contains consumer then g.consumers else g.consumers ++ [consumer]
          pending := g.pending ++ new.map fun y => (y.1, consumer) }
      (.ok reply, some ⟨.stream x', d⟩)
  | some _ => (.error wrongType, e)

def xack (group : String) (ids : List String) (now : Nat) (e : Option Entry) : Reply × Option Entry :=
  match ids.mapM (fun id => parseId id.toList), live now e with
  | none, _ => (.error invalidId, e)
  | some _, none => (.ok (.int 0), e)
  | some ids, some ⟨.stream x, d⟩ =>
    let pending := ((x.groups.find? (·.name == group)).map (·.pending)).getD []
    let acked := ids.filter fun id => pending.any (·.1 == id)
    let x' := onGroup group x fun g => { g with pending := g.pending.filter fun y => !ids.contains y.1 }
    (.ok (.int acked.dedup.length), some ⟨.stream x', d⟩)
  | some _, some _ => (.error wrongType, e)

def xinfoStream (e : Option Entry) : Reply :=
  match e with
  | none => .error "ERR no such key"
  | some ⟨.stream x, _⟩ =>
    .ok (.obj [("length", .int x.entries.length),
      ("first-entry", (x.entries.head?.map entryJson).getD .null),
      ("last-entry", (x.entries.getLast?.map entryJson).getD .null)])
  | some _ => .error wrongType

def xinfoGroups (e : Option Entry) : Reply :=
  match e with
  | none => .error "ERR no such key"
  | some ⟨.stream x, _⟩ =>
    .ok (.arr (x.groups.map fun g =>
      .obj [("name", .str g.name), ("consumers", .int g.consumers.length), ("pending", .int g.pending.length)]))
  | some _ => .error wrongType

/-! ### The server -/

def optional {α : Type} (f : α → Json) : Option α → Json
  | none => .null
  | some a => f a

def onKey (c : KeyCmd) (now : Nat) (e : Option Entry) : Reply × Option Entry :=
  match c with
  | .get => (match live now e with
    | none => .ok .null
    | some ⟨.str s, _⟩ => .ok (.str s)
    | some _ => .error wrongType, e)
  | .set value ex nx => setCmd now value ex nx e
  | .setex ttl value => setex now ttl value e
  | .del => (.ok (.int (if (live now e).isSome then 1 else 0)), none)
  | .exists => (.ok (.int (if (live now e).isSome then 1 else 0)), e)
  | .expire ttl => expire now ttl e
  | .persist => persist now e
  | .ttl => (.ok (.int (remaining now e)), e)
  | .type => (.ok (.str (typeName now e)), e)
  | .objectEncoding => (.ok (optional (fun x => .str (encodingName x.value)) (live now e)), e)
  | .strlen => reading Value.str? "" now e fun s => .ok (.int s.utf8ByteSize)
  | .incrby delta => writing Value.str? "0" (fun s => some (.str s)) now e (incrby delta)
  | .incrbyfloat delta => writing Value.str? "0" (fun s => some (.str s)) now e (incrbyfloat delta)
  | .hgetall => reading Value.hash? [] now e fun fs => .ok (.obj (fs.map fun f => (f.1, .str f.2)))
  | .hget field => reading Value.hash? [] now e fun fs => .ok (optional .str (fs.lookup field))
  | .hset fields => writing Value.hash? [] putHash now e fun fs => .ok (hset fields fs)
  | .hdel field => writing Value.hash? [] putHash now e fun fs => .ok (hdel field fs)
  | .hlen => reading Value.hash? [] now e fun fs => .ok (.int fs.length)
  | .lpush value => writing Value.list? [] putList now e fun xs => .ok (.int (xs.length + 1), value :: xs)
  | .rpush value => writing Value.list? [] putList now e fun xs => .ok (.int (xs.length + 1), xs ++ [value])
  | .lpop => writing Value.list? [] putList now e fun xs => .ok (optional .str xs.head?, xs.tail)
  | .rpop => writing Value.list? [] putList now e fun xs => .ok (optional .str xs.getLast?, xs.dropLast)
  | .llen => reading Value.list? [] now e fun xs => .ok (.int xs.length)
  | .lrange start stop => reading Value.list? [] now e fun xs => .ok (strings (slice start stop xs))
  | .ltrim start stop => writing Value.list? [] putList now e (ltrim start stop)
  | .sadd members => writing Value.set? [] putSet now e fun ms => .ok (sadd members ms)
  | .smembers => reading Value.set? [] now e fun ms => .ok (strings ms)
  | .sismember member => reading Value.set? [] now e fun ms => .ok (hasMember member ms)
  | .srem member => writing Value.set? [] putSet now e fun ms => .ok (srem member ms)
  | .scard => reading Value.set? [] now e fun ms => .ok (.int ms.length)
  | .zcard => reading Value.zset? [] now e fun ms => .ok (.int ms.length)
  | .zadd members => writing Value.zset? [] putZset now e (zadd members)
  | .zrange start stop reverse => reading Value.zset? [] now e fun ms => .ok (zrange start stop reverse ms)
  | .zscore member => reading Value.zset? [] now e fun ms => .ok (optional .float (ms.lookup member))
  | .zrangebyscore min max => reading Value.zset? [] now e (zrangebyscore min max)
  | .zrem member => writing Value.zset? [] putZset now e fun ms => .ok (zrem member ms)
  | .zincrby delta member => writing Value.zset? [] putZset now e (zincrby delta member)
  | .zpop max => writing Value.zset? [] putZset now e fun ms => .ok (zpop max ms)
  | .xadd fields maxlen => writing Value.stream? .empty (fun x => some (.stream x)) now e fun x =>
      .ok (xadd now fields maxlen x)
  | .xlen => reading Value.stream? .empty now e fun x => .ok (.int x.entries.length)
  | .xrange min count => reading Value.stream? .empty now e (xrange min count)
  | .xgroupCreate group id mkstream => xgroupCreate group id mkstream now e
  | .xreadgroup group consumer count => xreadgroup group consumer count now e
  | .xack group ids => xack group ids now e
  | .xinfoStream => (xinfoStream (live now e), e)
  | .xinfoGroups => (xinfoGroups (live now e), e)

/-- The sets under several keys; `none` when one of them holds something else. -/
def setsOf (now : Nat) (es : List (Option Entry)) : Option (List (List String)) :=
  es.mapM fun e => match live now e with
    | none => some []
    | some x => x.value.set?

def gather (g : GatherCmd) (now : Nat) (es : List (Option Entry)) : Reply :=
  match g, setsOf now es with
  | .mget, _ => .ok (.arr (es.map fun e => optional .str ((live now e).bind (·.value.str?))))
  | _, none => .error wrongType
  | _, some [] => .ok (.arr [])
  | .sinter, some (ms :: mss) => .ok (strings (ms.filter fun m => mss.all (·.contains m)))
  | .sunion, some (ms :: mss) => .ok (strings (ms ++ mss.flatten).dedup)
  | .sdiff, some (ms :: mss) => .ok (strings (ms.filter fun m => mss.all fun x => !x.contains m))

/-- The reference server, with nobody subscribed. -/
def reference : Server where
  onKey := onKey
  gather := gather
  publish _ _ := .ok (.int 0)

/-! ### It keeps what the documentation promises -/

theorem onKey_reads {c : KeyCmd} (h : c.reads = true) (now : Nat) (e : Option Entry) : (onKey c now e).2 = e := by
  cases c <;> simp only [KeyCmd.reads, Bool.false_eq_true] at h <;> rfl

theorem live_eq_some {now : Nat} {e : Option Entry} {x : Entry} (h : live now e = some x) : e = some x :=
  (Option.filter_eq_some_iff.mp h).1

theorem sameButGroups_onGroup {now : Nat} {e : Option Entry} {x : Stream} {d : Option Nat}
    (h : live now e = some ⟨.stream x, d⟩) (group : String) (f : Group → Group) :
    SameButGroups e (some ⟨.stream (onGroup group x f), d⟩) := by
  rw [live_eq_some h]
  exact ⟨⟨rfl, rfl⟩, rfl⟩

theorem onKey_books {c : KeyCmd} (h : c.books = true) (now : Nat) (e : Option Entry) :
    SameButGroups e (onKey c now e).2 := by
  cases c <;> simp only [KeyCmd.books, Bool.false_eq_true] at h
  case xreadgroup group consumer count =>
    simp only [onKey, xreadgroup]
    split
    · exact .refl e
    · rename_i x d hl
      split
      · exact .refl e
      · exact sameButGroups_onGroup hl _ _
    · exact .refl e
  case xack group ids =>
    simp only [onKey, xack]
    split
    · exact .refl e
    · exact .refl e
    · rename_i hl
      exact sameButGroups_onGroup hl _ _
    · exact .refl e

theorem onKey_create (group id : String) (mk : Bool) (now : Nat) (e : Option Entry) (h : (live now e).isSome) :
    SameButGroups e (onKey (.xgroupCreate group id mk) now e).2 := by
  simp only [onKey, xgroupCreate]
  split
  · exact .refl e
  · rename_i hl _
    rw [hl] at h
    cases h
  · rename_i x d start hl _
    split
    · exact .refl e
    · rw [live_eq_some hl]
      exact ⟨⟨rfl, rfl⟩, rfl⟩
  · exact .refl e

theorem onKey_createNew (group id : String) (mk : Bool) (now : Nat) (e : Option Entry) (h : live now e = none) :
    (onKey (.xgroupCreate group id mk) now e).2 = e ∨
      ∃ gs, (onKey (.xgroupCreate group id mk) now e).2 = some ⟨.stream ⟨[], ⟨0, 0⟩, gs⟩, none⟩ := by
  simp only [onKey, xgroupCreate, h]
  split
  · exact Or.inl rfl
  · split
    · exact Or.inr ⟨_, rfl⟩
    · exact Or.inl rfl
  · rename_i hl _; cases hl
  · rename_i hl _; cases hl

theorem onKey_popsNothing {c : KeyCmd} (hc : c.isPop = true) (now : Nat) (e : Option Entry)
    (h : ∀ x, live now e = some x → c.pops x.value = false) : (onKey c now e).2 = e := by
  cases hl : live now e with
  | none =>
    cases c <;> simp only [KeyCmd.isPop, Bool.false_eq_true] at hc
    case lpop => simp [onKey, writing, hl, putList]
    case rpop => simp [onKey, writing, hl, putList]
    case zpop max => cases max <;> simp [onKey, writing, hl, putZset, zpop, ranked]
  | some x =>
    have hx := h x hl
    obtain ⟨v, d⟩ := x
    cases c <;> simp only [KeyCmd.isPop, Bool.false_eq_true] at hc <;> cases v <;>
      simp only [KeyCmd.pops, Bool.true_eq_false] at hx <;>
      simp [onKey, writing, hl, Value.list?, Value.zset?]

theorem not_same_shorter {xs ys : List String} {d : Option Nat} (h : ys.length < xs.length ∨ xs = []) :
    ¬ SameButGroups (some ⟨.list xs, d⟩) ((putList ys).map fun v => ⟨v, d⟩) := by
  unfold putList
  cases ys with
  | nil => exact fun h => h
  | cons y ys =>
    rintro ⟨hv, -⟩
    rcases h with h | rfl
    · cases hv
      exact Nat.lt_irrefl _ h
    · cases hv

theorem not_same_without {ms : List (String × Score)} {m : String × Score} {d : Option Nat} (hm : m ∈ ms) :
    ¬ SameButGroups (some ⟨.zset ms, d⟩) ((putZset (ms.filter (·.1 != m.1))).map fun v => ⟨v, d⟩) := by
  unfold putZset
  split
  · exact fun h => h
  · rintro ⟨hv, -⟩
    have hms : ms = ms.filter (·.1 != m.1) := Value.zset.inj hv
    rw [hms] at hm
    simpa using (List.mem_filter.mp hm).2

theorem writing_live {α : Type} {get : Value → Option α} {empty : α} {put : α → Option Value} {now : Nat}
    {e : Option Entry} {x : Entry} {a b : α} {r : Json} {f : α → Except String (Json × α)} (hl : live now e = some x)
    (hget : get x.value = some a) (hf : f a = .ok (r, b)) :
    (writing get empty put now e f).2 = (put b).map fun v => ⟨v, x.deadline⟩ := by
  simp only [writing, hl, hget, hf]
  cases put b <;> rfl

theorem onKey_popsElement (c : KeyCmd) (now : Nat) (e : Option Entry) (x : Entry) (hl : live now e = some x)
    (hp : c.pops x.value = true) : ¬ SameButGroups e (onKey c now e).2 := by
  rw [live_eq_some hl]
  obtain ⟨v, d⟩ := x
  cases c <;> cases v <;> simp only [KeyCmd.pops, Bool.false_eq_true] at hp
  case lpop.list xs =>
    have hl' : live now (some ⟨.list xs, d⟩) = some ⟨.list xs, d⟩ := live_eq_some hl ▸ hl
    have h : (onKey .lpop now (some ⟨.list xs, d⟩)).2 = (putList xs.tail).map fun v => ⟨v, d⟩ := by
      rw [onKey]
      exact writing_live hl' rfl rfl
    rw [h]
    refine not_same_shorter ?_
    cases xs <;> simp
  case rpop.list xs =>
    have hl' : live now (some ⟨.list xs, d⟩) = some ⟨.list xs, d⟩ := live_eq_some hl ▸ hl
    have h : (onKey .rpop now (some ⟨.list xs, d⟩)).2 = (putList xs.dropLast).map fun v => ⟨v, d⟩ := by
      rw [onKey]
      exact writing_live hl' rfl rfl
    rw [h]
    refine not_same_shorter ?_
    cases xs <;> simp
  case zpop.zset max ms =>
    have hl' : live now (some ⟨.zset ms, d⟩) = some ⟨.zset ms, d⟩ := live_eq_some hl ▸ hl
    cases hr : (if max then (ranked ms).reverse else ranked ms) with
    | nil =>
      have hlen : ms = [] := by
        have := congrArg List.length hr
        cases max <;> simpa [ranked] using this
      subst hlen
      have h : (onKey (.zpop max) now (some ⟨.zset [], d⟩)).2 = (putZset []).map fun v => ⟨v, d⟩ :=
        writing_live (r := .arr []) hl' rfl (by simp only [zpop, hr])
      rw [h]
      exact fun h => h
    | cons m rest =>
      have hm : m ∈ ms := by
        have : m ∈ (if max then (ranked ms).reverse else ranked ms) := hr ▸ List.mem_cons_self
        cases max <;> simpa [ranked] using this
      have h : (onKey (.zpop max) now (some ⟨.zset ms, d⟩)).2 =
          (putZset (ms.filter (·.1 != m.1))).map fun v => ⟨v, d⟩ :=
        writing_live (r := scored [m]) hl' rfl (by simp only [zpop, hr])
      rw [h]
      exact not_same_without hm

theorem reference_lawful : reference.Lawful where
  reads _ h now e := onKey_reads h now e
  books _ h now e := onKey_books h now e
  create := onKey_create
  createNew := onKey_createNew
  popsNothing _ h := onKey_popsNothing h
  popsElement := onKey_popsElement

/-! ### What reading and writing can do -/

/-- What a command works on: the value under the key, or the empty one when there is none. -/
def Found {α : Type} (get : Value → Option α) (empty : α) (now : Nat) (e : Option Entry) (a : α) : Prop :=
  (live now e = none ∧ a = empty) ∨ ∃ x, live now e = some x ∧ get x.value = some a

/-- A write meets a value of another type, or it fails or succeeds on what it found. -/
inductive Wrote {α : Type} (get : Value → Option α) (empty : α) (put : α → Option Value) (now : Nat) (e : Option Entry)
    (f : α → Except String (Json × α)) : Reply × Option Entry → Prop
  | wrongType (x : Entry) (hl : live now e = some x) (hget : get x.value = none) :
    Wrote get empty put now e f (.error wrongType, e)
  | failed (a : α) (msg : String) (ha : Found get empty now e a) (hf : f a = .error msg) :
    Wrote get empty put now e f (.error msg, e)
  | wrote (a b : α) (r : Json) (ha : Found get empty now e a) (hf : f a = .ok (r, b))
    (hput : put b ≠ none ∨ live now e ≠ none) :
    Wrote get empty put now e f (.ok r, (put b).map fun v => ⟨v, (live now e).bind (·.deadline)⟩)
  | nothing (b : α) (r : Json) (hl : live now e = none) (hf : f empty = .ok (r, b)) (hput : put b = none) :
    Wrote get empty put now e f (.ok r, e)

theorem writing_cases {α : Type} (get : Value → Option α) (empty : α) (put : α → Option Value) (now : Nat)
    (e : Option Entry) (f : α → Except String (Json × α)) :
    Wrote get empty put now e f (writing get empty put now e f) := by
  have hwrote : ∀ (a b : α) (r : Json) (w : Option Entry), Found get empty now e a → f a = .ok (r, b) →
      put b ≠ none ∨ live now e ≠ none → w = ((put b).map fun v => ⟨v, (live now e).bind (·.deadline)⟩) →
      Wrote get empty put now e f (.ok r, w) := by
    rintro a b r _ ha hf hput rfl
    exact .wrote a b r ha hf hput
  unfold writing
  cases hl : live now e with
  | none =>
    have ha : Found get empty now e empty := Or.inl ⟨hl, rfl⟩
    dsimp only
    cases hf : f empty with
    | error msg => exact .failed empty msg ha hf
    | ok x =>
      obtain ⟨r, b⟩ := x
      dsimp only
      cases hput : put b with
      | none => exact .nothing b r hl hf hput
      | some v => exact hwrote empty b r _ ha hf (Or.inl (by simp [hput])) (by simp [hput, hl])
  | some x =>
    dsimp only
    cases hget : get x.value with
    | none => exact .wrongType x hl hget
    | some a =>
      have ha : Found get empty now e a := Or.inr ⟨x, hl, hget⟩
      dsimp only
      cases hf : f a with
      | error msg => exact .failed a msg ha hf
      | ok y =>
        obtain ⟨r, b⟩ := y
        refine hwrote a b r _ ha hf (Or.inr (by simp [hl])) ?_
        cases hput : put b with
        | none => rfl
        | some v => simp [hl]

/-- A read meets a value of another type, or it answers from what it found. -/
theorem reading_cases {α : Type} (get : Value → Option α) (empty : α) (now : Nat) (e : Option Entry) (f : α → Reply) :
    (∃ x, live now e = some x ∧ get x.value = none ∧ reading get empty now e f = (.error wrongType, e)) ∨
    ∃ a, Found get empty now e a ∧ reading get empty now e f = (f a, e) := by
  unfold reading
  cases hl : live now e with
  | none => exact Or.inr ⟨empty, Or.inl ⟨hl, rfl⟩, rfl⟩
  | some x =>
    cases hget : get x.value with
    | none => exact Or.inl ⟨x, rfl, hget, by simp only [hget]⟩
    | some a => exact Or.inr ⟨a, Or.inr ⟨x, hl, hget⟩, by simp only [hget]⟩

end Redgw.Redis
