import Redgw.Redis.Counters

/-! # Types and texts

Every value has one of six types, and every command that reads or writes values is for one of them. What
a command stores are the texts that it brings, the texts that were there, and decimal numbers. -/

namespace Redgw.Redis

inductive Kind
  | str
  | hash
  | list
  | set
  | zset
  | stream
deriving DecidableEq

/-- The name that `TYPE` has for the type. -/
def Kind.name : Kind → String
  | .str => "string"
  | .hash => "hash"
  | .list => "list"
  | .set => "set"
  | .zset => "zset"
  | .stream => "stream"

def Value.kind : Value → Kind
  | .str _ => .str
  | .hash _ => .hash
  | .list _ => .list
  | .set _ => .set
  | .zset _ => .zset
  | .stream _ => .stream

/-- The type of values that the command is for; the other commands are for keys of any type. -/
def KeyCmd.kind : KeyCmd → Option Kind
  | .get | .set .. | .setex .. | .strlen | .incrby _ | .incrbyfloat _ => some .str
  | .hgetall | .hget _ | .hset _ | .hdel _ | .hlen => some .hash
  | .lpush _ | .rpush _ | .lpop | .rpop | .llen | .lrange .. | .ltrim .. => some .list
  | .sadd _ | .smembers | .sismember _ | .srem _ | .scard => some .set
  | .zadd _ | .zcard | .zrange .. | .zscore _ | .zrangebyscore .. | .zrem _ | .zincrby .. | .zpop _ => some .zset
  | .xadd .. | .xlen | .xrange .. | .xgroupCreate .. | .xreadgroup .. | .xack .. | .xinfoStream | .xinfoGroups =>
    some .stream
  | .del | .exists | .expire _ | .persist | .ttl | .type | .objectEncoding => none

def GatherCmd.kind : GatherCmd → Kind
  | .mget => .str
  | .sinter | .sunion | .sdiff => .set

/-- An entry that is there is of this type. -/
def HasKind (κ : Kind) (e : Option Entry) : Prop := ∀ x, e = some x → x.value.kind = κ

theorem HasKind.live {κ : Kind} {e : Option Entry} (h : HasKind κ e) (now : Nat) : HasKind κ (live now e) :=
  fun x hx => h x (live_eq_some hx)

/-! ### The texts of a value -/

/-- The texts that a value holds, but for the names of fields and of stream entries. -/
def Value.texts : Value → List String
  | .str s => [s]
  | .hash fields => fields.map (·.2)
  | .list xs => xs
  | .set members => members
  | .zset members => members.map (·.1)
  | .stream x => x.entries.flatMap fun y => y.2.map (·.2)

def textsOf (e : Option Entry) : List String :=
  match e with
  | some x => x.value.texts
  | none => []

/-- The texts that a command brings. -/
def KeyCmd.texts : KeyCmd → List String
  | .set value _ _ | .setex _ value | .lpush value | .rpush value => [value]
  | .hset fields => fields.map (·.2)
  | .sadd members => members
  | .zadd members => members.map (·.1)
  | .zincrby _ member => [member]
  | .xadd fields _ => fields.map (·.2)
  | _ => []

/-! ### What the documentation promises -/

/-- Commands meet values of their type only where a key holds one, and keep the type. -/
structure Server.Typed (R : Server) : Prop where
  keeps : ∀ c κ now e, c.kind = some κ → HasKind κ e → HasKind κ (R.onKey c now e).2
  replies : ∀ c κ now e, c.kind = some κ → HasKind κ e → (R.onKey c now e).1 ≠ .error wrongType
  general : ∀ c now e, c.kind = none →
    (R.onKey c now e).1 ≠ .error wrongType ∧ ∀ κ, HasKind κ e → HasKind κ (R.onKey c now e).2
  type : ∀ κ now e, HasKind κ e →
    (R.onKey .type now e).1 = .ok (.str "none") ∨ (R.onKey .type now e).1 = .ok (.str κ.name)
  gather : ∀ (g : GatherCmd) now es, (∀ e ∈ es, HasKind g.kind e) → R.gather g now es ≠ .error wrongType

/-- A command stores the texts that it brings, texts that were there, and 64-bit integers in decimal. -/
structure Server.Stores (R : Server) : Prop where
  texts : ∀ c now e, (∀ delta, c ≠ .incrbyfloat delta) → ∀ t ∈ textsOf (R.onKey c now e).2,
    t ∈ textsOf e ∨ t ∈ c.texts ∨ ∃ n : Int, int64 n = true ∧ t = toString n

/-! ### The reference server keeps types -/

/-- `get` and `put` are for values of type `κ`. -/
structure Access {α : Type} (κ : Kind) (get : Value → Option α) (put : α → Option Value) : Prop where
  get : ∀ v, v.kind = κ → get v ≠ none
  put : ∀ a v, put a = some v → v.kind = κ

theorem access_str : Access .str Value.str? (fun s => some (.str s)) where
  get v hv := by cases v <;> cases hv; simp [Value.str?]
  put a v hv := by cases hv; rfl

theorem access_hash : Access .hash Value.hash? putHash where
  get v hv := by cases v <;> cases hv; simp [Value.hash?]
  put a v hv := by
    unfold putHash at hv
    split at hv
    · cases hv
    · cases hv
      rfl

theorem access_list : Access .list Value.list? putList where
  get v hv := by cases v <;> cases hv; simp [Value.list?]
  put a v hv := by
    unfold putList at hv
    split at hv
    · cases hv
    · cases hv
      rfl

theorem access_set : Access .set Value.set? putSet where
  get v hv := by cases v <;> cases hv; simp [Value.set?]
  put a v hv := by
    unfold putSet at hv
    split at hv
    · cases hv
    · cases hv
      rfl

theorem access_zset : Access .zset Value.zset? putZset where
  get v hv := by cases v <;> cases hv; simp [Value.zset?]
  put a v hv := by
    unfold putZset at hv
    split at hv
    · cases hv
    · cases hv
      rfl

theorem access_stream : Access .stream Value.stream? (fun x => some (.stream x)) where
  get v hv := by cases v <;> cases hv; simp [Value.stream?]
  put a v hv := by cases hv; rfl

/-- The command met no value of another type, and left one of its type. -/
def Fine (κ : Kind) (x : Reply × Option Entry) : Prop := x.1 ≠ .error wrongType ∧ HasKind κ x.2

theorem ok_ne {v : Json} : (Except.ok v : Reply) ≠ .error wrongType := fun h => by cases h

section Typed
variable {α : Type} {κ : Kind} {get : Value → Option α} {put : α → Option Value} {empty : α} {now : Nat} {e : Option Entry}

theorem fine_reading (h : Access κ get put) (he : HasKind κ e) {f : α → Reply} (hf : ∀ a, f a ≠ .error wrongType) :
    Fine κ (reading get empty now e f) := by
  rcases reading_cases get empty now e f with ⟨x, hl, hget, -⟩ | ⟨a, -, hread⟩
  · exact absurd hget (h.get x.value (he.live now x hl))
  · rw [hread]
    exact ⟨hf a, he⟩

theorem fine_writing (h : Access κ get put) (he : HasKind κ e) {f : α → Except String (Json × α)}
    (hf : ∀ a msg, f a = .error msg → msg ≠ wrongType) : Fine κ (writing get empty put now e f) := by
  have hcases := writing_cases get empty put now e f
  generalize writing get empty put now e f = w at hcases ⊢
  cases hcases with
  | wrongType x hl hget => exact absurd hget (h.get x.value (he.live now x hl))
  | failed a msg ha hfa => exact ⟨fun hmsg => hf a msg hfa (Except.error.inj hmsg), he⟩
  | wrote a b r ha hfa hput =>
    refine ⟨ok_ne, fun y hy => ?_⟩
    obtain ⟨v, hv, rfl⟩ := Option.map_eq_some_iff.mp hy
    exact h.put b v hv
  | nothing b r hl hfe hput => exact ⟨ok_ne, he⟩

end Typed

/-- A writer that cannot fail. -/
theorem never {α : Type} {f : α → Json × α} : ∀ a msg, (Except.ok (f a) : Except String (Json × α)) = .error msg →
    msg ≠ wrongType := fun _ _ h => by cases h

theorem message_ne {msg msg' : String} (hmsg : msg ≠ wrongType) {β : Type} (h : (Except.error msg : Except String β) = .error msg') :
    msg' ≠ wrongType := Except.error.inj h ▸ hmsg

theorem incrby_error {delta : Int} {s msg : String} (h : incrby delta s = .error msg) : msg ≠ wrongType := by
  unfold incrby at h
  split at h
  · exact message_ne (by decide) h
  · split at h
    · cases h
    · exact message_ne (by decide) h

theorem ltrim_error {start stop : Int} {xs : List String} {msg : String} (h : ltrim start stop xs = .error msg) :
    msg ≠ wrongType := by
  unfold ltrim at h
  split at h
  · cases h
  · exact message_ne (by decide) h

theorem incrbyfloat_error {delta : Score} {s msg : String} (h : incrbyfloat delta s = .error msg) : msg ≠ wrongType := by
  unfold incrbyfloat at h
  split at h
  · cases h
  · exact message_ne (by decide) h

theorem zadd_error {new ms : List (String × Score)} {msg : String} (h : zadd new ms = .error msg) : msg ≠ wrongType := by
  unfold zadd at h
  split at h
  · exact message_ne (by decide) h
  · cases h

theorem zincrby_error {delta : Score} {m : String} {ms : List (String × Score)} {msg : String}
    (h : zincrby delta m ms = .error msg) : msg ≠ wrongType := by
  unfold zincrby at h
  dsimp only at h
  split at h
  · exact message_ne (by decide) h
  · cases h

theorem zrangebyscore_ne {min max : Score} {ms : List (String × Score)} : zrangebyscore min max ms ≠ .error wrongType := by
  unfold zrangebyscore
  split
  · exact fun h => absurd (Except.error.inj h) (by decide)
  · exact ok_ne

theorem xrange_ne {min : String} {count : Int} {x : Stream} : xrange min count x ≠ .error wrongType := by
  unfold xrange
  split
  · exact fun h => absurd (Except.error.inj h) (by decide)
  · exact ok_ne

theorem fine_get {now : Nat} {e : Option Entry} (he : HasKind .str e) : Fine .str (onKey .get now e) := by
  refine ⟨?_, he⟩
  simp only [onKey]
  split
  · exact ok_ne
  · exact ok_ne
  · rename_i x hx hl
    obtain ⟨v, d⟩ := x
    cases v with
    | str s => exact absurd rfl (hx s d)
    | _ => cases he.live now _ hl

theorem fine_setex {now : Nat} {e : Option Entry} {ttl : Int} {value : String} (he : HasKind .str e) :
    Fine .str (setex now ttl value e) := by
  unfold setex
  split
  · refine ⟨ok_ne, fun x hx => ?_⟩
    cases hx
    rfl
  · exact ⟨fun h => absurd (Except.error.inj h) (by decide), he⟩

/-- SET writes its value, or leaves the key as it is. -/
theorem setCmd_cases (now : Nat) (value : String) (ex : Option Int) (nx : Bool) (e : Option Entry) :
    setCmd now value ex nx e = (.ok .null, e) ∨
    (∃ d, setCmd now value ex nx e = (.ok (.bool true), some ⟨.str value, d⟩)) ∨
    setCmd now value ex nx e = (.error "ERR invalid expire time in 'set' command", e) := by
  unfold setCmd
  dsimp only
  split
  · split
    · exact Or.inl rfl
    · exact Or.inr (Or.inl ⟨_, rfl⟩)
  · split
    · split
      · exact Or.inl rfl
      · exact Or.inr (Or.inl ⟨_, rfl⟩)
    · exact Or.inr (Or.inr rfl)

theorem fine_set {now : Nat} {e : Option Entry} {value : String} {ex : Option Int} {nx : Bool} (he : HasKind .str e) :
    Fine .str (setCmd now value ex nx e) := by
  rcases setCmd_cases now value ex nx e with h | ⟨d, h⟩ | h
  · rw [h]
    exact ⟨ok_ne, he⟩
  · rw [h]
    refine ⟨ok_ne, fun x hx => ?_⟩
    cases hx
    rfl
  · rw [h]
    exact ⟨fun h => absurd (Except.error.inj h) (by decide), he⟩

section Streams
variable {now : Nat} {e : Option Entry}

/-- An entry that is there under a key of streams is a stream. -/
theorem stream_of_live (he : HasKind .stream e) {x : Entry} (hl : live now e = some x) :
    ∃ y d, x = ⟨.stream y, d⟩ := by
  have hkind := he.live now x hl
  obtain ⟨v, d⟩ := x
  cases v with
  | stream y => exact ⟨y, d, rfl⟩
  | _ => cases hkind

theorem hasKind_stream {x : Stream} {d : Option Nat} : HasKind .stream (some ⟨.stream x, d⟩) := by
  intro y hy
  cases hy
  rfl

theorem fine_xgroupCreate (he : HasKind .stream e) (group id : String) (mk : Bool) :
    Fine .stream (xgroupCreate group id mk now e) := by
  unfold xgroupCreate
  split
  · exact ⟨fun h => absurd (Except.error.inj h) (by decide), he⟩
  · split
    · exact ⟨ok_ne, hasKind_stream⟩
    · exact ⟨fun h => absurd (Except.error.inj h) (by decide), he⟩
  · split
    · exact ⟨fun h => absurd (Except.error.inj h) (by decide), he⟩
    · exact ⟨ok_ne, hasKind_stream⟩
  · rename_i x start hx hl hid
    obtain ⟨y, d, rfl⟩ := stream_of_live he hl
    exact (hx y d rfl).elim

theorem fine_xreadgroup (he : HasKind .stream e) (group consumer : String) (count : Int) :
    Fine .stream (xreadgroup group consumer count now e) := by
  unfold xreadgroup
  split
  · exact ⟨fun h => absurd (Except.error.inj h) (by decide), he⟩
  · split
    · exact ⟨fun h => absurd (Except.error.inj h) (by decide), he⟩
    · exact ⟨ok_ne, hasKind_stream⟩
  · rename_i x hx hl
    obtain ⟨y, d, rfl⟩ := stream_of_live he hl
    exact (hx y d rfl).elim

theorem fine_xack (he : HasKind .stream e) (group : String) (ids : List String) :
    Fine .stream (xack group ids now e) := by
  unfold xack
  split
  · exact ⟨fun h => absurd (Except.error.inj h) (by decide), he⟩
  · exact ⟨ok_ne, he⟩
  · exact ⟨ok_ne, hasKind_stream⟩
  · rename_i ids x hx hids hl
    obtain ⟨y, d, rfl⟩ := stream_of_live he hl
    exact (hx y d rfl).elim

theorem fine_xinfoStream (he : HasKind .stream e) : Fine .stream (xinfoStream (live now e), e) := by
  refine ⟨?_, he⟩
  unfold xinfoStream
  split
  · exact fun h => absurd (Except.error.inj h) (by decide)
  · exact ok_ne
  · rename_i x hx hl
    obtain ⟨y, d, rfl⟩ := stream_of_live he hl
    exact (hx y d rfl).elim

theorem fine_xinfoGroups (he : HasKind .stream e) : Fine .stream (xinfoGroups (live now e), e) := by
  refine ⟨?_, he⟩
  unfold xinfoGroups
  split
  · exact fun h => absurd (Except.error.inj h) (by decide)
  · exact ok_ne
  · rename_i x hx hl
    obtain ⟨y, d, rfl⟩ := stream_of_live he hl
    exact (hx y d rfl).elim

end Streams

theorem onKey_fine {c : KeyCmd} {κ : Kind} {now : Nat} {e : Option Entry} (hc : c.kind = some κ) (he : HasKind κ e) :
    Fine κ (onKey c now e) := by
  cases c <;> cases hc
  case get => exact fine_get he
  case set => exact fine_set he
  case setex => exact fine_setex he
  case strlen => exact fine_reading access_str he fun _ => ok_ne
  case incrby => exact fine_writing access_str he fun _ _ => incrby_error
  case incrbyfloat => exact fine_writing access_str he fun _ _ => incrbyfloat_error
  case hgetall => exact fine_reading access_hash he fun _ => ok_ne
  case hget => exact fine_reading access_hash he fun _ => ok_ne
  case hset => exact fine_writing access_hash he never
  case hdel => exact fine_writing access_hash he never
  case hlen => exact fine_reading access_hash he fun _ => ok_ne
  case lpush => exact fine_writing access_list he never
  case rpush => exact fine_writing access_list he never
  case lpop => exact fine_writing access_list he never
  case rpop => exact fine_writing access_list he never
  case llen => exact fine_reading access_list he fun _ => ok_ne
  case lrange => exact fine_reading access_list he fun _ => ok_ne
  case ltrim => exact fine_writing access_list he fun _ _ => ltrim_error
  case sadd => exact fine_writing access_set he never
  case smembers => exact fine_reading access_set he fun _ => ok_ne
  case sismember => exact fine_reading access_set he fun _ => ok_ne
  case srem => exact fine_writing access_set he never
  case scard => exact fine_reading access_set he fun _ => ok_ne
  case zadd => exact fine_writing access_zset he fun _ _ => zadd_error
  case zcard => exact fine_reading access_zset he fun _ => ok_ne
  case zrange => exact fine_reading access_zset he fun _ => ok_ne
  case zscore => exact fine_reading access_zset he fun _ => ok_ne
  case zrangebyscore => exact fine_reading access_zset he fun _ => zrangebyscore_ne
  case zrem => exact fine_writing access_zset he never
  case zincrby => exact fine_writing access_zset he fun _ _ => zincrby_error
  case zpop => exact fine_writing access_zset he never
  case xadd => exact fine_writing access_stream he never
  case xlen => exact fine_reading access_stream he fun _ => ok_ne
  case xrange => exact fine_reading access_stream he fun _ => xrange_ne
  case xgroupCreate => exact fine_xgroupCreate he _ _ _
  case xreadgroup => exact fine_xreadgroup he _ _ _
  case xack => exact fine_xack he _ _
  case xinfoStream => exact fine_xinfoStream he
  case xinfoGroups => exact fine_xinfoGroups he

/-- The commands for keys of any type remove a value or leave it. -/
theorem onKey_general {c : KeyCmd} (hc : c.kind = none) (now : Nat) (e : Option Entry) :
    (onKey c now e).1 ≠ .error wrongType ∧ ∀ x, (onKey c now e).2 = some x → ∃ y, e = some y ∧ x.value = y.value := by
  cases c <;> cases hc
  case del => exact ⟨ok_ne, fun x hx => by cases hx⟩
  case «exists» => exact ⟨ok_ne, fun x hx => ⟨x, hx, rfl⟩⟩
  case ttl => exact ⟨ok_ne, fun x hx => ⟨x, hx, rfl⟩⟩
  case type => exact ⟨ok_ne, fun x hx => ⟨x, hx, rfl⟩⟩
  case objectEncoding => exact ⟨ok_ne, fun x hx => ⟨x, hx, rfl⟩⟩
  case expire ttl =>
    simp only [onKey, expire]
    split
    · refine ⟨ok_ne, fun x hx => ?_⟩
      dsimp only at hx
      split at hx
      · cases hx
      · exact ⟨x, hx, rfl⟩
    · split
      · exact ⟨fun h => absurd (Except.error.inj h) (by decide), fun x hx => ⟨x, hx, rfl⟩⟩
      · split
        · exact ⟨ok_ne, fun x hx => ⟨x, hx, rfl⟩⟩
        · rename_i y hl
          refine ⟨ok_ne, fun x hx => ?_⟩
          cases hx
          exact ⟨y, live_eq_some hl, rfl⟩
  case persist =>
    simp only [onKey, persist]
    split
    · rename_i v d hl
      refine ⟨ok_ne, fun x hx => ?_⟩
      cases hx
      exact ⟨_, live_eq_some hl, rfl⟩
    · exact ⟨ok_ne, fun x hx => ⟨x, hx, rfl⟩⟩

theorem setsOf_ne {now : Nat} {es : List (Option Entry)} (h : ∀ e ∈ es, HasKind .set e) : setsOf now es ≠ none := by
  unfold setsOf
  induction es with
  | nil => simp
  | cons e es ih =>
    obtain ⟨mss, hmss⟩ := Option.ne_none_iff_exists'.mp (ih fun e he => h e (List.mem_cons_of_mem _ he))
    rw [List.mapM_cons, hmss]
    cases hl : live now e with
    | none => simp
    | some x =>
      obtain ⟨ms, hms⟩ := Option.ne_none_iff_exists'.mp
        (access_set.get x.value ((h e List.mem_cons_self).live now x hl))
      simp [hms]

theorem gather_ne {g : GatherCmd} {now : Nat} {es : List (Option Entry)} (h : ∀ e ∈ es, HasKind g.kind e) :
    gather g now es ≠ .error wrongType := by
  have hsets : g = .mget ∨ setsOf now es ≠ none := by
    cases g with
    | mget => exact Or.inl rfl
    | _ => exact Or.inr (setsOf_ne h)
  unfold gather
  split
  · exact ok_ne
  · rename_i hg hnone
    rcases hsets with rfl | hsome
    · exact (hg rfl).elim
    · exact absurd hnone hsome
  · exact ok_ne
  · exact ok_ne
  · exact ok_ne
  · exact ok_ne

theorem typeName_kind {κ : Kind} {now : Nat} {e : Option Entry} (he : HasKind κ e) :
    (onKey .type now e).1 = .ok (.str "none") ∨ (onKey .type now e).1 = .ok (.str κ.name) := by
  simp only [onKey, typeName]
  cases hl : live now e with
  | none => exact Or.inl rfl
  | some x =>
    obtain ⟨v, d⟩ := x
    have hkind := he.live now _ hl
    subst hkind
    cases v <;> exact Or.inr rfl

theorem reference_typed : reference.Typed where
  keeps _ _ _ _ hc he := (onKey_fine hc he).2
  replies _ _ _ _ hc he := (onKey_fine hc he).1
  general c now e hc := by
    obtain ⟨hreply, hvalue⟩ := onKey_general hc now e
    refine ⟨hreply, fun κ he x hx => ?_⟩
    obtain ⟨y, hy, hxy⟩ := hvalue x hx
    rw [hxy]
    exact he y hy
  type _ _ _ he := typeName_kind he
  gather _ _ _ h := gather_ne h

/-! ### The reference server stores what it is given -/

/-- A text that the command may leave under a key that held `e`. -/
def Brought (c : KeyCmd) (e : Option Entry) (t : String) : Prop :=
  t ∈ textsOf e ∨ t ∈ c.texts ∨ ∃ n : Int, int64 n = true ∧ t = toString n

theorem mem_textsOf_live {now : Nat} {e : Option Entry} {x : Entry} (hl : live now e = some x) {t : String}
    (ht : t ∈ x.value.texts) : t ∈ textsOf e := by
  rw [live_eq_some hl]
  exact ht

/-- A write brings texts only by what it makes of the value it found. -/
theorem texts_writing {α : Type} {get : Value → Option α} {put : α → Option Value} {empty : α} {texts : α → List String}
    (hget : ∀ v a, get v = some a → v.texts = texts a) (hput : ∀ a v, put a = some v → v.texts = texts a)
    (hempty : ∀ t ∈ texts empty, ∃ n : Int, int64 n = true ∧ t = toString n) {c : KeyCmd} {now : Nat} {e : Option Entry}
    {f : α → Except String (Json × α)}
    (hf : ∀ a r b, f a = .ok (r, b) → ∀ t ∈ texts b, t ∈ texts a ∨ t ∈ c.texts ∨ ∃ n : Int, int64 n = true ∧ t = toString n)
    {t : String} (ht : t ∈ textsOf (writing get empty put now e f).2) : Brought c e t := by
  have hcases := writing_cases get empty put now e f
  generalize writing get empty put now e f = w at hcases ht
  cases hcases with
  | wrongType x hl hg => exact Or.inl ht
  | failed a msg ha hfa => exact Or.inl ht
  | nothing b r hl hfe hpb => exact Or.inl ht
  | wrote a b r ha hfa hpb =>
    have hb : t ∈ texts b := by
      cases hv : put b with
      | none =>
        rw [hv] at ht
        cases ht
      | some v =>
        rw [hv] at ht
        rw [← hput b v hv]
        exact ht
    rcases hf a r b hfa t hb with hta | hta
    · rcases ha with ⟨-, rfl⟩ | ⟨x, hl, hg⟩
      · exact Or.inr (Or.inr (hempty t hta))
      · exact Or.inl (mem_textsOf_live hl (hget x.value a hg ▸ hta))
    · exact Or.inr hta

theorem mem_putField {β : Type} {fs : List (String × β)} {f x : String × β} (h : x ∈ putField fs f) : x ∈ fs ∨ x = f := by
  unfold putField at h
  split at h
  · obtain ⟨g, hg, hx⟩ := List.mem_map.mp h
    split at hx
    · exact Or.inr hx.symm
    · exact Or.inl (hx ▸ hg)
  · rcases List.mem_append.mp h with h | h
    · exact Or.inl h
    · exact Or.inr (List.mem_singleton.mp h)

theorem mem_putFields {β : Type} {new fs : List (String × β)} {x : String × β} (h : x ∈ new.foldl putField fs) :
    x ∈ fs ∨ x ∈ new := by
  induction new generalizing fs with
  | nil => exact Or.inl h
  | cons f new ih =>
    rcases ih h with hx | hx
    · rcases mem_putField hx with hx | rfl
      · exact Or.inl hx
      · exact Or.inr List.mem_cons_self
    · exact Or.inr (List.mem_cons_of_mem _ hx)

theorem mem_sadd {new ms : List String} {m : String} (h : m ∈ (sadd new ms).2) : m ∈ ms ∨ m ∈ new := by
  unfold sadd at h
  dsimp only at h
  induction new generalizing ms with
  | nil => exact Or.inl h
  | cons n new ih =>
    rw [List.foldl_cons] at h
    rcases ih h with hm | hm
    · split at hm
      · exact Or.inl hm
      · rcases List.mem_append.mp hm with hm | hm
        · exact Or.inl hm
        · exact Or.inr (List.mem_singleton.mp hm ▸ List.mem_cons_self)
    · exact Or.inr (List.mem_cons_of_mem _ hm)

theorem mem_slice {start stop : Int} {xs : List String} {x : String} (h : x ∈ slice start stop xs) : x ∈ xs :=
  List.mem_of_mem_drop (List.mem_of_mem_take h)

/-! The values that the accessors of each type give and take. -/

theorem texts_str (v : Value) (s : String) (h : v.str? = some s) : v.texts = [s] := by
  cases v <;> cases h
  rfl

theorem texts_hash (v : Value) (fs : List (String × String)) (h : v.hash? = some fs) : v.texts = fs.map (·.2) := by
  cases v <;> cases h
  rfl

theorem texts_list (v : Value) (xs : List String) (h : v.list? = some xs) : v.texts = xs := by
  cases v <;> cases h
  rfl

theorem texts_set (v : Value) (ms : List String) (h : v.set? = some ms) : v.texts = ms := by
  cases v <;> cases h
  rfl

theorem texts_zset (v : Value) (ms : List (String × Score)) (h : v.zset? = some ms) : v.texts = ms.map (·.1) := by
  cases v <;> cases h
  rfl

def Stream.texts (x : Stream) : List String := x.entries.flatMap fun y => y.2.map (·.2)

theorem texts_stream (v : Value) (x : Stream) (h : v.stream? = some x) : v.texts = x.texts := by
  cases v <;> cases h
  rfl

theorem texts_putHash (fs : List (String × String)) (v : Value) (h : putHash fs = some v) : v.texts = fs.map (·.2) := by
  unfold putHash at h
  split at h <;> cases h
  rfl

theorem texts_putList (xs : List String) (v : Value) (h : putList xs = some v) : v.texts = xs := by
  unfold putList at h
  split at h <;> cases h
  rfl

theorem texts_putSet (ms : List String) (v : Value) (h : putSet ms = some v) : v.texts = ms := by
  unfold putSet at h
  split at h <;> cases h
  rfl

theorem texts_putZset (ms : List (String × Score)) (v : Value) (h : putZset ms = some v) : v.texts = ms.map (·.1) := by
  unfold putZset at h
  split at h <;> cases h
  rfl

section Brought
variable {now : Nat} {e : Option Entry} {t : String}

theorem not_mem_empty {t : String} (h : t ∈ ([] : List String)) : ∃ n : Int, int64 n = true ∧ t = toString n := by
  cases h

theorem brought_hash {c : KeyCmd} {f : List (String × String) → Except String (Json × List (String × String))}
    (hf : ∀ a r b, f a = .ok (r, b) → ∀ x ∈ b, x ∈ a ∨ x.2 ∈ c.texts)
    (ht : t ∈ textsOf (writing Value.hash? [] putHash now e f).2) : Brought c e t := by
  refine texts_writing texts_hash texts_putHash (fun _ => not_mem_empty) (fun a r b hab t ht => ?_) ht
  obtain ⟨x, hx, rfl⟩ := List.mem_map.mp ht
  rcases hf a r b hab x hx with h | h
  · exact Or.inl (List.mem_map_of_mem h)
  · exact Or.inr (Or.inl h)

theorem brought_list {c : KeyCmd} {f : List String → Except String (Json × List String)}
    (hf : ∀ a r b, f a = .ok (r, b) → ∀ x ∈ b, x ∈ a ∨ x ∈ c.texts)
    (ht : t ∈ textsOf (writing Value.list? [] putList now e f).2) : Brought c e t := by
  refine texts_writing texts_list texts_putList (fun _ => not_mem_empty) (fun a r b hab t ht => ?_) ht
  exact (hf a r b hab t ht).imp_right Or.inl

theorem brought_set {c : KeyCmd} {f : List String → Except String (Json × List String)}
    (hf : ∀ a r b, f a = .ok (r, b) → ∀ x ∈ b, x ∈ a ∨ x ∈ c.texts)
    (ht : t ∈ textsOf (writing Value.set? [] putSet now e f).2) : Brought c e t := by
  refine texts_writing texts_set texts_putSet (fun _ => not_mem_empty) (fun a r b hab t ht => ?_) ht
  exact (hf a r b hab t ht).imp_right Or.inl

theorem brought_zset {c : KeyCmd} {f : List (String × Score) → Except String (Json × List (String × Score))}
    (hf : ∀ a r b, f a = .ok (r, b) → ∀ x ∈ b, x ∈ a ∨ x.1 ∈ c.texts)
    (ht : t ∈ textsOf (writing Value.zset? [] putZset now e f).2) : Brought c e t := by
  refine texts_writing texts_zset texts_putZset (fun _ => not_mem_empty) (fun a r b hab t ht => ?_) ht
  obtain ⟨x, hx, rfl⟩ := List.mem_map.mp ht
  rcases hf a r b hab x hx with h | h
  · exact Or.inl (List.mem_map_of_mem h)
  · exact Or.inr (Or.inl h)

theorem brought_incrby {delta : Int} (ht : t ∈ textsOf (onKey (.incrby delta) now e).2) : Brought (.incrby delta) e t := by
  have hput : ∀ a v, (some (Value.str a)) = some v → v.texts = [a] := by
    rintro a v ⟨⟩
    rfl
  have hzero : ∀ t ∈ ["0"], ∃ n : Int, int64 n = true ∧ t = toString n := by
    intro t ht
    exact ⟨0, by decide, List.mem_singleton.mp ht⟩
  refine texts_writing texts_str hput hzero (fun a r b hab t ht => ?_) ht
  unfold incrby at hab
  split at hab
  · cases hab
  · rename_i n hn
    split at hab
    · rename_i h64
      cases hab
      exact Or.inr (Or.inr ⟨n + delta, h64, List.mem_singleton.mp ht⟩)
    · cases hab

theorem brought_xadd {fields : List (String × String)} {maxlen : Int}
    (ht : t ∈ textsOf (onKey (.xadd fields maxlen) now e).2) : Brought (.xadd fields maxlen) e t := by
  have hput : ∀ x v, (some (Value.stream x)) = some v → v.texts = x.texts := by
    rintro x v ⟨⟩
    rfl
  refine texts_writing texts_stream hput (fun _ => not_mem_empty) (fun a r b hab t ht => ?_) ht
  cases hab
  obtain ⟨y, hy, hty⟩ := List.mem_flatMap.mp ht
  rcases List.mem_append.mp (List.mem_of_mem_drop hy) with hy | hy
  · exact Or.inl (List.mem_flatMap.mpr ⟨y, hy, hty⟩)
  · rw [List.mem_singleton.mp hy] at hty
    exact Or.inr (Or.inl hty)

/-- A stream that gets other groups holds the same texts. -/
theorem texts_groups {x : Stream} {d : Option Nat} (hl : live now e = some ⟨.stream x, d⟩) {gs : List Group}
    (ht : t ∈ textsOf (some ⟨.stream { x with groups := gs }, d⟩)) : t ∈ textsOf e :=
  mem_textsOf_live hl ht

theorem texts_setCmd {value : String} {ex : Option Int} {nx : Bool} (ht : t ∈ textsOf (setCmd now value ex nx e).2) :
    t ∈ textsOf e ∨ t = value := by
  rcases setCmd_cases now value ex nx e with h | ⟨d, h⟩ | h
  · rw [h] at ht
    exact Or.inl ht
  · rw [h] at ht
    exact Or.inr (List.mem_singleton.mp ht)
  · rw [h] at ht
    exact Or.inl ht

theorem texts_setex {ttl : Int} {value : String} (ht : t ∈ textsOf (setex now ttl value e).2) :
    t ∈ textsOf e ∨ t = value := by
  unfold setex at ht
  split at ht
  · exact Or.inr (List.mem_singleton.mp ht)
  · exact Or.inl ht

theorem texts_xgroupCreate {group id : String} {mk : Bool} (ht : t ∈ textsOf (xgroupCreate group id mk now e).2) :
    t ∈ textsOf e := by
  unfold xgroupCreate at ht
  split at ht
  · exact ht
  · split at ht
    · cases ht
    · exact ht
  · rename_i hl _
    split at ht
    · exact ht
    · exact texts_groups hl ht
  · exact ht

theorem texts_books {c : KeyCmd} (hc : c.books = true) (ht : t ∈ textsOf (onKey c now e).2) : t ∈ textsOf e := by
  have hsame := onKey_books hc now e
  generalize (onKey c now e).2 = e' at hsame ht
  cases e' with
  | none => cases ht
  | some y =>
    cases e with
    | none => exact hsame.elim
    | some x =>
      obtain ⟨hv, -⟩ := hsame
      obtain ⟨v, d⟩ := x
      obtain ⟨w, d'⟩ := y
      cases v <;> cases w <;> simp only [Value.sameButGroups, reduceCtorEq] at hv
      case stream.stream x y =>
        obtain ⟨hentries, -⟩ := hv
        have htexts : t ∈ x.texts := by
          unfold Stream.texts
          rw [hentries]
          exact ht
        exact htexts
      all_goals
        rw [hv]
        exact ht

end Brought

theorem texts_general {c : KeyCmd} (hc : c.kind = none) {now : Nat} {e : Option Entry} {t : String}
    (ht : t ∈ textsOf (onKey c now e).2) : t ∈ textsOf e := by
  obtain ⟨-, hvalue⟩ := onKey_general hc now e
  generalize (onKey c now e).2 = e' at hvalue ht
  cases e' with
  | none => cases ht
  | some x =>
    obtain ⟨y, rfl, hxy⟩ := hvalue x rfl
    have htexts : t ∈ x.value.texts := ht
    rw [hxy] at htexts
    exact htexts

theorem onKey_brought {c : KeyCmd} (hc : ∀ delta, c ≠ .incrbyfloat delta) {now : Nat} {e : Option Entry} {t : String}
    (ht : t ∈ textsOf (onKey c now e).2) : Brought c e t := by
  by_cases hreads : c.reads = true
  · rw [onKey_reads hreads] at ht
    exact Or.inl ht
  by_cases hkind : c.kind = none
  · exact Or.inl (texts_general hkind ht)
  cases c with
  | set value ex nx => exact (texts_setCmd ht).imp_right fun h => Or.inl (List.mem_singleton.mpr h)
  | setex ttl value => exact (texts_setex ht).imp_right fun h => Or.inl (List.mem_singleton.mpr h)
  | incrby delta => exact brought_incrby ht
  | incrbyfloat delta => exact absurd rfl (hc delta)
  | hset fields =>
    refine brought_hash (fun a r b hab x hx => ?_) ht
    cases hab
    exact (mem_putFields hx).imp_right List.mem_map_of_mem
  | hdel field =>
    refine brought_hash (fun a r b hab x hx => ?_) ht
    cases hab
    exact Or.inl (List.mem_of_mem_filter hx)
  | lpush value =>
    refine brought_list (fun a r b hab x hx => ?_) ht
    cases hab
    exact (List.mem_cons.mp hx).symm.imp_right List.mem_singleton.mpr
  | rpush value =>
    refine brought_list (fun a r b hab x hx => ?_) ht
    cases hab
    exact List.mem_append.mp hx
  | lpop =>
    refine brought_list (fun a r b hab x hx => ?_) ht
    cases hab
    exact Or.inl (List.mem_of_mem_tail hx)
  | rpop =>
    refine brought_list (fun a r b hab x hx => ?_) ht
    cases hab
    exact Or.inl (List.mem_of_mem_dropLast hx)
  | ltrim start stop =>
    refine brought_list (fun a r b hab x hx => ?_) ht
    unfold Redis.ltrim at hab
    split at hab
    · cases hab
      exact Or.inl (mem_slice hx)
    · cases hab
  | sadd members =>
    refine brought_set (fun a r b hab x hx => ?_) ht
    cases hab
    exact mem_sadd hx
  | srem member =>
    refine brought_set (fun a r b hab x hx => ?_) ht
    cases hab
    exact Or.inl (List.mem_of_mem_filter hx)
  | zadd members =>
    refine brought_zset (fun a r b hab x hx => ?_) ht
    unfold zadd at hab
    split at hab
    · cases hab
    · cases hab
      exact (mem_putFields hx).imp_right List.mem_map_of_mem
  | zrem member =>
    refine brought_zset (fun a r b hab x hx => ?_) ht
    cases hab
    exact Or.inl (List.mem_of_mem_filter hx)
  | zincrby delta member =>
    refine brought_zset (fun a r b hab x hx => ?_) ht
    unfold zincrby at hab
    dsimp only at hab
    split at hab
    · cases hab
    · cases hab
      exact (mem_putField hx).imp_right fun h => List.mem_singleton.mpr (congrArg (·.1) h)
  | zpop max =>
    refine brought_zset (fun a r b hab x hx => ?_) ht
    injection hab with hab
    unfold zpop at hab
    split at hab
    · cases hab
      exact Or.inl hx
    · cases hab
      exact Or.inl (List.mem_of_mem_filter hx)
  | xadd fields maxlen => exact brought_xadd ht
  | xgroupCreate group id mk => exact Or.inl (texts_xgroupCreate ht)
  | xreadgroup group consumer count => exact Or.inl (texts_books rfl ht)
  | xack group ids => exact Or.inl (texts_books rfl ht)
  | _ => first | exact absurd rfl hreads | exact absurd rfl hkind

theorem reference_stores : reference.Stores where
  texts _ _ _ hc _ ht := onKey_brought hc ht

end Redgw.Redis
