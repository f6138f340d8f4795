import Redgw.Redis.Kinds
import Redgw.Redis.Writes
/-! # Refusals

Commands that are refused, that find nothing to take away, or that cannot fail. -/

namespace Redgw.Redis

/-- A collection has elements: its key goes with the last one of them. -/
def Value.Solid : Value → Prop
  | .hash fields => fields ≠ []
  | .list xs => xs ≠ []
  | .set members => members ≠ []
  | .zset members => members ≠ []
  | .str _ | .stream _ => True

def Solid (e : Option Entry) : Prop := ∀ x, e = some x → x.value.Solid

/-- The commands that take one thing out of a hash or a set. Their replies are falsy if it was not there. -/
def KeyCmd.takes : KeyCmd → Bool
  | .hdel _ | .srem _ | .zrem _ | .zpop _ => true
  | _ => false

/-- What the documentation of Redis promises of them. -/
structure Server.Refusals (R : Server) : Prop where
  refused : ∀ c now e msg, (R.onKey c now e).1 = .error msg → (R.onKey c now e).2 = e
  takes : ∀ c now e v, c.takes = true → Solid e → (R.onKey c now e).1 = .ok v → v.truthy = false → (R.onKey c now e).2 = e
  incrby : ∀ delta now e v, (R.onKey (.incrby delta) now e).1 = .ok v → (live now (R.onKey (.incrby delta) now e).2).isSome
  zadd : ∀ members now e, HasKind .zset e → (∀ x ∈ members, x.2 ≠ .nan) → ∃ v, (R.onKey (.zadd members) now e).1 = .ok v

/-! ### The reference server -/

section Writing
variable {α : Type} {get : Value → Option α} {empty : α} {put : α → Option Value} {now : Nat} {e : Option Entry}

theorem writing_refused {f : α → Except String (Json × α)} {msg : String} (h : (writing get empty put now e f).1 = .error msg) :
    (writing get empty put now e f).2 = e := by
  have hcases := writing_cases get empty put now e f
  generalize writing get empty put now e f = w at hcases h
  cases hcases with
  | wrongType x hl hget => rfl
  | failed a msg ha hf => rfl
  | wrote a b r ha hf hput => cases h
  | nothing b r hl hf hput => rfl

/-- What is written back as it was found leaves the entry as it is. -/
theorem writing_same {f : α → Except String (Json × α)} {v : Json} (hput : put empty = none)
    (hback : ∀ x a, live now e = some x → get x.value = some a → put a = some x.value)
    (hf : ∀ a b, Found get empty now e a → f a = .ok (v, b) → b = a) (h : (writing get empty put now e f).1 = .ok v) :
    (writing get empty put now e f).2 = e := by
  have hcases := writing_cases get empty put now e f
  generalize writing get empty put now e f = w at hcases h
  cases hcases with
  | wrongType x hl hget => rfl
  | failed a msg ha hf => rfl
  | nothing b r hl hf' hput => rfl
  | wrote a b r ha hf' hput' =>
    cases h
    obtain rfl := hf a b ha hf'
    rcases ha with ⟨hl, rfl⟩ | ⟨x, hl, hget⟩
    · rw [hput, hl] at hput'
      simp at hput'
    · rw [hback x b hl hget, hl, live_eq_some hl]
      rfl

end Writing

theorem reference_refused (c : KeyCmd) (now : Nat) (e : Option Entry) {msg : String} (h : (onKey c now e).1 = .error msg) :
    (onKey c now e).2 = e := by
  revert h
  cases c
  case set value ex nx =>
    simp only [onKey, setCmd]
    split
    · split <;> simp
    · split
      · split <;> simp
      · exact fun _ => rfl
  case setex ttl value =>
    simp only [onKey, setex]
    split <;> simp
  case del => simp [onKey]
  case expire ttl =>
    simp only [onKey, expire]
    split
    · simp
    · split
      · exact fun _ => rfl
      · split <;> simp
  case persist =>
    simp only [onKey, persist]
    split <;> simp
  case incrby => exact writing_refused
  case incrbyfloat => exact writing_refused
  case hset => exact writing_refused
  case hdel => exact writing_refused
  case lpush => exact writing_refused
  case rpush => exact writing_refused
  case lpop => exact writing_refused
  case rpop => exact writing_refused
  case ltrim => exact writing_refused
  case sadd => exact writing_refused
  case srem => exact writing_refused
  case zadd => exact writing_refused
  case zrem => exact writing_refused
  case zincrby => exact writing_refused
  case zpop => exact writing_refused
  case xadd => exact writing_refused
  case xgroupCreate =>
    simp only [onKey, xgroupCreate]
    split
    · exact fun _ => rfl
    · split <;> simp
    · split <;> simp
    · exact fun _ => rfl
  case xreadgroup =>
    simp only [onKey, xreadgroup]
    split
    · exact fun _ => rfl
    · split <;> simp
    · exact fun _ => rfl
  case xack =>
    simp only [onKey, xack]
    split <;> simp
  all_goals exact fun _ => rfl

/-- A filter that drops no element keeps the list. -/
theorem filter_of_length {β : Type} {p : β → Bool} {xs : List β} (h : ((xs.length : Int) - (xs.filter p).length) = 0) :
    xs.filter p = xs := by
  have hlength : (xs.filter p).length = xs.length := by omega
  exact List.filter_sublist.eq_of_length hlength

theorem truthy_int {n : Int} (h : (Json.int n).truthy = false) : n = 0 := by
  simpa [Json.truthy] using h

theorem zpop_falsy {max : Bool} {ms : List (String × Score)} (h : (zpop max ms).1.truthy = false) : (zpop max ms).2 = ms := by
  unfold zpop at h ⊢
  split at h
  · rfl
  · simp [scored, Json.truthy] at h

theorem reference_takes {c : KeyCmd} (hc : c.takes = true) {now : Nat} {e : Option Entry} (he : Solid e) {v : Json}
    (h : (onKey c now e).1 = .ok v) (hv : v.truthy = false) : (onKey c now e).2 = e := by
  have hhash : ∀ x a, live now e = some x → x.value.hash? = some a → putHash a = some x.value := by
    intro x a hl hx
    have hsolid := he x (live_eq_some hl)
    obtain ⟨w, d⟩ := x
    cases w <;> cases hx
    exact if_neg (by simpa [Value.Solid] using hsolid)
  have hset : ∀ x a, live now e = some x → x.value.set? = some a → putSet a = some x.value := by
    intro x a hl hx
    have hsolid := he x (live_eq_some hl)
    obtain ⟨w, d⟩ := x
    cases w <;> cases hx
    exact if_neg (by simpa [Value.Solid] using hsolid)
  have hzset : ∀ x a, live now e = some x → x.value.zset? = some a → putZset a = some x.value := by
    intro x a hl hx
    have hsolid := he x (live_eq_some hl)
    obtain ⟨w, d⟩ := x
    cases w <;> cases hx
    exact if_neg (by simpa [Value.Solid] using hsolid)
  cases c <;> cases hc
  case hdel field =>
    refine writing_same rfl hhash (fun fs b _ hf => ?_) h
    cases hf
    exact filter_of_length (truthy_int hv)
  case srem member =>
    refine writing_same rfl hset (fun ms b _ hf => ?_) h
    cases hf
    exact filter_of_length (truthy_int hv)
  case zrem member =>
    refine writing_same rfl hzset (fun ms b _ hf => ?_) h
    cases hf
    exact filter_of_length (truthy_int hv)
  case zpop max =>
    refine writing_same rfl hzset (fun ms b _ hf => ?_) h
    have hpop : zpop max ms = (v, b) := Except.ok.inj hf
    have hfalsy : (zpop max ms).1.truthy = false := by rw [hpop]; exact hv
    rw [← zpop_falsy hfalsy, hpop]

theorem reference_refusals : reference.Refusals where
  refused c now e msg h := reference_refused c now e h
  takes c now e v hc he h hv := reference_takes hc he h hv
  incrby delta now e v h := by
    obtain ⟨x, hx, -⟩ := writing_adds (Q := fun _ => True) (fun _ _ _ _ => ⟨_, rfl, trivial⟩) h
    show (live now (writing _ _ _ now e _).2).isSome = true
    rw [hx]
    rfl
  zadd members now e he hnan := by
    have hzadd : ∀ ms, ∃ r b, zadd members ms = .ok (r, b) := by
      intro ms
      refine ⟨_, _, if_neg fun hany => ?_⟩
      obtain ⟨x, hx, hbad⟩ := List.any_eq_true.mp hany
      exact hnan x hx (beq_iff_eq.mp hbad)
    show ∃ v, (writing Value.zset? [] putZset now e (zadd members)).1 = .ok v
    have hcases := writing_cases Value.zset? [] putZset now e (zadd members)
    generalize writing Value.zset? [] putZset now e (zadd members) = w at hcases
    cases hcases with
    | wrongType x hl hget => exact absurd hget (access_zset.get _ (he.live now x hl))
    | failed a msg ha hf =>
      obtain ⟨r, b, hok⟩ := hzadd a
      rw [hok] at hf
      cases hf
    | wrote a b r ha hf hput => exact ⟨r, rfl⟩
    | nothing b r hl hf hput => exact ⟨r, rfl⟩

theorem solid_none : Solid none := fun _ h => by cases h

theorem solid_some {v : Value} {d : Option Nat} (hv : v.Solid) : Solid (some ⟨v, d⟩) := fun _ h => by
  cases h
  exact hv

theorem solid_set {s : Store} (hs : ∀ k, Solid (s k)) {k : String} {e : Option Entry} (he : Solid e) (k' : String) : Solid (s.set k e k') := by
  by_cases h : k' = k
  · rwa [h, Store.set_self]
  · rw [Store.set_ne _ _ h]
    exact hs k'

theorem writing_solid {α : Type} {get : Value → Option α} {empty : α} {put : α → Option Value} {now : Nat} {e : Option Entry}
    {f : α → Except String (Json × α)} (hput : ∀ a v, put a = some v → v.Solid) (he : Solid e) :
    Solid (writing get empty put now e f).2 := by
  have hcases := writing_cases get empty put now e f
  generalize writing get empty put now e f = w at hcases
  cases hcases with
  | wrongType x hl hget => exact he
  | failed a msg ha hf => exact he
  | nothing b r hl hf hput => exact he
  | wrote a b r ha hf hput' =>
    cases hv : put b with
    | none => exact solid_none
    | some v => exact solid_some (hput b v hv)

/-- What is put back unless it is empty has elements. -/
theorem put_solid {β : Type} {g : List β → Value} (hg : ∀ xs, xs ≠ [] → (g xs).Solid) (xs : List β) (v : Value)
    (h : (if xs.isEmpty then none else some (g xs)) = some v) : v.Solid := by
  split at h
  · cases h
  · rename_i hne
    cases h
    exact hg xs (by simpa using hne)

/-- No command leaves an empty collection behind. -/
theorem onKey_solid (c : KeyCmd) (now : Nat) {e : Option Entry} (he : Solid e) : Solid (onKey c now e).2 := by
  have hstr : ∀ a v, (fun s => some (Value.str s)) a = some v → v.Solid := by
    rintro a v h
    cases h
    trivial
  have hstream : ∀ a v, (fun x => some (Value.stream x)) a = some v → v.Solid := by
    rintro a v h
    cases h
    trivial
  have hhash := put_solid (g := Value.hash) fun _ h => h
  have hlist := put_solid (g := Value.list) fun _ h => h
  have hset := put_solid (g := Value.set) fun _ h => h
  have hzset := put_solid (g := Value.zset) fun _ h => h
  have hkept : ∀ {x : Entry} {d : Option Nat}, live now e = some x → Solid (some ⟨x.value, d⟩) :=
    fun hl => solid_some (he _ (live_eq_some hl))
  cases c
  case set value ex nx =>
    simp only [onKey, setCmd]
    split
    · split
      · exact he
      · exact solid_some trivial
    · split
      · split
        · exact he
        · exact solid_some trivial
      · exact he
  case setex ttl value =>
    simp only [onKey, setex]
    split
    · exact solid_some trivial
    · exact he
  case del => exact solid_none
  case expire ttl =>
    simp only [onKey, expire]
    split
    · dsimp only
      split
      · exact solid_none
      · exact he
    · split
      · exact he
      · split
        · exact he
        · rename_i hl
          exact hkept hl
  case persist =>
    simp only [onKey, persist]
    split
    · rename_i hl
      exact hkept hl
    · exact he
  case incrby => exact writing_solid hstr he
  case incrbyfloat => exact writing_solid hstr he
  case hset => exact writing_solid hhash he
  case hdel => exact writing_solid hhash he
  case lpush => exact writing_solid hlist he
  case rpush => exact writing_solid hlist he
  case lpop => exact writing_solid hlist he
  case rpop => exact writing_solid hlist he
  case ltrim => exact writing_solid hlist he
  case sadd => exact writing_solid hset he
  case srem => exact writing_solid hset he
  case zadd => exact writing_solid hzset he
  case zrem => exact writing_solid hzset he
  case zincrby => exact writing_solid hzset he
  case zpop => exact writing_solid hzset he
  case xadd => exact writing_solid hstream he
  case xgroupCreate =>
    simp only [onKey, xgroupCreate]
    split
    · exact he
    · split
      · exact solid_some trivial
      · exact he
    · split
      · exact he
      · exact solid_some trivial
    · exact he
  case xreadgroup =>
    simp only [onKey, xreadgroup]
    split
    · exact he
    · split
      · exact he
      · exact solid_some trivial
    · exact he
  case xack =>
    simp only [onKey, xack]
    split
    · exact he
    · exact he
    · exact solid_some trivial
    · exact he
  all_goals exact he

/-- Nor does any command on several keys, or a script. -/
theorem reference_solid (c : Cmd) (now : Nat) {s : Store} (hs : ∀ k, Solid (s k)) (k : String) :
    Solid ((reference.exec c now s).2 k) := by
  have hany : ∀ body : Script, body.Calls fun _ => True := by
    intro body
    induction body with
    | pure a => trivial
    | raise e => trivial
    | call c k ih => exact ⟨trivial, ih⟩
  have hparts : c.Parts fun _ _ => True := by
    cases c with
    | «at» key c => trivial
    | eval key body => exact hany body
    | gather g keys => trivial
    | del keys => exact fun _ _ => trivial
    | publish channel message => trivial
    | multi cs => exact fun _ _ => trivial
  exact Server.exec_entries (R := reference) (E := fun _ e => Solid e) (fun _ c _ _ he => onKey_solid c now he) hparts hs k

end Redgw.Redis
